import WaveMill.Buffer
import WaveMill.Proofs.Resample.Length

/-!
# How long a buffer lasts

The duration of a buffer is a quotient of the format `binary64`, and a timed device takes it in
whole nanoseconds, rounded to the nearest.  Where the exact duration is more than half a nanosecond,
what is left is at least one: the quotient is then above one half by more than all roundings can
take away.

## What is here

* `Number.quotientEven_eq_nearestEven` — the rounding of a quotient, in exact arithmetic.
* `Buffer.computedDuration`, `Buffer.isWide_duration` — the duration in seconds, exactly.
* `Buffer.nanoseconds_pos` — there is at least one nanosecond.
-/

set_option autoImplicit false
namespace WaveMill

open Number Resample

/-! ## Nanoseconds -/

namespace Number

theorem quotientEven_eq_nearestEven (num : ℕ) {den : ℕ} (h : 0 < den) :
    quotientEven num den = nearestEven (num / den) := by
  have hden : (0 : ℚ) < den := by exact_mod_cast h
  have hfloor : ⌊(num / den : ℚ)⌋₊ = num / den := Nat.floor_div_eq_div num den
  have hfraction : (num / den : ℚ) - (num / den : ℕ) = (num % den : ℕ) / den := by
    have hsplit : (den * (num / den : ℕ) + (num % den : ℕ) : ℚ) = num := by
      exact_mod_cast Nat.div_add_mod num den
    rw [eq_div_iff hden.ne', sub_mul, div_mul_cancel₀ _ hden.ne']
    linarith
  have hless : (num % den : ℕ) / (den : ℚ) < 1 / 2 ↔ 2 * (num % den) < den := by
    rw [div_lt_div_iff₀ hden two_pos, one_mul, mul_comm]
    exact_mod_cast Iff.rfl
  have hmore : 1 / 2 < (num % den : ℕ) / (den : ℚ) ↔ den < 2 * (num % den) := by
    rw [div_lt_div_iff₀ two_pos hden, one_mul, mul_comm]
    exact_mod_cast Iff.rfl
  rw [nearestEven, hfloor, hfraction]
  simp only [hless, hmore, quotientEven]
  split_ifs <;> omega

/-- What is more than one half is not rounded to zero. -/
theorem nearestEven_pos {x : ℚ} (h : 1 / 2 < x) : 0 < nearestEven x := by
  have hnear := (abs_le.1 (abs_nearestEven_sub_le (le_trans (by norm_num) h.le))).1
  have hpos : (0 : ℚ) < nearestEven x := by linarith
  exact_mod_cast hpos

theorem IsWide.nanoseconds_eq {x : Float} {a : ℚ} (h : IsWide x .positive a) :
    nanoseconds x = min (nearestEven (a * 10 ^ 9)) maxWord := by
  refine h.toNatBy_eq (f := fun a ↦ nearestEven (a * 10 ^ 9)) (fun num den hden ↦ ?_) ?_
  · have hscaled : (num / den * 10 ^ 9 : ℚ) = (num * 1000000000 : ℕ) / den := by
      push_cast
      ring
    rw [hscaled, quotientEven_eq_nearestEven _ hden]
  · have hzero : nearestEven 0 = 0 := by simpa using nearestEven_natCast 0
    simpa using hzero

end Number

/-! ## Durations -/

namespace Buffer

variable {b : Buffer}

theorem rate_toNat_pos (b : Buffer) : 0 < b.rate.toNat := UInt32.lt_iff_toNat_lt.1 b.rate_pos

/-- The duration in seconds, exactly. -/
def computedDuration (b : Buffer) : ℚ :=
  rounded .binary64 (computedLength b.frames / b.rate.toNat)

theorem computedDuration_le (b : Buffer) : b.computedDuration ≤ 2 ^ 64 := by
  have hone : (1 : ℚ) ≤ b.rate.toNat := by exact_mod_cast b.rate_toNat_pos
  have hlength := computedLength_nonneg b.frames
  exact rounded_le (representable_two_pow 64) (div_nonneg hlength (Nat.cast_nonneg _))
    ((div_le_self hlength hone).trans (computedLength_le _))

theorem isWide_duration (b : Buffer) : IsWide b.duration .positive b.computedDuration :=
  (isWide_computedLength b.frames).div (isWide_rate b.rate)
    (by exact_mod_cast b.rate_toNat_pos.ne')
    (b.computedDuration_le.trans_lt (pow_lt_pow_right₀ one_lt_two (by norm_num)))

/-- A buffer that lasts more than half a nanosecond. -/
theorem half_lt_computedDuration (hframes : b.frames < 2 ^ 64)
    (hrate : b.rate.toNat < 2 * 10 ^ 9 * b.frames) : 1 / 2 < b.computedDuration * 10 ^ 9 := by
  have hpos : 1 ≤ b.frames := by omega
  have hone : (1 : ℚ) ≤ b.frames := by exact_mod_cast hpos
  have hlength := le_rounded_wide (x := b.frames) (le_trans (by norm_num) hone)
  rw [← computedLength_of_lt hframes] at hlength
  have hquotient := le_rounded_wide <| le_div_rate b.rate_toNat_pos <|
    (computedLength_eq_zero_or b.frames).resolve_left (by linarith)
  -- The exact quotient is above one half by one part in the rate.
  have hrate' : (0 : ℚ) < b.rate.toNat := by exact_mod_cast b.rate_toNat_pos
  have hless : (b.rate.toNat : ℚ) ≤ 2 ^ 32 := by exact_mod_cast b.rate.toNat_lt.le
  have hexact : (1 / 2 * (1 + 1 / 2 ^ 32) : ℚ) ≤ b.frames / b.rate.toNat * 10 ^ 9 := by
    have hnext : (b.rate.toNat + 1 : ℚ) ≤ 2 * 10 ^ 9 * b.frames := by exact_mod_cast hrate
    rw [div_mul_eq_mul_div (b.frames : ℚ), le_div_iff₀ hrate']
    linarith
  calc (1 / 2 : ℚ) < 1 / 2 * (1 + 1 / 2 ^ 32) * (1 - 1 / 2 ^ 53) ^ 2 := by norm_num
    _ ≤ b.frames / b.rate.toNat * 10 ^ 9 * (1 - 1 / 2 ^ 53) ^ 2 := by gcongr
    _ = b.frames * (1 - 1 / 2 ^ 53) / b.rate.toNat * (1 - 1 / 2 ^ 53) * 10 ^ 9 := by ring
    _ ≤ computedLength b.frames / b.rate.toNat * (1 - 1 / 2 ^ 53) * 10 ^ 9 := by gcongr
    _ ≤ b.computedDuration * 10 ^ 9 := mul_le_mul_of_nonneg_right hquotient (by norm_num)

theorem nanoseconds_pos (hframes : b.frames < 2 ^ 64)
    (hrate : b.rate.toNat < 2 * 10 ^ 9 * b.frames) : 0 < nanoseconds b.duration := by
  rw [b.isWide_duration.nanoseconds_eq]
  exact lt_min (nearestEven_pos (half_lt_computedDuration hframes hrate)) (by decide)

end Buffer
end WaveMill
