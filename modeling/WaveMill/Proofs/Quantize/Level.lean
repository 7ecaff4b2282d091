import WaveMill.Proofs.Number.Magnitude
import WaveMill.Proofs.Wave.RoundTrip

/-!
# The code of a level

A sample is clamped before anything is computed from it.  What the clamp leaves is a rational number
between minus one and one, the level of the sample, and the code depends on nothing else.  Levels
are in the order of their samples, so everything that is said about codes in the order of samples is
first said about levels, in exact arithmetic: the product with the scale is rounded and truncated,
and both keep the order.

A 16-bit code is truncated towards zero.  It counts the steps up to the level if that is positive,
and the steps down to it if it is negative, so it is a difference of two counts of which one is
zero; for that reason the code of the opposite sample is the opposite code, without any distinction
of signs.  An 8-bit code counts from below, and the sum with one is rounded before the product is.

## What is here

* `Quantize.level` — the level of a sample, `Quantize.level_mono` and `Quantize.level_neg`.
* `Quantize.steps` — how many steps there are up to a level.
* `Quantize.code` — the code of a sample as a number, and `Quantize.code_eq`, as a function of the
  level.
* `Quantize.code_mono_saturates` — codes in the order of samples.
-/

set_option autoImplicit false
namespace WaveMill
namespace Quantize

open Float.Model (UnpackedFloat)
open Float.Model.UnpackedFloat (Sign)
open Number

variable {x y : Float32} {s : Sign} {a z w : ℚ} {bytes : UInt16} {n scale : ℕ}

/-! ## Levels -/

/-- The number within full scale that is nearest to a sample.  An infinite sample is at full scale;
what is not a number has no level, and counts as silence here. -/
def level (x : Float32) : ℚ :=
  match x.toModel.unpack with
  | .infinity s => signed s 1
  | .finite s m e _ => max (-1) (min 1 (signed s (m * 2 ^ e)))
  | _ => 0

theorem level_of_infinity (h : x.toModel.unpack = .infinity s) : level x = signed s 1 := by
  rw [level, h]

theorem level_of_isNarrow (h : IsNarrow x s a) : level x = max (-1) (min 1 (signed s a)) := by
  unfold IsNarrow at h
  unfold level
  generalize x.toModel.unpack = u at h
  cases h with
  | zero =>
    rw [signed_zero]
    norm_num
  | finite => rfl

theorem level_of_value? {q : ℚ} (h : value? x = some q) : level x = max (-1) (min 1 q) := by
  obtain ⟨s, a, ha, rfl⟩ := exists_isNarrow_of_value? h
  exact level_of_isNarrow ha

theorem level_one : level 1 = 1 := by
  rw [level_of_isNarrow isNarrow_one, signed_positive, min_self]
  norm_num

theorem neg_one_le_level (x : Float32) : -1 ≤ level x := by
  unfold level
  split
  · rename_i s _
    cases s
    · exact le_rfl
    · norm_num
  · exact le_max_left ..
  · norm_num

theorem level_le_one (x : Float32) : level x ≤ 1 := by
  unfold level
  split
  · rename_i s _
    cases s
    · norm_num
    · exact le_rfl
  · exact max_le (by norm_num) (min_le_left ..)
  · norm_num

/-- Levels are in the order of their samples; only what is beyond full scale is no longer told
apart. -/
theorem level_mono (h : x ≤ y) : level x ≤ level y := by
  obtain ⟨hx, hy⟩ := isNaN_of_le h
  rw [le_iff_compare] at h
  obtain ⟨s, hs⟩ | ⟨s, a, ha⟩ := infinity_or_isNarrow hx
  · cases s with
    | negative =>
      rw [level_of_infinity hs]
      exact neg_one_le_level y
    | positive =>
      -- Above an infinite sample there is none but itself.
      obtain ⟨t, ht⟩ | ⟨t, b, hb⟩ := infinity_or_isNarrow hy
      · cases t with
        | negative =>
          rw [hs, ht] at h
          cases h
        | positive =>
          rw [level_of_infinity hs, level_of_infinity ht]
      · rw [hs, (compare_infinity hb).2] at h
        cases h
  · obtain ⟨t, ht⟩ | ⟨t, b, hb⟩ := infinity_or_isNarrow hy
    · cases t with
      | negative =>
        rw [ht, (compare_negativeInfinity ha).1] at h
        cases h
      | positive =>
        rw [level_of_infinity ht]
        exact level_le_one x
    · rw [level_of_isNarrow ha, level_of_isNarrow hb]
      exact max_le_max_left _ (min_le_min_left _ ((ha.le_iff hb).1 (le_iff_compare.2 h)))

theorem level_neg (x : Float32) : level (-x) = -level x := by
  obtain ⟨hnan, -⟩ | ⟨s, hs, -⟩ | ⟨s, a, ha, -⟩ := magnitude_cases x
  · rw [level, level, unpack_neg, hnan]
    exact neg_zero.symm
  · have hneg : (-x).toModel.unpack = .infinity (-s) := by
      rw [unpack_neg, hs]
      rfl
    rw [level_of_infinity hneg, level_of_infinity hs, signed_neg]
  · rw [level_of_isNarrow ha.neg, level_of_isNarrow ha, signed_neg]
    calc max (-1) (min 1 (-signed s a))
        = min (max (-1) 1) (max (-1) (-signed s a)) := max_min_distrib_left ..
      _ = min 1 (-min 1 (signed s a)) := by rw [max_neg_neg, max_eq_right (by norm_num)]
      _ = -max (-1) (min 1 (signed s a)) := by rw [← min_neg_neg, neg_neg]

theorem isNarrow_negativeOne : IsNarrow (-1) .negative 1 := isNarrow_one.neg

/-- The clamp leaves the level of a sample. -/
theorem exists_isNarrow_clamp (h : x.isNaN = false) :
    ∃ s a, IsNarrow (clamp x) s a ∧ signed s a = level x := by
  unfold clamp
  obtain ⟨s, hs⟩ | ⟨s, a, ha⟩ := infinity_or_isNarrow h
  · rw [level_of_infinity hs]
    cases s with
    | negative =>
      have hlow : x < -1 := by
        rw [lt_iff_compare, hs, (compare_negativeInfinity isNarrow_negativeOne).2]
      rw [if_pos hlow]
      exact ⟨_, _, isNarrow_negativeOne, rfl⟩
    | positive =>
      have hlow : ¬x < -1 := by
        rw [lt_iff_compare, hs, (compare_infinity isNarrow_negativeOne).2]
        decide
      have hhigh : 1 < x := by
        rw [lt_iff_compare, hs, (compare_infinity isNarrow_one).1]
      rw [if_neg hlow, if_pos hhigh]
      exact ⟨_, _, isNarrow_one, rfl⟩
  · rw [level_of_isNarrow ha]
    split
    case isTrue hlow =>
      rw [ha.lt_iff isNarrow_negativeOne, signed_negative] at hlow
      exact ⟨_, _, isNarrow_negativeOne, (max_eq_left ((min_le_right ..).trans hlow.le)).symm⟩
    case isFalse hlow =>
      rw [ha.lt_iff isNarrow_negativeOne, signed_negative, not_lt] at hlow
      split
      case isTrue hhigh =>
        rw [isNarrow_one.lt_iff ha, signed_positive] at hhigh
        rw [min_eq_left hhigh.le, max_eq_right (by norm_num)]
        exact ⟨_, _, isNarrow_one, rfl⟩
      case isFalse hhigh =>
        rw [isNarrow_one.lt_iff ha, signed_positive, not_lt] at hhigh
        rw [min_eq_right hhigh, max_eq_right hlow]
        exact ⟨_, _, ha, rfl⟩

/-! ## Steps -/

/-- How many whole steps there are up to a level, where the product with the number of steps per
unit is rounded before it is truncated. -/
def steps (scale : ℕ) (z : ℚ) : ℕ := ⌊rounded .binary32 (z * scale)⌋₊

@[simp]
theorem steps_zero : steps scale 0 = 0 := by rw [steps, zero_mul, rounded_zero, Nat.floor_zero]

theorem steps_mono (hz : 0 ≤ z) (h : z ≤ w) : steps scale z ≤ steps scale w :=
  Nat.floor_mono (rounded_mono (by positivity) (by gcongr))

/-- A number of steps that has a mantissa is not exceeded because of the rounding. -/
theorem steps_le (hn : n ≤ 2 ^ 24) (hz : 0 ≤ z) (h : z * scale ≤ n) : steps scale z ≤ n :=
  Nat.floor_le_of_le (rounded_le (representable_natCast hn) (by positivity) h)

theorem le_steps (hn : n ≤ 2 ^ 24) (h : n ≤ z * scale) : n ≤ steps scale z :=
  Nat.le_floor (le_rounded (representable_natCast hn) (Nat.cast_nonneg n) h)

/-- A whole product is not rounded. -/
theorem steps_natCast {k : ℕ} (h : k * scale ≤ 2 ^ 24) : steps scale k = k * scale := by
  have hproduct : (k * scale : ℚ) = (k * scale : ℕ) := by push_cast; rfl
  rw [steps, hproduct, rounded_of_representable (representable_natCast h), Nat.floor_natCast]

theorem isNarrow_32767 : IsNarrow 32767 .positive (32767 : ℕ) := by
  have h : IsNarrow 32767 .positive ((16776704 : ℕ) * 2 ^ (-9 : ℤ)) :=
    Denotes.finite .positive (by decide) (by decide)
  norm_num at h
  exact_mod_cast h

theorem isNarrow_127 : IsNarrow 127 .positive (127 : ℕ) := by
  have h : IsNarrow 127 .positive ((16646144 : ℕ) * 2 ^ (-17 : ℤ)) :=
    Denotes.finite .positive (by decide) (by decide)
  norm_num at h
  exact_mod_cast h

/-- The product with a scale is in range, and no larger than that of the largest level. -/
theorem rounded_scaled_le {limit : ℕ} (ha : 0 ≤ a) (hle : a ≤ limit)
    (hlimit : limit * scale ≤ 2 ^ 24) :
    rounded .binary32 (a * scale) ≤ (limit * scale : ℕ) := by
  refine rounded_le (representable_natCast hlimit) (by positivity) ?_
  push_cast
  gcongr

/-- The code of two bytes counts the steps above zero or below it. -/
theorem toInt_code16 (h : x.isNaN = false) :
    (code16 x).toInt = steps 32767 (level x)⁺ - steps 32767 (level x)⁻ := by
  obtain ⟨s, a, ha, hlevel⟩ := exists_isNarrow_clamp h
  have hbounds : a ≤ 1 := by
    have hlow := neg_one_le_level x
    have hhigh := level_le_one x
    rw [← hlevel] at hlow hhigh
    cases s
    · rw [signed_negative] at hlow
      linarith
    · exact hhigh
  have hscaled : rounded .binary32 (a * (32767 : ℕ)) ≤ (1 * 32767 : ℕ) :=
    rounded_scaled_le ha.nonneg (by exact_mod_cast hbounds) (by norm_num)
  have hproduct := ha.mul isNarrow_32767 (hscaled.trans_lt (by norm_num))
  have hcode := hproduct.truncate16_eq (hscaled.trans_lt (by norm_num))
  rw [code16, hcode, ← hlevel]
  cases s with
  | negative =>
    rw [signed_negative, posPart_neg, negPart_neg, negPart_of_nonneg ha.nonneg,
      posPart_of_nonneg ha.nonneg, steps_zero, Nat.cast_zero, zero_sub]
    rfl
  | positive =>
    rw [signed_positive, negPart_of_nonneg ha.nonneg, posPart_of_nonneg ha.nonneg, steps_zero,
      Nat.cast_zero, sub_zero]
    rfl

/-- The code of one byte counts the steps from below. -/
theorem toNat_code8 (h : x.isNaN = false) :
    (code8 x).toNat = steps 127 (rounded .binary32 (level x + 1)) := by
  obtain ⟨s, a, ha, hlevel⟩ := exists_isNarrow_clamp h
  have hlow := neg_one_le_level x
  have hhigh := level_le_one x
  have hsum : rounded .binary32 (level x + 1) ≤ (2 : ℕ) :=
    rounded_le (representable_natCast (by decide)) (by linarith) (by norm_num; linarith)
  have hraised : IsNarrow (clamp x + 1) .positive (rounded .binary32 (level x + 1)) := by
    rw [← hlevel] at hlow hsum ⊢
    exact ha.add isNarrow_one one_pos (by linarith) (hsum.trans_lt (by norm_num))
  have hscaled : rounded .binary32 (rounded .binary32 (level x + 1) * (127 : ℕ)) ≤
      (2 * 127 : ℕ) := rounded_scaled_le rounded_nonneg hsum (by norm_num)
  have hproduct := hraised.mul isNarrow_127 (hscaled.trans_lt (by norm_num))
  exact hproduct.toUInt8_eq (hscaled.trans_lt (by norm_num))

/-! ## Codes -/

/-- The code of a sample, as the number that its bytes write: a signed one if there are two. -/
def code (bytes : UInt16) (x : Float32) : ℤ :=
  if bytes = 2 then Bytes.signed (Bytes.little (encode bytes x)) 16
  else Bytes.little (encode bytes x)

theorem code_two : code 2 x = (code16 x).toInt := by
  rw [code, if_pos rfl, encode, if_pos rfl, Bytes.little_ofWord16, Wave.signed_toNat]

theorem code_one : code 1 x = (code8 x).toNat := rfl

/-- The code of a level. -/
def codeAt (bytes : UInt16) (z : ℚ) : ℤ :=
  if bytes = 2 then steps 32767 z⁺ - steps 32767 z⁻ else steps 127 (rounded .binary32 (z + 1))

/-- The code of a sample depends on its level alone. -/
theorem code_eq (hwidth : bytes = 1 ∨ bytes = 2) (h : x.isNaN = false) :
    code bytes x = codeAt bytes (level x) := by
  rcases hwidth with rfl | rfl
  · rw [code_one, toNat_code8 h]
    rfl
  · rw [code_two, toInt_code16 h]
    rfl

theorem codeAt_mono (hz : -1 ≤ z) (h : z ≤ w) : codeAt bytes z ≤ codeAt bytes w := by
  unfold codeAt
  split
  · have hup : steps 32767 z⁺ ≤ steps 32767 w⁺ := steps_mono (posPart_nonneg z) (posPart_mono h)
    have hdown : steps 32767 w⁻ ≤ steps 32767 z⁻ := steps_mono (negPart_nonneg w) (negPart_anti h)
    omega
  · exact_mod_cast steps_mono rounded_nonneg (rounded_mono (by linarith) (by linarith))

theorem codeAt_two_neg : codeAt 2 (-z) = -codeAt 2 z := by
  simp only [codeAt, if_pos, posPart_neg, negPart_neg, neg_sub]

/-- At full scale the code is that of the last step. -/
theorem codeAt_two_one : codeAt 2 1 = 32767 := by
  have hfull : steps 32767 1 = 32767 := by exact_mod_cast steps_natCast (k := 1) (by norm_num)
  rw [codeAt, if_pos rfl, posPart_of_nonneg zero_le_one, negPart_of_nonneg zero_le_one, steps_zero,
    hfull]
  rfl

theorem codeAt_one_one : codeAt 1 1 = 254 := by
  have hsum : rounded .binary32 (1 + 1) = 2 := by
    rw [one_add_one_eq_two]
    exact rounded_of_representable (representable_natCast (n := 2) (by decide))
  have hfull : steps 127 2 = 254 := by exact_mod_cast steps_natCast (k := 2) (by norm_num)
  rw [codeAt, if_neg (by decide), hsum, hfull]
  rfl

/-- **Codes are in the order of samples, and they saturate.**  Of two samples, the one that is not
larger has the code that is not larger; beyond full scale all samples have the code of full scale.
A code of two bytes lies between the opposites of the largest one, and that of the opposite sample
is its opposite; a code of one byte is never the largest byte. -/
theorem code_mono_saturates (hwidth : bytes = 1 ∨ bytes = 2) :
    (∀ x y, x ≤ y → code bytes x ≤ code bytes y) ∧
    (∀ x, 1 ≤ x → code bytes x = code bytes 1) ∧
    (∀ x, x ≤ -1 → code bytes x = code bytes (-1)) ∧
    ∀ x : Float32, x.isNaN = false →
      (bytes = 2 → -32767 ≤ code bytes x ∧ code bytes x ≤ 32767 ∧
        code bytes (-x) = -code bytes x) ∧
      (bytes = 1 → 0 ≤ code bytes x ∧ code bytes x ≤ 254) := by
  have hone : (1 : Float32).isNaN = false := by decide
  have hminus : (-1 : Float32).isNaN = false := by decide
  refine ⟨fun x y h ↦ ?_, fun x h ↦ ?_, fun x h ↦ ?_, fun x h ↦ ⟨?_, ?_⟩⟩
  · obtain ⟨hx, hy⟩ := isNaN_of_le h
    rw [code_eq hwidth hx, code_eq hwidth hy]
    exact codeAt_mono (neg_one_le_level x) (level_mono h)
  · have hlevel : level x = 1 := (level_le_one x).antisymm (level_one ▸ level_mono h)
    rw [code_eq hwidth (isNaN_of_le h).2, code_eq hwidth hone, hlevel, level_one]
  · have hfull : level (-1) = -1 := by rw [level_neg, level_one]
    have hlevel : level x = -1 := (hfull ▸ level_mono h).antisymm (neg_one_le_level x)
    rw [code_eq hwidth (isNaN_of_le h).1, code_eq hwidth hminus, hlevel, hfull]
  · rintro rfl
    have hneg : (-x).isNaN = false := (isNaN_neg x).trans h
    have hlow : codeAt 2 (-1) ≤ codeAt 2 (level x) := codeAt_mono le_rfl (neg_one_le_level x)
    have hhigh : codeAt 2 (level x) ≤ codeAt 2 1 :=
      codeAt_mono (neg_one_le_level x) (level_le_one x)
    rw [codeAt_two_neg, codeAt_two_one] at hlow
    rw [codeAt_two_one] at hhigh
    rw [code_eq hwidth h, code_eq hwidth hneg, level_neg, codeAt_two_neg]
    exact ⟨hlow, hhigh, rfl⟩
  · rintro rfl
    have hhigh : codeAt 1 (level x) ≤ codeAt 1 1 :=
      codeAt_mono (neg_one_le_level x) (level_le_one x)
    rw [codeAt_one_one, ← code_eq hwidth h] at hhigh
    exact ⟨Int.natCast_nonneg _, hhigh⟩

/-- An infinite sample has the code of full scale, and two small ones have theirs in order. -/
theorem code_mono_saturates_infinity :
    code 2 (.ofBits 0x7f800000) = code 2 1 ∧ code 2 (-0.25) ≤ code 2 0.1 ∧
      code 2 (-0.1) = -code 2 0.1 := by
  obtain ⟨hmono, habove, -, hrange⟩ := @code_mono_saturates 2 (.inr rfl)
  exact ⟨habove _ (by decide +kernel), hmono _ _ (by decide +kernel),
    ((hrange 0.1 (by decide +kernel)).1 rfl).2.2⟩

end Quantize
end WaveMill
