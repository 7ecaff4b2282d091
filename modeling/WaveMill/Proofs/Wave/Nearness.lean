import WaveMill.Proofs.Quantize.Level
import WaveMill.Proofs.Wave.Limits

/-!
# How far a sample moves

What is read back of a file is not what was written.  A sample is clamped, scaled, rounded,
truncated and divided, and the scale of the writer is not the divisor of the reader: steps are
counted `32767` to the unit and read `32768` to the unit, or counted `127` to the unit from below
and read `128` to the unit around the middle.  So the error grows with the sample, and close to full
scale, with the truncation on top of it, it comes close to the bound.

It stays below because a count is less than one step away from the product it is made of: whole
numbers of this size are numbers of the format, and rounding does not carry a product across them.
With one byte the sum with one is rounded before that.  This error would be too much where there is
no room left, near full scale; but there the sum is still at least `255 / 128`, which is enough for
the last code but one, however it was rounded.

## What is here

* `Wave.render_readable` — within the limits a buffer is written and read as that of its codes.
* `Quantize.abs_steps_sub_lt` — a count is less than one step away from the product.
* `Quantize.abs_codeAt_two_sub_lt`, `Quantize.abs_codeAt_one_sub_lt` — the code of a level against
  the level.
* `Wave.decode_render_near` — every sample of the file against that of the buffer.
-/

set_option autoImplicit false
namespace WaveMill

open Number

/-! ## Codes and levels -/

namespace Quantize

variable {z : ℚ} {scale : ℕ}

/-- Rounding does not carry a product across a whole number. -/
theorem abs_steps_sub_lt (hz : 0 ≤ z) (h : z * scale ≤ 2 ^ 24) :
    |steps scale z - z * scale| < 1 := by
  have hproduct : 0 ≤ z * scale := by positivity
  have hfloor : ⌊z * scale⌋₊ ≤ steps scale z :=
    le_steps (Nat.floor_le_of_le (by exact_mod_cast h)) (Nat.floor_le hproduct)
  have hceil : steps scale z ≤ ⌈z * scale⌉₊ :=
    steps_le (Nat.ceil_le.2 (by exact_mod_cast h)) hz (Nat.le_ceil _)
  have hlow : z * scale < ⌊z * scale⌋₊ + 1 := Nat.lt_floor_add_one _
  have hhigh : ⌈z * scale⌉₊ < z * scale + 1 := Nat.ceil_lt_add_one hproduct
  have hfloor' : (⌊z * scale⌋₊ : ℚ) ≤ steps scale z := by exact_mod_cast hfloor
  have hceil' : (steps scale z : ℚ) ≤ ⌈z * scale⌉₊ := by exact_mod_cast hceil
  rw [abs_lt]
  constructor <;> linarith

/-- A code of two bytes is less than two of the steps away that it is read with. -/
theorem abs_codeAt_two_sub_lt (hlow : -1 ≤ z) (hhigh : z ≤ 1) : |codeAt 2 z - 32768 * z| < 2 := by
  wlog hz : 0 ≤ z generalizing z with hpositive
  · have hopposite := hpositive (z := -z) (by linarith) (by linarith) (by linarith)
    rw [codeAt_two_neg] at hopposite
    push_cast at hopposite
    rwa [mul_neg, neg_sub_neg, abs_sub_comm] at hopposite
  · have hcode : codeAt 2 z = steps 32767 z := by
      rw [codeAt, if_pos rfl, posPart_of_nonneg hz, negPart_of_nonneg hz, steps_zero, Nat.cast_zero,
        sub_zero]
    have hsteps : |steps 32767 z - z * (32767 : ℕ)| < 1 :=
      abs_steps_sub_lt hz (by norm_num; linarith)
    rw [hcode, abs_lt]
    rw [abs_lt] at hsteps
    push_cast at hsteps ⊢
    constructor <;> linarith

/-- What is rounded below four moves by no more than one part in `2 ^ 23`. -/
theorem abs_rounded_sub_le_of_lt_four (hz : 0 ≤ z) (h : z < 4) :
    |rounded .binary32 z - z| ≤ 1 / 2 ^ 23 := by
  rcases hz.eq_or_lt with rfl | hpos
  · norm_num
  · have hplace : place .binary32 z ≤ -22 := by
      refine (place_le_iff hpos).2 ⟨?_, by decide⟩
      exact h.trans_eq (by norm_num [Float.Model.Format.mantissaBits])
    have hgrid : (2 : ℚ) ^ place .binary32 z ≤ 2 ^ (-22 : ℤ) :=
      zpow_le_zpow_right₀ one_le_two hplace
    refine (abs_rounded_sub_le hz).trans ?_
    norm_num at hgrid ⊢
    linarith

/-- Near full scale there are enough steps for the last code but one. -/
theorem le_steps_rounded (h : 255 / 128 ≤ z) : 253 ≤ steps 127 (rounded .binary32 z) := by
  have hgrid : Representable .binary32 (255 / 128) :=
    ⟨255, -7, by decide, by decide, by norm_num⟩
  have hrounded : 255 / 128 ≤ rounded .binary32 z := le_rounded hgrid (by norm_num) h
  exact le_steps (by norm_num) (by norm_num; linarith)

/-- A code of one byte is less than three of the steps away that it is read with. -/
theorem abs_codeAt_one_sub_lt (hlow : -1 ≤ z) (hhigh : z ≤ 1) :
    |codeAt 1 z - 128 * (z + 1)| < 3 := by
  rcases hhigh.eq_or_lt with rfl | hless
  · rw [codeAt_one_one]
    norm_num
  have hsum : 0 ≤ z + 1 := by linarith
  have hle : rounded .binary32 (z + 1) ≤ 2 :=
    rounded_le (by exact_mod_cast representable_natCast (n := 2) (by decide)) hsum (by linarith)
  have herror := abs_le.1 (abs_rounded_sub_le_of_lt_four hsum (by linarith))
  have hsteps : |steps 127 (rounded .binary32 (z + 1)) -
      rounded .binary32 (z + 1) * (127 : ℕ)| < 1 :=
    abs_steps_sub_lt rounded_nonneg (by norm_num; linarith)
  have hcode : codeAt 1 z = steps 127 (rounded .binary32 (z + 1)) := rfl
  rw [hcode, abs_lt]
  rw [abs_lt] at hsteps
  push_cast at hsteps ⊢
  norm_num at herror
  refine ⟨?_, by linarith⟩
  rcases le_total (z + 1) (255 / 128) with haway | hnear
  · linarith
  · have hlast : (253 : ℚ) ≤ steps 127 (rounded .binary32 (z + 1)) := by
      exact_mod_cast le_steps_rounded hnear
    linarith

end Quantize

/-! ## Samples -/

namespace Wave

variable {b : Buffer} {bytes : UInt16}

/-- Within the limits of the container a buffer is written, and read as the buffer in which every
sample went through its code. -/
theorem render_readable (hwidth : bytes = 1 ∨ bytes = 2)
    (hlength : b.frames * b.channels.length * bytes.toNat ≤ 2 ^ 32 - 37)
    (hrate : b.rate.toNat * b.channels.length * bytes.toNat < 2 ^ 32) :
    ∃ wave, b.render bytes = .ok wave ∧
      ∀ name, decode name wave = .ok (b.mapSamples (throughCode bytes)) := by
  obtain ⟨data, hdata⟩ : ∃ data, b.quantize bytes = .ok data := ⟨_, b.quantize_eq hwidth⟩
  obtain ⟨h, hheader, hdescribes⟩ := header_describes
    (fits_of_le hwidth ((Buffer.length_quantize hwidth hdata).trans_le hlength) hrate)
  refine ⟨h.bytes ++ data, ?_, fun name ↦ decode_header name hwidth hdata hdescribes⟩
  rw [render_eq hdata, file, hheader]
  rfl

/-- A sample that went through its code is near its level. -/
theorem value?_throughCode_near {x : Float32} (h : x.isNaN = false) :
    (∃ q, Number.value? (throughCode 2 x) = some q ∧ |q - Quantize.level x| < 2 / 32768) ∧
      ∃ q, Number.value? (throughCode 1 x) = some q ∧ |q - Quantize.level x| < 3 / 128 := by
  have hlow := Quantize.neg_one_le_level x
  have hhigh := Quantize.level_le_one x
  constructor
  · refine ⟨_, value?_throughCode_two x, ?_⟩
    have hnear := Quantize.abs_codeAt_two_sub_lt hlow hhigh
    rw [← Quantize.code_eq (.inr rfl) h, Quantize.code_two, abs_lt] at hnear
    rw [abs_lt]
    constructor <;> linarith
  · refine ⟨_, value?_throughCode_one x, ?_⟩
    have hnear := Quantize.abs_codeAt_one_sub_lt hlow hhigh
    rw [← Quantize.code_eq (.inl rfl) h, Quantize.code_one, abs_lt] at hnear
    rw [abs_lt]
    push_cast at hnear ⊢
    constructor <;> linarith

/-- **What is read of a file is near what was written.**  A buffer without anything that is not a
number, within the limits of the container, is written and read as one of the same shape.  Every
sample of that is a number, and its distance from the level of the sample that was written is less
than two of the steps that two bytes are read with, or than three of those of one byte. -/
theorem decode_render_near (name : String) (hwidth : bytes = 1 ∨ bytes = 2)
    (hlength : b.frames * b.channels.length * bytes.toNat ≤ 2 ^ 32 - 37)
    (hrate : b.rate.toNat * b.channels.length * bytes.toNat < 2 ^ 32)
    (hnumbers : ∀ c < b.channels.length, ∀ i < b.frames, (b.sample c i).isNaN = false) :
    ∃ wave decoded, b.render bytes = .ok wave ∧ decode name wave = .ok decoded ∧
      decoded.rate = b.rate ∧ decoded.channels.length = b.channels.length ∧
      decoded.frames = b.frames ∧
      ∀ c < b.channels.length, ∀ i < b.frames,
        ∃ q, Number.value? (decoded.sample c i) = some q ∧
          (bytes = 2 → |q - Quantize.level (b.sample c i)| < 2 / 32768) ∧
          (bytes = 1 → |q - Quantize.level (b.sample c i)| < 3 / 128) := by
  obtain ⟨wave, hrender, hdecode⟩ := render_readable hwidth hlength hrate
  refine ⟨wave, _, hrender, hdecode name, Buffer.rate_mapSamples,
    Buffer.length_channels_mapSamples, Buffer.frames_mapSamples, fun c hc i hi ↦ ?_⟩
  rw [Buffer.sample_mapSamples hc hi]
  obtain ⟨⟨q, hq, hnear⟩, ⟨r, hr, hnear'⟩⟩ := value?_throughCode_near (hnumbers c hc i hi)
  rcases hwidth with rfl | rfl
  · exact ⟨r, hr, by simp, fun _ ↦ hnear'⟩
  · exact ⟨q, hq, fun _ ↦ hnear, by simp⟩

/-- An infinite sample, minus zero, the largest sample below full scale, and one beyond it. -/
def extreme : Buffer where
  channels := [#[.ofBits 0x7f800000, -0, .ofBits 0x3f7fffff, 3.5]]
  rate := 12000
  channels_ne_nil := List.cons_ne_nil _ _
  length_channels_le := by decide
  size_eq := by decide
  rate_pos := by decide

theorem decode_render_near_extreme :
    ∃ wave decoded q, extreme.render 1 = .ok wave ∧ decode "extreme.wav" wave = .ok decoded ∧
      decoded.frames = 4 ∧ Number.value? (decoded.sample 0 0) = some q ∧ |q - 1| < 3 / 128 := by
  obtain ⟨wave, decoded, hrender, hdecode, -, -, hframes, hsamples⟩ :=
    decode_render_near (b := extreme) "extreme.wav" (.inl rfl) (by decide) (by decide)
      (by decide +kernel)
  obtain ⟨q, hq, -, hnear⟩ := hsamples 0 (by decide) 0 (by decide)
  have hlevel : Quantize.level (extreme.sample 0 0) = 1 :=
    Quantize.level_of_infinity (s := .positive) rfl
  rw [hlevel] at hnear
  exact ⟨wave, decoded, q, hrender, hdecode, hframes, hq, hnear rfl⟩

end Wave
end WaveMill
