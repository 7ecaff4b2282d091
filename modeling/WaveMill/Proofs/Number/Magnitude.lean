import WaveMill.Proofs.Number.Value

/-!
# The magnitudes of all samples

A sample is a number with a sign and a magnitude, or an infinity, or not a number at all.  Here
every sample gets a magnitude: that of an infinity is above all others, and that of what is not a
number is below all others, since it counts for nothing where samples are compared.  So the
comparison of two magnitudes in the program is that of a linear order, as long as the first one is
that of a number, whatever the second is.

## What is here

* `Number.magnitude` — the magnitude of a sample, and `Number.magnitude_cases`, what it can be.
* `Number.infinity_or_isNarrow`, `Number.isNaN_of_le` — what is left without what is not a number.
* `Number.abs_eq_of_magnitude_eq` — a sample without its sign is what its magnitude says.
* `Number.abs_lt_abs_iff`, `Number.abs_le_abs_iff` — the order of magnitudes.
* `Number.magnitude_mul_infinity` — a number that is not zero times an infinity.
-/

set_option autoImplicit false
namespace WaveMill
namespace Number

open Float.Model (Format UnpackedFloat)
open Float.Model.UnpackedFloat

variable {S : Format} {u : UnpackedFloat} {x y : Float32} {s t : Sign} {a b : ℚ}

/-- The magnitude of a sample. -/
def magnitude (x : Float32) : WithBot (WithTop ℚ) :=
  match x.toModel.unpack with
  | .notANumber => ⊥
  | .infinity _ => ⊤
  | .zero _ => 0
  | .finite _ m e _ => ((m * 2 ^ e : ℚ) : WithTop ℚ)

theorem magnitude_of_infinity (h : x.toModel.unpack = .infinity s) : magnitude x = ⊤ := by
  rw [magnitude, h]

theorem IsNarrow.magnitude_eq (h : IsNarrow x s a) : magnitude x = (a : WithTop ℚ) := by
  unfold IsNarrow at h
  unfold magnitude
  generalize x.toModel.unpack = u at h
  cases h with
  | zero => rfl
  | finite => rfl

theorem magnitude_zero : magnitude 0 = 0 := isNarrow_zero.magnitude_eq

/-- What the magnitude of a sample can be. -/
theorem magnitude_cases (x : Float32) :
    (x.toModel.unpack = .notANumber ∧ magnitude x = ⊥) ∨
      (∃ s, x.toModel.unpack = .infinity s ∧ magnitude x = ⊤) ∨
      ∃ s a, IsNarrow x s a ∧ magnitude x = (a : WithTop ℚ) := by
  rcases unpack_cases (S := .binary32) x.toModel.toBits.toBitVec with
    ⟨s, hs⟩ | hnan | ⟨s, a, ha, -⟩
  · exact .inr (.inl ⟨s, hs, magnitude_of_infinity hs⟩)
  · have hbot : magnitude x = ⊥ := by
      have hread : x.toModel.unpack = .notANumber := hnan
      rw [magnitude, hread]
    exact .inl ⟨hnan, hbot⟩
  · exact .inr (.inr ⟨s, a, ha, IsNarrow.magnitude_eq ha⟩)

/-- A sample with a magnitude between the extremes is a number. -/
theorem exists_isNarrow_of_magnitude (hbot : magnitude x ≠ ⊥) (htop : magnitude x ≠ ⊤) :
    ∃ s a, IsNarrow x s a ∧ magnitude x = (a : WithTop ℚ) := by
  obtain ⟨-, h⟩ | ⟨s, -, h⟩ | h := magnitude_cases x
  · exact absurd h hbot
  · exact absurd h htop
  · exact h

/-- Only what is not a number has no magnitude to speak of. -/
theorem unpack_of_magnitude_eq_bot (h : magnitude x = ⊥) : x.toModel.unpack = .notANumber := by
  obtain ⟨hnan, -⟩ | ⟨s, -, htop⟩ | ⟨s, a, -, hnumber⟩ := magnitude_cases x
  · exact hnan
  · exact absurd (htop.symm.trans h) (by decide)
  · exact absurd (hnumber.symm.trans h) WithBot.coe_ne_bot

/-- Only an infinity is above all numbers. -/
theorem unpack_of_magnitude_eq_top (h : magnitude x = ⊤) :
    ∃ s, x.toModel.unpack = .infinity s := by
  obtain ⟨-, hbot⟩ | ⟨s, hs, -⟩ | ⟨s, a, -, hnumber⟩ := magnitude_cases x
  · exact absurd (hbot.symm.trans h) (by decide)
  · exact ⟨s, hs⟩
  · exact absurd (WithBot.coe_injective (hnumber.symm.trans h)) WithTop.coe_ne_top

theorem magnitude_zero_le_iff : magnitude 0 ≤ magnitude x ↔ magnitude x ≠ ⊥ := by
  rw [magnitude_zero]
  constructor
  · intro h
    exact ((WithBot.bot_lt_coe _).trans_le h).ne'
  · intro h
    obtain ⟨-, hbot⟩ | ⟨s, -, htop⟩ | ⟨s, a, ha, hnumber⟩ := magnitude_cases x
    · exact absurd hbot h
    · exact htop ▸ le_top
    · rw [hnumber]
      exact_mod_cast ha.nonneg

/-! ## What is not a number -/

theorem isNaN_iff : x.isNaN = true ↔ x.toModel.unpack = .notANumber := by
  show x.toModel.unpack.isNaN = true ↔ _
  cases x.toModel.unpack <;> simp [UnpackedFloat.isNaN]

theorem magnitude_ne_bot_iff : magnitude x ≠ ⊥ ↔ x.isNaN = false := by
  rw [← Bool.not_eq_true, isNaN_iff, not_iff_not]
  refine ⟨unpack_of_magnitude_eq_bot, fun h ↦ ?_⟩
  rw [magnitude, h]

/-- The sign is turned before the sample is packed again. -/
theorem unpack_neg (x : Float32) : (-x).toModel.unpack = x.toModel.unpack.neg := by
  have hneg : (-x).toModel.unpack = (Float32.Model.pack x.toModel.unpack.neg).unpack := rfl
  obtain ⟨hnan, -⟩ | ⟨s, hs, -⟩ | ⟨s, a, ha, -⟩ := magnitude_cases x
  · rw [hneg, hnan]
    rfl
  · rw [hneg, hs]
    exact unpack_packedInfinity
  · exact unpack_pack_of_lt (by decide) (Denotes.neg ha) ha.lt_limit

theorem isNaN_neg (x : Float32) : (-x).isNaN = x.isNaN := by
  rw [Bool.eq_iff_iff, isNaN_iff, isNaN_iff, unpack_neg]
  cases x.toModel.unpack <;> simp [UnpackedFloat.neg]

theorem infinity_or_isNarrow (h : x.isNaN = false) :
    (∃ s, x.toModel.unpack = .infinity s) ∨ ∃ s a, IsNarrow x s a := by
  obtain ⟨hnan, -⟩ | ⟨s, hs, -⟩ | ⟨s, a, ha, -⟩ := magnitude_cases x
  · rw [isNaN_iff.2 hnan] at h
    cases h
  · exact .inl ⟨s, hs⟩
  · exact .inr ⟨s, a, ha⟩

theorem isNaN_of_value? {q : ℚ} (h : value? x = some q) : x.isNaN = false := by
  rw [← Bool.not_eq_true, isNaN_iff]
  intro hx
  rw [value?, hx] at h
  cases h

theorem compare_notANumber (u : UnpackedFloat) : u.compare .notANumber = none := by
  cases u with
  | notANumber => rfl
  | infinity s => cases s <;> rfl
  | zero => rfl
  | finite s => cases s <;> rfl

/-- What is not a number is not comparable with anything. -/
theorem isNaN_of_le (h : x ≤ y) : x.isNaN = false ∧ y.isNaN = false := by
  rw [le_iff_compare] at h
  constructor
  · rw [← Bool.not_eq_true, isNaN_iff]
    intro hx
    rw [hx] at h
    cases h
  · rw [← Bool.not_eq_true, isNaN_iff]
    intro hy
    rw [hy, compare_notANumber] at h
    cases h

/-! ## The order -/

/-- The sign is taken off before the sample is packed again. -/
theorem unpack_abs (x : Float32) : x.abs.toModel.unpack = x.toModel.unpack.abs := by
  have habs : x.abs.toModel.unpack = (Float32.Model.pack x.toModel.unpack.abs).unpack := rfl
  obtain ⟨hnan, -⟩ | ⟨s, hs, -⟩ | ⟨s, a, ha, -⟩ := magnitude_cases x
  · rw [habs, hnan]
    rfl
  · rw [habs, hs]
    exact unpack_packedInfinity
  · exact unpack_pack_of_lt (by decide) (Denotes.abs ha) ha.lt_limit

theorem isNaN_abs (x : Float32) : x.abs.isNaN = x.isNaN := by
  rw [Bool.eq_iff_iff, isNaN_iff, isNaN_iff, unpack_abs]
  cases x.toModel.unpack <;> simp [UnpackedFloat.abs]

/-- A sample without its sign is what its magnitude says. -/
theorem abs_eq_of_magnitude_eq (h : magnitude x = magnitude y) : x.abs = y.abs := by
  suffices hforms : x.toModel.unpack.abs = y.toModel.unpack.abs from
    congrArg (fun u ↦ Float32.ofModel (.pack u)) hforms
  obtain ⟨hx, hbot⟩ | ⟨s, hx, htop⟩ | ⟨s, a, hx, hnumber⟩ := magnitude_cases x
  · rw [hx, unpack_of_magnitude_eq_bot (h.symm.trans hbot)]
  · obtain ⟨t, hy⟩ := unpack_of_magnitude_eq_top (h.symm.trans htop)
    rw [hx, hy]
    rfl
  · have hy := h.symm.trans hnumber
    obtain ⟨t, b, hb, hy'⟩ := exists_isNarrow_of_magnitude (x := y)
      (by rw [hy]; exact WithBot.coe_ne_bot)
      (by rw [hy]; exact fun htop ↦ WithTop.coe_ne_top (WithBot.coe_injective htop))
    obtain rfl : a = b := by
      rw [hy] at hy'
      exact_mod_cast hy'
    exact (Denotes.abs hx).form_eq (Denotes.abs hb)

theorem compare_infinity (h : Denotes S u s a) :
    u.compare (.infinity .positive) = some .lt ∧
      (UnpackedFloat.infinity .positive).compare u = some .gt := by
  cases h with
  | zero => exact ⟨rfl, rfl⟩
  | finite s => cases s <;> exact ⟨rfl, rfl⟩

theorem compare_negativeInfinity (h : Denotes S u s a) :
    u.compare (.infinity .negative) = some .gt ∧
      (UnpackedFloat.infinity .negative).compare u = some .lt := by
  cases h with
  | zero => exact ⟨rfl, rfl⟩
  | finite s => cases s <;> exact ⟨rfl, rfl⟩

/-- The model compares magnitudes in their order. -/
theorem compare_abs (hx : magnitude x ≠ ⊥) (hy : magnitude y ≠ ⊥) :
    x.toModel.unpack.abs.compare y.toModel.unpack.abs =
      some (compare (magnitude x) (magnitude y)) := by
  have hlt (a : ℚ) : ((a : WithTop ℚ) : WithBot (WithTop ℚ)) < ⊤ :=
    WithBot.coe_lt_coe.2 (WithTop.coe_lt_top a)
  obtain ⟨-, hbot⟩ | ⟨s, hs, hx'⟩ | ⟨s, a, ha, hx'⟩ := magnitude_cases x
  · exact absurd hbot hx
  · obtain ⟨-, hbot⟩ | ⟨t, ht, hy'⟩ | ⟨t, b, hb, hy'⟩ := magnitude_cases y
    · exact absurd hbot hy
    · rw [hs, ht, hx', hy', compare_eq_iff_eq.2 rfl]
      rfl
    · rw [hs, hx', hy', compare_gt_iff_gt.2 (hlt b)]
      exact (compare_infinity (Denotes.abs hb)).2
  · obtain ⟨-, hbot⟩ | ⟨t, ht, hy'⟩ | ⟨t, b, hb, hy'⟩ := magnitude_cases y
    · exact absurd hbot hy
    · rw [ht, hx', hy', compare_lt_iff_lt.2 (hlt a)]
      exact (compare_infinity (Denotes.abs ha)).1
    · rw [hx', hy', compare_denotes (Denotes.abs ha) (Denotes.abs hb), signed_positive,
        signed_positive, ← cmp_eq_compare, ← cmp_eq_compare]
      exact congrArg some
        ((WithBot.coe_strictMono.comp WithTop.coe_strictMono).cmp_map_eq a b).symm

theorem abs_lt_abs_iff (hx : magnitude x ≠ ⊥) : x.abs < y.abs ↔ magnitude x < magnitude y := by
  rw [lt_iff_compare, unpack_abs, unpack_abs]
  by_cases hy : magnitude y = ⊥
  · have habs : y.toModel.unpack.abs = .notANumber := by
      rw [unpack_of_magnitude_eq_bot hy]
      rfl
    rw [habs, hy, compare_notANumber]
    simp
  · rw [compare_abs hx hy, Option.some.injEq, compare_lt_iff_lt]

theorem abs_le_abs_iff (hx : magnitude x ≠ ⊥) (hy : magnitude y ≠ ⊥) :
    x.abs ≤ y.abs ↔ magnitude x ≤ magnitude y := by
  rw [le_iff_compare, unpack_abs, unpack_abs, compare_abs hx hy, Option.any_some,
    ← compare_le_iff_le, Ordering.isLE_iff_ne_gt]

/-! ## Products -/

theorem magnitude_mul_infinity (hx : IsNarrow x s a) (ha : a ≠ 0)
    (hy : y.toModel.unpack = .infinity t) : magnitude (x * y) = ⊤ := by
  have hmodel {u : UnpackedFloat} (hu : Denotes .binary32 u s a) :
      (Float32.Model.pack (u.mul .binary32 (.infinity t))).unpack = .infinity (s * t) := by
    cases hu with
    | zero => exact absurd rfl ha
    | finite => exact unpack_packedInfinity
  rw [← hy] at hmodel
  exact magnitude_of_infinity (hmodel hx)

end Number
end WaveMill
