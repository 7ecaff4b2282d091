import WaveMill.Proofs.Number.Packing
import WaveMill.Resample

/-!
# Samples and times as rational numbers

A `binary32` or `binary64` number that is finite is a sign and a magnitude, where the magnitude is a
rational number.  Here the operations that the program uses are said in these terms: products and
quotients are the exact ones, rounded, as long as they do not leave the range of the format; the
order is that of the rational numbers; and whole numbers are taken from a number as from any
rational number, below the largest word.

## What is here

* `Number.IsNarrow`, `Number.IsWide` — a finite number of either format, by sign and magnitude.
* `Number.exists_isNarrow` — every finite sample is one.
* `Number.value?_eq_zero_iff` — which samples are zero, with `Number.value?_zero_mul`,
  `Number.value?_zero_div` and `Number.value?_zero_add`, and `IsNarrow.value?_add_zero`.
* `IsNarrow.mul`, `IsNarrow.div`, `IsNarrow.add`, `IsNarrow.sub`, `IsWide.mul`, `IsWide.div` — the
  arithmetic, and `IsWide.mul_two_pow`, products that are not rounded.
* `IsNarrow.lt_iff`, `IsNarrow.le_iff` — the order.
* `IsNarrow.truncate16_eq`, `IsNarrow.toUInt8_eq`, `IsWide.ceiling_eq`, `IsWide.nearest_eq`,
  `IsWide.wholePart_eq` — whole numbers.
-/

set_option autoImplicit false
namespace WaveMill
namespace Number

open Float.Model (Format UnpackedFloat totalExponent)
open Float.Model.UnpackedFloat

/-! ## Samples -/

theorem lt_iff_compare {x y : Float32} :
    x < y ↔ x.toModel.unpack.compare y.toModel.unpack = some .lt :=
  decide_eq_true_iff.trans beq_iff_eq

theorem le_iff_compare {x y : Float32} :
    x ≤ y ↔ (x.toModel.unpack.compare y.toModel.unpack).any (·.isLE) = true :=
  decide_eq_true_iff

/-- The sample is the number of the sign and the magnitude. -/
def IsNarrow (x : Float32) (s : Sign) (a : ℚ) : Prop := Denotes .binary32 x.toModel.unpack s a

/-- A sample of finite size is a number in the range of the format. -/
theorem exists_isNarrow {x : Float32} (h : x.isFinite = true) :
    ∃ s a, IsNarrow x s a ∧ a < 2 ^ 128 := by
  rcases unpack_cases (S := .binary32) x.toModel.toBits.toBitVec with ⟨s, hs⟩ | hnan | hnumber
  · have : x.isFinite = UnpackedFloat.isFinite (.infinity s) := congrArg _ hs
    rw [this] at h
    cases h
  · have : x.isFinite = UnpackedFloat.isFinite .notANumber := congrArg _ hnan
    rw [this] at h
    cases h
  · exact hnumber

theorem isNarrow_pack {u : UnpackedFloat} {s : Sign} {a : ℚ} (h : Denotes .binary32 u s a)
    (ha : a < 2 ^ 128) : IsNarrow (.ofModel (.pack u)) s a := by
  have hkept : (Float32.Model.pack u).unpack = u := unpack_pack_of_lt (by decide) h ha
  rw [IsNarrow, hkept]
  exact h

namespace IsNarrow

variable {x y : Float32} {s t : Sign} {a b : ℚ}

theorem nonneg (h : IsNarrow x s a) : 0 ≤ a := Denotes.nonneg h

theorem representable (h : IsNarrow x s a) : Representable .binary32 a := Denotes.representable h

theorem isFinite (h : IsNarrow x s a) : x.isFinite = true := Denotes.isFinite h

theorem unique (h : IsNarrow x s a) (h' : IsNarrow x t b) : s = t ∧ a = b := Denotes.unique h h'

theorem lt_limit (h : IsNarrow x s a) : a < 2 ^ 128 := by
  obtain ⟨t, b, hx, hb⟩ := exists_isNarrow h.isFinite
  rwa [(h.unique hx).2]

theorem abs (h : IsNarrow x s a) : IsNarrow x.abs .positive a :=
  isNarrow_pack (Denotes.abs h) h.lt_limit

theorem neg (h : IsNarrow x s a) : IsNarrow (-x) (-s) a :=
  isNarrow_pack (Denotes.neg h) h.lt_limit

/-- A product that stays in the range of the format is the exact one, rounded. -/
theorem mul (hx : IsNarrow x s a) (hy : IsNarrow y t b)
    (h : rounded .binary32 (a * b) < 2 ^ 128) :
    IsNarrow (x * y) (s * t) (rounded .binary32 (a * b)) :=
  isNarrow_pack (denotes_mul hx hy) h

/-- A quotient that stays in the range of the format is the exact one, rounded. -/
theorem div (hx : IsNarrow x s a) (hy : IsNarrow y t b) (hb : b ≠ 0)
    (h : rounded .binary32 (a / b) < 2 ^ 128) :
    IsNarrow (x / y) (s / t) (rounded .binary32 (a / b)) :=
  isNarrow_pack (denotes_div hx hy hb) h

/-- A sum of which one number is positive, and that stays in the range and is not negative. -/
theorem add (hx : IsNarrow x s a) (hy : IsNarrow y .positive b) (hb : 0 < b)
    (h : 0 ≤ signed s a + b) (hlimit : rounded .binary32 (signed s a + b) < 2 ^ 128) :
    IsNarrow (x + y) .positive (rounded .binary32 (signed s a + b)) :=
  isNarrow_pack (denotes_add hx hy hb h) hlimit

/-- A difference of numbers that are not negative, and that is not negative either. -/
theorem sub (hx : IsNarrow x .positive a) (hy : IsNarrow y .positive b) (hle : b ≤ a)
    (h : rounded .binary32 (a - b) < 2 ^ 128) :
    IsNarrow (x - y) .positive (rounded .binary32 (a - b)) :=
  isNarrow_pack (denotes_sub hx hy hle) h

/-- A quotient that leaves the range of the format is infinite. -/
theorem unpack_div (hx : IsNarrow x s a) (hy : IsNarrow y t b) (hb : b ≠ 0)
    (h : 2 ^ 128 ≤ rounded .binary32 (a / b)) :
    (x / y).toModel.unpack = .infinity (s / t) :=
  unpack_pack_of_le (denotes_div hx hy hb) h

/-- A number times an infinity is not finite. -/
theorem isFinite_mul_infinity (hx : IsNarrow x s a) (hy : y.toModel.unpack = .infinity t) :
    (x * y).isFinite = false := by
  have hmodel {u : UnpackedFloat} (hu : Denotes .binary32 u s a) :
      (Float32.Model.pack (u.mul .binary32 (.infinity t))).unpack.isFinite = false := by
    cases hu with
    | zero =>
      show (Float32.Model.pack .notANumber).unpack.isFinite = false
      decide
    | finite s hm hcanonical => exact congrArg UnpackedFloat.isFinite unpack_packedInfinity
  rw [← hy] at hmodel
  exact hmodel hx

theorem lt_iff (hx : IsNarrow x s a) (hy : IsNarrow y t b) : x < y ↔ signed s a < signed t b := by
  rw [lt_iff_compare, compare_denotes hx hy, Option.some.injEq, compare_lt_iff_lt]

theorem le_iff (hx : IsNarrow x s a) (hy : IsNarrow y t b) : x ≤ y ↔ signed s a ≤ signed t b := by
  rw [le_iff_compare, compare_denotes hx hy, Option.any_some, ← compare_le_iff_le,
    Ordering.isLE_iff_ne_gt]

end IsNarrow

theorem isNarrow_zero : IsNarrow 0 .positive 0 := .zero _

theorem isNarrow_one : IsNarrow 1 .positive 1 := by
  have h : IsNarrow 1 .positive ((8388608 : ℕ) * 2 ^ (-23 : ℤ)) :=
    Denotes.finite .positive (by decide) (by decide)
  norm_num at h
  exact h

/-! ## The number that a sample is -/

section value?

variable {x y : Float32} {s t : Sign} {a b q : ℚ}

theorem IsNarrow.value?_eq (h : IsNarrow x s a) : value? x = some (signed s a) := by
  unfold IsNarrow at h
  unfold value?
  generalize x.toModel.unpack = u at h
  cases h with
  | zero => rw [signed_zero]
  | finite => rw [signed_natCast_mul]

theorem exists_isNarrow_of_value? (h : value? x = some q) :
    ∃ s a, IsNarrow x s a ∧ signed s a = q := by
  rcases unpack_cases (S := .binary32) x.toModel.toBits.toBitVec with ⟨s, hs⟩ | hnan | ⟨s, a, ha, -⟩
  · have hread : x.toModel.unpack = .infinity s := hs
    rw [value?, hread] at h
    cases h
  · have hread : x.toModel.unpack = .notANumber := hnan
    rw [value?, hread] at h
    cases h
  · have hnumber : IsNarrow x s a := ha
    exact ⟨s, a, hnumber, Option.some.inj (hnumber.value?_eq.symm.trans h)⟩

/-- Both zeros are the number zero, and no other sample is. -/
theorem value?_eq_zero_iff : value? x = some 0 ↔ ∃ s, IsNarrow x s 0 := by
  constructor
  · intro h
    obtain ⟨s, a, ha, hzero⟩ := exists_isNarrow_of_value? h
    obtain rfl : a = 0 := by
      cases s
      · exact neg_eq_zero.1 hzero
      · exact hzero
    exact ⟨s, ha⟩
  · rintro ⟨s, hs⟩
    rw [hs.value?_eq, signed_zero]

theorem value?_zero_mul (hx : value? x = some 0) (hy : IsNarrow y t b) :
    value? (x * y) = some 0 := by
  obtain ⟨s, hs⟩ := value?_eq_zero_iff.1 hx
  have hproduct : rounded .binary32 (0 * b) = 0 := by rw [zero_mul, rounded_zero]
  have h := hs.mul hy (by rw [hproduct]; norm_num)
  rw [hproduct] at h
  exact value?_eq_zero_iff.2 ⟨_, h⟩

theorem value?_zero_div (hx : value? x = some 0) (hy : IsNarrow y t b) (hb : b ≠ 0) :
    value? (x / y) = some 0 := by
  obtain ⟨s, hs⟩ := value?_eq_zero_iff.1 hx
  have hquotient : rounded .binary32 (0 / b) = 0 := by rw [zero_div, rounded_zero]
  have h := hs.div hy hb (by rw [hquotient]; norm_num)
  rw [hquotient] at h
  exact value?_eq_zero_iff.2 ⟨_, h⟩

theorem unpack_of_value?_eq_zero (h : value? x = some 0) : ∃ s, x.toModel.unpack = .zero s := by
  unfold value? at h
  cases hu : x.toModel.unpack with
  | zero s => exact ⟨s, rfl⟩
  | finite s m e hm =>
    simp only [hu, Option.some.injEq, ← signed_natCast_mul] at h
    have hpos : (0 : ℚ) < m * 2 ^ e := by positivity
    cases s
    · exact absurd (neg_eq_zero.1 h) hpos.ne'
    · exact absurd h hpos.ne'
  | infinity s => simp [hu] at h
  | notANumber => simp [hu] at h

theorem value?_zero_add (hx : value? x = some 0) (hy : value? y = some 0) :
    value? (x + y) = some 0 := by
  obtain ⟨s, hs⟩ := unpack_of_value?_eq_zero hx
  obtain ⟨t, ht⟩ := unpack_of_value?_eq_zero hy
  show value? (.ofModel (.pack (.add .binary32 x.toModel.unpack y.toModel.unpack))) = some 0
  rw [hs, ht]
  cases s <;> cases t <;> exact value?_eq_zero_iff.2 ⟨_, .zero _⟩

/-- A zero changes no number that it is added to. -/
theorem IsNarrow.value?_add_zero (hx : IsNarrow x s a) (hy : value? y = some 0) :
    value? (x + y) = some (signed s a) := by
  obtain ⟨t, ht⟩ := unpack_of_value?_eq_zero hy
  rcases eq_or_ne a 0 with rfl | hne
  · rw [signed_zero]
    exact value?_zero_add (value?_eq_zero_iff.2 ⟨s, hx⟩) hy
  · have hsum {u : UnpackedFloat} (hu : Denotes .binary32 u s a) :
        Denotes .binary32 (.add .binary32 u (.zero t)) s a := by
      cases hu with
      | zero => exact absurd rfl hne
      | finite s hm hcanonical => exact .finite s hm hcanonical
    have hadd : IsNarrow (.ofModel (.pack (.add .binary32 x.toModel.unpack (.zero t)))) s a :=
      isNarrow_pack (hsum hx) hx.lt_limit
    rw [← ht] at hadd
    exact IsNarrow.value?_eq hadd

end value?

/-! ## Times and ratios -/

/-- The `binary64` number is the number of the sign and the magnitude. -/
def IsWide (x : Float) (s : Sign) (a : ℚ) : Prop := Denotes .binary64 x.toModel.unpack s a

theorem isWide_pack {u : UnpackedFloat} {s : Sign} {a : ℚ} (h : Denotes .binary64 u s a)
    (ha : a < 2 ^ 1024) : IsWide (.ofModel (.pack u)) s a := by
  have hkept : (Float.Model.pack u).unpack = u := unpack_pack_of_lt (by decide) h ha
  rw [IsWide, hkept]
  exact h

/-- A number that is no larger than a power of two within the range stays in the range when it is
rounded. -/
theorem rounded_lt_limit {x : ℚ} {k : ℕ} (hx : 0 ≤ x) (hle : x ≤ 2 ^ k) (hk : k < 1024) :
    rounded .binary64 x < 2 ^ 1024 :=
  (rounded_le (representable_two_pow k) hx hle).trans_lt (pow_lt_pow_right₀ one_lt_two hk)

/-- A word of 64 bits is rounded. -/
theorem isWide_word (n : UInt64) : IsWide n.toFloat .positive (rounded .binary64 n.toNat) :=
  isWide_pack (denotes_ofNat n.toNat) <| rounded_lt_limit (k := 64) (Nat.cast_nonneg _)
    (by exact_mod_cast n.toNat_lt.le) (by norm_num)

/-- A natural number of no more than 53 bits is kept. -/
theorem isWide_natural {n : ℕ} (hn : n ≤ 2 ^ 53) :
    IsWide (.ofModel (.pack (.ofNat .binary64 n))) .positive n := by
  have hlimit : (n : ℚ) < 2 ^ 1024 :=
    lt_of_le_of_lt (by exact_mod_cast hn)
      (pow_lt_pow_right₀ one_lt_two (show 53 < 1024 by norm_num))
  have h := denotes_ofNat (S := .binary64) n
  rw [rounded_of_representable (representable_natCast hn)] at h
  exact isWide_pack h hlimit

theorem isWide_rate (rate : UInt32) : IsWide rate.toFloat .positive rate.toNat :=
  isWide_natural (rate.toNat_lt.le.trans (by decide))

theorem isWide_width (bytes : UInt16) : IsWide bytes.toFloat .positive bytes.toNat :=
  isWide_natural (bytes.toNat_lt.le.trans (by decide))

namespace IsWide

variable {x y : Float} {s t : Sign} {a b : ℚ}

theorem nonneg (h : IsWide x s a) : 0 ≤ a := Denotes.nonneg h

/-- A product that stays in the range of the format is the exact one, rounded. -/
theorem mul (hx : IsWide x s a) (hy : IsWide y t b)
    (h : rounded .binary64 (a * b) < 2 ^ 1024) :
    IsWide (x * y) (s * t) (rounded .binary64 (a * b)) :=
  isWide_pack (denotes_mul hx hy) h

/-- A product with a power of two that stays in the range of the format is exact. -/
theorem mul_two_pow {m k l : ℕ} (hm : m = 2 ^ k) (hx : IsWide x s a) (hy : IsWide y t m)
    (hle : a ≤ 2 ^ l) (hlimit : l + k < 1024) :
    IsWide (x * y) (s * t) (a * m) ∧ a * m ≤ 2 ^ (l + k) := by
  have hpow : (m : ℚ) = 2 ^ k := by exact_mod_cast hm
  have hproduct : a * m ≤ 2 ^ (l + k) := by
    rw [hpow, pow_add]
    exact mul_le_mul_of_nonneg_right hle (by positivity)
  have hexact : rounded .binary64 (a * m) = a * m := by
    rw [hpow]
    exact rounded_of_representable ((Denotes.representable hx).mul_two_pow k)
  have hlt : rounded .binary64 (a * m) < 2 ^ 1024 := by
    rw [hexact]
    exact hproduct.trans_lt (pow_lt_pow_right₀ one_lt_two hlimit)
  have hwide := hx.mul hy hlt
  rw [hexact] at hwide
  exact ⟨hwide, hproduct⟩

/-- A quotient that stays in the range of the format is the exact one, rounded. -/
theorem div (hx : IsWide x s a) (hy : IsWide y t b) (hb : b ≠ 0)
    (h : rounded .binary64 (a / b) < 2 ^ 1024) :
    IsWide (x / y) (s / t) (rounded .binary64 (a / b)) :=
  isWide_pack (denotes_div hx hy hb) h

/-- A difference of numbers that are not negative, and that is not negative either. -/
theorem sub (hx : IsWide x .positive a) (hy : IsWide y .positive b) (hle : b ≤ a)
    (h : rounded .binary64 (a - b) < 2 ^ 1024) :
    IsWide (x - y) .positive (rounded .binary64 (a - b)) :=
  isWide_pack (denotes_sub hx hy hle) h

/-- The sample that is nearest to a number in its range. -/
theorem narrow (hx : IsWide x s a) (h : rounded .binary32 a < 2 ^ 128) :
    IsNarrow (narrow x) s (rounded .binary32 a) := by
  have hmodel {u : UnpackedFloat} (hu : Denotes .binary64 u s a) :
      Denotes .binary32 (inFormat .binary32 u) s (rounded .binary32 a) := by
    cases hu with
    | zero =>
      rw [rounded_zero]
      exact .zero _
    | finite s hm hcanonical => exact denotes_round hm
  exact isNarrow_pack (hmodel hx) h

end IsWide

/-! ## Whole numbers -/

theorem mul_zpow_eq_div (m : ℕ) (e : ℤ) :
    (m * 2 ^ e : ℚ) = (m * 2 ^ e.toNat : ℕ) / (2 ^ (-e).toNat : ℕ) := by
  have hsplit : (2 ^ e : ℚ) = 2 ^ e.toNat / 2 ^ (-e).toNat := by
    rw [← zpow_natCast, ← zpow_natCast, ← zpow_sub₀ two_ne_zero]
    congr 1
    omega
  rw [hsplit]
  push_cast
  ring

theorem quotientUp_eq_ceil (num : ℕ) {den : ℕ} (h : 0 < den) :
    quotientUp num den = ⌈(num / den : ℚ)⌉₊ := by
  refine eq_of_forall_ge_iff fun n ↦ ?_
  rw [quotientUp_le_iff h, Nat.ceil_le, div_le_iff₀ (by exact_mod_cast h)]
  exact_mod_cast Iff.rfl

theorem quotientNearest_eq_floor (num : ℕ) {den : ℕ} (h : 0 < den) :
    quotientNearest num den = ⌊(num / den + 1 / 2 : ℚ)⌋₊ := by
  have hpos : (den : ℚ) ≠ 0 := by exact_mod_cast h.ne'
  have hsum : (num / den + 1 / 2 : ℚ) = (2 * num + den : ℕ) / (2 * den : ℕ) := by
    push_cast
    field_simp
  rw [hsum, Nat.floor_div_eq_div, quotientNearest]

theorem roundToInt_eq_floor (m : ℕ) (e : ℤ) :
    roundToInt .positive m e = ⌊(m * 2 ^ e : ℚ)⌋₊ := by
  have hshift : (0 - (e - ((e - 0).toNat : ℤ))).toNat = (-e).toNat := by omega
  have hkept := ((Approximates.exact (m <<< (e - 0).toNat)).shiftRight (-e).toNat).floor_eq
  rw [Nat.shiftLeft_eq, sub_zero] at hkept
  have hvalue : ((m * 2 ^ e.toNat : ℕ) / 2 ^ (-e).toNat : ℚ) = m * 2 ^ e := by
    rw [mul_zpow_eq_div]
    push_cast
    rfl
  rw [hvalue] at hkept
  simp only [roundToInt, decreaseExponent, shiftToExponent, hshift, Sign.apply]
  rw [Nat.shiftLeft_eq, sub_zero, ← hkept]

theorem roundToInt_eq_apply (s : Sign) (m : ℕ) (e : ℤ) :
    roundToInt s m e = s.apply ⌊(m * 2 ^ e : ℚ)⌋₊ := by
  rw [← roundToInt_eq_floor]
  cases s <;> rfl

namespace IsNarrow

variable {x : Float32} {s : Sign} {a : ℚ}

theorem toInt_eq (h : IsNarrow x s a) (low high : ℤ) :
    x.toModel.unpack.toInt low high = s.apply ⌊a⌋₊ := by
  unfold IsNarrow at h
  generalize x.toModel.unpack = u at h
  cases h with
  | zero => cases s <;> rfl
  | finite => exact roundToInt_eq_apply ..

/-- The whole part of a number that fits a signed word. -/
theorem truncate16_eq (h : IsNarrow x s a) (ha : a < 2 ^ 15) :
    (truncate16 x).toInt = s.apply ⌊a⌋₊ := by
  have hfloor : ⌊a⌋₊ < 2 ^ 15 := (Nat.floor_lt h.nonneg).2 (by exact_mod_cast ha)
  have hrange : -2 ^ 15 ≤ s.apply ⌊a⌋₊ ∧ s.apply ⌊a⌋₊ < 2 ^ 15 := by
    cases s
    · show -2 ^ 15 ≤ -(⌊a⌋₊ : ℤ) ∧ -(⌊a⌋₊ : ℤ) < 2 ^ 15
      omega
    · show -2 ^ 15 ≤ (⌊a⌋₊ : ℤ) ∧ (⌊a⌋₊ : ℤ) < 2 ^ 15
      omega
  show (Int16.ofIntClamp (x.toModel.unpack.toInt _ _)).toInt = _
  rw [h.toInt_eq]
  exact Int16.toInt_ofIntClamp hrange.1 (Int.le_of_lt_add_one hrange.2)

/-- The whole part of a number that is not negative and fits a byte. -/
theorem toUInt8_eq (h : IsNarrow x .positive a) (ha : a < 2 ^ 8) : x.toUInt8.toNat = ⌊a⌋₊ := by
  have hfloor : ⌊a⌋₊ < 2 ^ 8 := (Nat.floor_lt h.nonneg).2 (by exact_mod_cast ha)
  show (UInt8.ofNatClamp (x.toModel.unpack.toInt _ _).toNat).toNat = _
  rw [h.toInt_eq]
  exact UInt8.toNat_ofNatClamp_of_lt hfloor

end IsNarrow

theorem toNat_ofNatClamp (n : ℕ) : (UInt64.ofNatClamp n).toNat = min n maxWord := by
  have hsize : UInt64.size = maxWord + 1 := rfl
  unfold UInt64.ofNatClamp
  split
  case isTrue h =>
    rw [UInt64.toNat_ofNatLT]
    omega
  case isFalse h =>
    rw [UInt64.toNat_ofNatLT]
    omega

namespace IsWide

variable {x : Float} {a : ℚ}

/-- A way to round exact quotients rounds the number that a `binary64` number is. -/
theorem toNatBy_eq {round : ℕ → ℕ → ℕ} {f : ℚ → ℕ} (h : IsWide x .positive a)
    (hround : ∀ num den : ℕ, 0 < den → round num den = f (num / den)) (hzero : f 0 = 0) :
    toNatBy round x = min (f a) maxWord := by
  unfold toNatBy
  unfold IsWide at h
  generalize x.toModel.unpack = u at h
  cases h with
  | zero => rw [hzero, Nat.zero_min]
  | @finite _ m e hm hcanonical =>
    show min (round (m * 2 ^ e.toNat) (2 ^ (-e).toNat)) maxWord = _
    rw [hround _ _ (by positivity), ← mul_zpow_eq_div]

theorem ceiling_eq (h : IsWide x .positive a) : ceiling x = min ⌈a⌉₊ maxWord :=
  h.toNatBy_eq quotientUp_eq_ceil Nat.ceil_zero

theorem nearest_eq (h : IsWide x .positive a) : nearest x = min ⌊a + 1 / 2⌋₊ maxWord :=
  h.toNatBy_eq (f := fun a ↦ ⌊a + 1 / 2⌋₊) quotientNearest_eq_floor (by norm_num)

theorem wholePart_eq (h : IsWide x .positive a) : Resample.wholePart x = min ⌊a⌋₊ maxWord := by
  have hmodel {u : UnpackedFloat} (hu : Denotes .binary64 u .positive a) :
      u.toUInt64.toNat = min ⌊a⌋₊ maxWord := by
    cases hu with
    | zero => rfl
    | @finite _ m e hm hcanonical =>
      have htoInt : UnpackedFloat.toInt 0 (UInt64.size - 1) (.finite .positive m e hm) =
          ⌊(m * 2 ^ e : ℚ)⌋₊ := roundToInt_eq_floor m e
      rw [UnpackedFloat.toUInt64, htoInt, Int.toNat_natCast, toNat_ofNatClamp]
  exact hmodel h

end IsWide

end Number
end WaveMill
