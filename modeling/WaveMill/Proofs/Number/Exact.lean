import Mathlib
import WaveMill.Number.Convert

/-!
# Numbers that are kept exactly

Rounding leaves a number alone if its mantissa fits.  So the integers that fit are converted to
samples without a loss, and dividing such a sample by a power of two only moves its exponent.  Both
are shown by following one number, a mantissa of full length and an exponent, through the model of
the arithmetic in core: the shifts that bring a mantissa to full length, the two rounding steps, and
the fields into which a result is packed.

## What is here

* `Number.value?` — the rational number that a sample is.
* `Number.roundWithAccuracy_shiftLeft` — rounding undoes a shift of a full mantissa and nothing
  else.
* `Number.unpack_pack` — a number with a full mantissa is read back from its fields.
* `Number.value?_ofInt32_div` — integers below `2 ^ 24` divided by a power of two.
-/

set_option autoImplicit false
namespace WaveMill
namespace Number

open Float.Model (Format UnpackedFloat totalExponent)
open Float.Model.UnpackedFloat

/-- The rational number that a sample is, if it is one.  Both zeros are zero. -/
def value? (x : Float32) : Option ℚ :=
  match x.toModel.unpack with
  | .zero _ => some 0
  | .finite sign mantissa exponent _ => some ((sign.apply mantissa : Int) * 2 ^ exponent)
  | _ => none

section Format

variable {S : Format} {sign : Sign} {m : Nat} {e : Int}

/-! ## Rounding -/

theorem shiftRight_shiftLeft (m n : Nat) :
    ExtendedMantissa.ofMantissaAndAccuracy (m <<< n) .exact >>> n = ⟨m, false, false⟩ := by
  show Nat.repeat ExtendedMantissa.shiftRightOne n ⟨m <<< n, false, false⟩ = _
  induction n generalizing m with
  | zero => rfl
  | succ n ih =>
    rw [Nat.repeat, Nat.shiftLeft_succ_inside, ih]
    simp [ExtendedMantissa.shiftRightOne]

theorem log2_shiftLeft (hm : m ≠ 0) (n : Nat) : (m <<< n).log2 = m.log2 + n := by
  induction n with
  | zero => rfl
  | succ n ih =>
    have hne : m <<< n ≠ 0 := by simpa [Nat.shiftLeft_eq] using hm
    rw [Nat.shiftLeft_succ, Nat.log2_two_mul hne, ih, Nat.add_assoc]

/-- The exponent to which a full mantissa belongs is its own. -/
theorem targetExponent_of_full {n : Nat} (hfull : m.log2 + 1 = S.mantissaBits) (hm : m ≠ 0)
    (he : S.minExponent ≤ e + n) :
    S.targetExponent (totalExponent (m <<< n) e) = e + n := by
  rw [Format.targetExponent, totalExponent, log2_shiftLeft hm, ← hfull]
  omega

theorem shiftToTargetExponent_shiftLeft {n : Nat} (hfull : m.log2 + 1 = S.mantissaBits)
    (hm : m ≠ 0) (he : S.minExponent ≤ e + n) :
    shiftToTargetExponent S (m <<< n) e .exact = (⟨m, false, false⟩, e + n) := by
  have hshift : (e + n - e).toNat = n := by omega
  simp only [shiftToTargetExponent, shiftToExponent, targetExponent_of_full hfull hm he, hshift,
    shiftRight_shiftLeft]

/-- Rounding brings a full mantissa that was shifted to the left back to its place. -/
theorem roundWithAccuracy_shiftLeft {n : Nat} (hfull : m.log2 + 1 = S.mantissaBits)
    (hm : 0 < m) (he : S.minExponent ≤ e + n) :
    roundWithAccuracy S sign (m <<< n) e .exact = .finite sign m (e + n) hm := by
  have hfirst := shiftToTargetExponent_shiftLeft hfull hm.ne' he
  have hsecond : shiftToTargetExponent S m (e + n) .exact = (⟨m, false, false⟩, e + n) := by
    simpa using
      shiftToTargetExponent_shiftLeft (n := 0) (e := e + n) hfull hm.ne' (by simpa using he)
  have hrounded : ExtendedMantissa.roundedMantissa ⟨m, false, false⟩ = m := rfl
  simp only [roundWithAccuracy, hfirst, hrounded, hsecond, dif_neg hm.ne']

/-! ## Packing -/

theorem unpackSign_packComponents (exponent : BitVec S.exponentBits)
    (mantissa : BitVec S.mantissaBitsWithoutImplicit) :
    unpackSign (packComponents S sign exponent mantissa) = sign.toBitVec := by
  apply BitVec.eq_of_getLsbD_eq
  intro i hi
  obtain rfl : i = 0 := by omega
  simp [unpackSign, packComponents, BitVec.getLsbD_append, BitVec.getElem_append]

theorem ofBitVec_toBitVec : Sign.ofBitVec sign.toBitVec = sign := by cases sign <;> rfl

theorem toNat_one_append {k : Nat} (v : BitVec k) : (1#1 ++ v).toNat = 2 ^ k + v.toNat := by
  rw [BitVec.toNat_append, ← Nat.shiftLeft_add_eq_or_of_lt v.isLt, Nat.shiftLeft_eq]
  show 1 * 2 ^ k + v.toNat = _
  rw [Nat.one_mul]

/-- The leading one of a full mantissa is not stored, and comes back when it is read. -/
theorem toNat_implicit_append (hfull : m.log2 + 1 = S.mantissaBits) (hm : m ≠ 0) :
    (1#1 ++ BitVec.ofNat S.mantissaBitsWithoutImplicit m).toNat = m := by
  have hlog : m.log2 = S.mantissaBitsWithoutImplicit := by
    rw [Format.mantissaBits] at hfull
    omega
  obtain ⟨hlow, hhigh⟩ := (Nat.log2_eq_iff hm).1 hlog
  rw [Nat.pow_succ] at hhigh
  rw [toNat_one_append, BitVec.toNat_ofNat, Nat.mod_eq_sub_mod hlow, Nat.mod_eq_of_lt (by omega)]
  omega

/-- A number with a full mantissa is kept when it is packed, if its exponent fits its field. -/
theorem unpack_pack (biased : Nat) (hfull : m.log2 + 1 = S.mantissaBits) (hm : 0 < m)
    (hbiased : (biased : Int) = e + S.exponentBias + S.mantissaBitsWithoutImplicit)
    (hpos : 0 < biased) (hlt : biased + 1 < 2 ^ S.exponentBits) :
    UnpackedFloat.unpack S (UnpackedFloat.pack S (.finite sign m e hm)) =
      .finite sign m e hm := by
  have htoNat : (BitVec.ofNat S.exponentBits biased).toNat = biased := by
    rw [BitVec.toNat_ofNat, Nat.mod_eq_of_lt (by omega)]
  have hlow : BitVec.ofNat S.exponentBits biased ≠ 0#_ := by
    intro h
    have := congrArg BitVec.toNat h
    rw [htoNat, BitVec.toNat_zero] at this
    omega
  have hhigh : BitVec.ofNat S.exponentBits biased ≠ -1#_ := by
    intro h
    have := congrArg BitVec.toNat h
    rw [htoNat, BitVec.neg_one_eq_allOnes, BitVec.toNat_allOnes] at this
    omega
  have hpack : UnpackedFloat.pack S (.finite sign m e hm) =
      packComponents S sign (BitVec.ofNat _ biased) (BitVec.ofNat _ m) := by
    have hfield : (e + S.exponentBias + S.mantissaBitsWithoutImplicit).toNat = biased := by omega
    simp only [UnpackedFloat.pack, hfield]
    rw [if_neg (by omega), if_pos hfull]
  rw [hpack]
  simp only [UnpackedFloat.unpack, unpackExponent_packComponents, unpackMantissa_packComponents,
    unpackSign_packComponents, ofBitVec_toBitVec, if_neg hlow, if_neg hhigh, htoNat,
    toNat_implicit_append hfull hm.ne']
  congr 1
  omega

end Format

/-! ## Integers and their quotients -/

/-- The mantissa of full length of a natural number that has no more than 24 bits. -/
def fullMantissa (n : Nat) : Nat := n <<< (23 - n.log2)

theorem log2_fullMantissa {n : Nat} (hn : n ≠ 0) (hlt : n < 2 ^ 24) :
    (fullMantissa n).log2 + 1 = Format.binary32.mantissaBits := by
  have hlog : n.log2 < 24 := (Nat.log2_lt hn).2 hlt
  rw [fullMantissa, log2_shiftLeft hn, Format.mantissaBits]
  show _ = 1 + 23
  omega

theorem fullMantissa_pos {n : Nat} (hn : n ≠ 0) : 0 < fullMantissa n := by
  rw [fullMantissa, Nat.shiftLeft_eq]
  positivity

/-- A natural number of no more than 24 bits is not rounded. -/
theorem round_natural {n : Nat} {sign : Sign} (hn : n ≠ 0) (hlt : n < 2 ^ 24) :
    UnpackedFloat.round .binary32 sign n 0 =
      .finite sign (fullMantissa n) (n.log2 - 23) (fullMantissa_pos hn) := by
  have hlog : n.log2 < 24 := (Nat.log2_lt hn).2 hlt
  have htarget : Format.binary32.targetExponent (totalExponent n 0) = n.log2 - 23 := by
    show max ((n.log2 : Int) + 1 + 0 - 24) (-149) = _
    omega
  have hshift : ((0 : Int) - (n.log2 - 23)).toNat = 23 - n.log2 := by omega
  have hexponent : (0 : Int) - (23 - n.log2 : Nat) = n.log2 - 23 := by omega
  have hmin : Format.binary32.minExponent ≤ (n.log2 : Int) - 23 + (0 : Nat) := by
    show (-149 : Int) ≤ _
    omega
  have hround : roundWithAccuracy .binary32 sign (fullMantissa n <<< 0) (n.log2 - 23) .exact = _ :=
    roundWithAccuracy_shiftLeft (log2_fullMantissa hn hlt) (fullMantissa_pos hn) hmin
  simp only [UnpackedFloat.round, htarget, decreaseExponent, hshift, hexponent]
  simpa [fullMantissa] using hround

/-- A number with a full mantissa as a sample, if its exponent is not extreme. -/
theorem unpack_pack_full {n : Nat} {sign : Sign} {e : Int} (hn : n ≠ 0) (hlt : n < 2 ^ 24)
    (hlow : -100 ≤ e) (hhigh : e ≤ 100) :
    (Float32.Model.pack (.finite sign (fullMantissa n) e (fullMantissa_pos hn))).unpack =
      .finite sign (fullMantissa n) e (fullMantissa_pos hn) := by
  refine unpack_pack (e + 150).toNat (log2_fullMantissa hn hlt) _ ?_ ?_ ?_
  · show (((e + 150).toNat : Nat) : Int) = e + (127 : Nat) + (23 : Nat)
    omega
  · omega
  · show (e + 150).toNat + 1 < 256
    omega

/-- The sign of an integer. -/
def signOf (n : Int) : Sign := if n < 0 then .negative else .positive

theorem apply_signOf (n : Int) :
    (signOf n).apply (fullMantissa n.natAbs) = n * 2 ^ (23 - n.natAbs.log2) := by
  have habs : (signOf n).apply n.natAbs = n := by
    unfold signOf
    split
    · show -(n.natAbs : Int) = n
      omega
    · show (n.natAbs : Int) = n
      omega
  have hmul (s : Sign) (a b : Int) : s.apply (a * b) = s.apply a * b := by
    cases s
    · exact (Int.neg_mul a b).symm
    · rfl
  rw [fullMantissa, Nat.shiftLeft_eq, Nat.cast_mul, hmul, habs]
  norm_cast

/-- An integer of no more than 24 bits is converted without a loss. -/
theorem unpack_ofInt32 {n : Int} (hn : n.natAbs ≠ 0) (hlt : n.natAbs < 2 ^ 24) :
    (ofInt32 n).toModel.unpack = .finite (signOf n) (fullMantissa n.natAbs) (n.natAbs.log2 - 23)
      (fullMantissa_pos hn) := by
  have hlog : n.natAbs.log2 < 24 := (Nat.log2_lt hn).2 hlt
  have hround : UnpackedFloat.ofInt .binary32 n =
      UnpackedFloat.round .binary32 (signOf n) n.natAbs 0 := by
    rw [UnpackedFloat.ofInt, UnpackedFloat.normalize, signOf]
    rcases lt_or_gt_of_ne (Int.natAbs_ne_zero.1 hn) with h | h
    · rw [compare_lt_iff_lt.2 h, if_pos h]
      show UnpackedFloat.round _ _ (-n).toNat 0 = _
      congr 1
      omega
    · rw [compare_gt_iff_gt.2 h, if_neg (not_lt.2 h.le)]
      show UnpackedFloat.round _ _ n.toNat 0 = _
      congr 1
      omega
  show (Float32.Model.pack (UnpackedFloat.ofInt .binary32 n)).unpack = _
  rw [hround, round_natural hn hlt, unpack_pack_full hn hlt (by omega) (by omega)]

theorem unpack_pack_zero : (Float32.Model.pack (.zero .positive)).unpack = .zero .positive := rfl

theorem unpack_ofInt32_zero : (ofInt32 0).toModel.unpack = .zero .positive := rfl

theorem fullMantissa_twoPow {k : Nat} (hk : k ≤ 23) : fullMantissa (2 ^ k) = 2 ^ 23 := by
  rw [fullMantissa, Nat.log2_two_pow, Nat.shiftLeft_eq, ← Nat.pow_add]
  congr 1
  omega

/-- Dividing by a power of two lowers the exponent and changes nothing else. -/
theorem div_twoPow {m : Nat} {e d : Int} {sign : Sign} (hm : 0 < m)
    (hfull : m.log2 + 1 = Format.binary32.mantissaBits) (he : -100 ≤ e - d) :
    UnpackedFloat.div .binary32 (.finite sign m e hm) (.finite .positive (2 ^ 23) d (by decide)) =
      .finite sign m (e - d - 23) hm := by
  have hlog : m.log2 + 1 = 24 := hfull
  have hsign : sign / Sign.positive = sign := by cases sign <;> rfl
  have htarget : min (e - d) (Format.binary32.targetExponent
      (totalExponent m e - totalExponent (2 ^ 23) d)) = e - d - 24 := by
    rw [totalExponent, totalExponent, Nat.log2_two_pow]
    show min (e - d) (max ((m.log2 : Int) + 1 + e - ((23 : Nat) + 1 + d) - 24) (-149)) = _
    omega
  have hshift : (e - d - (e - d - 24)).toNat = 24 := by omega
  -- The quotient has one bit more than a mantissa, and that bit is zero.
  have hnum : m <<< 24 = m <<< 1 * 2 ^ 23 := by
    rw [Nat.shiftLeft_eq, Nat.shiftLeft_eq, Nat.mul_assoc, ← Nat.pow_add]
  have hquotient : m <<< 24 / 2 ^ 23 = m <<< 1 := by
    rw [hnum, Nat.mul_div_cancel _ (by decide)]
  have hremainder : m <<< 24 % 2 ^ 23 = 0 := by rw [hnum, Nat.mul_mod_left]
  have hcore : divCore .binary32 m e (2 ^ 23) d = (m <<< 1, e - d - 24, .exact) := by
    simp only [divCore, htarget, hshift, hquotient, hremainder, accuracyOfFraction, if_pos]
  have hmin : Format.binary32.minExponent ≤ e - d - 24 + (1 : Nat) := by
    show (-149 : Int) ≤ _
    omega
  have hplace : e - d - 24 + (1 : Nat) = e - d - 23 := by omega
  simp only [UnpackedFloat.div, hcore, hsign, roundWithAccuracy_shiftLeft hfull hm hmin, hplace]

/-- **An integer of no more than 24 bits divided by a power of two is the exact quotient.** -/
theorem value?_ofInt32_div {n : Int} {k : Nat} (hn : n.natAbs < 2 ^ 24) (hk : k ≤ 23) :
    value? (ofInt32 n / ofInt32 (2 ^ k : Nat)) = some (n / 2 ^ k : ℚ) := by
  have hpow : (2 ^ k : Nat) ≠ 0 := by positivity
  have hfit : (2 ^ k : Nat) < 2 ^ 24 := Nat.pow_lt_pow_right (by decide) (by omega)
  have hdivisor : (ofInt32 (2 ^ k : Nat)).toModel.unpack =
      .finite .positive (2 ^ 23) (k - 23) (by decide) := by
    have hnonneg : ¬ ((2 ^ k : Nat) : Int) < 0 := not_lt.2 (Int.natCast_nonneg _)
    have h := unpack_ofInt32 (n := (2 ^ k : Nat)) (by simp) (by simpa using hfit)
    simpa only [signOf, if_neg hnonneg, Int.natAbs_natCast, fullMantissa_twoPow hk,
      Nat.log2_two_pow] using h
  rcases Decidable.eq_or_ne n.natAbs 0 with hzero | hne
  · obtain rfl : n = 0 := by omega
    have hquotient : (ofInt32 0 / ofInt32 (2 ^ k : Nat)).toModel.unpack = .zero .positive := by
      show (Float32.Model.pack (UnpackedFloat.div .binary32 (ofInt32 0).toModel.unpack
        (ofInt32 (2 ^ k : Nat)).toModel.unpack)).unpack = _
      rw [hdivisor, unpack_ofInt32_zero]
      exact unpack_pack_zero
    rw [value?, hquotient]
    simp
  · have hlog : n.natAbs.log2 < 24 := (Nat.log2_lt hne).2 hn
    have hquotient : (ofInt32 n / ofInt32 (2 ^ k : Nat)).toModel.unpack =
        .finite (signOf n) (fullMantissa n.natAbs) (n.natAbs.log2 - 23 - (k - 23) - 23)
          (fullMantissa_pos hne) := by
      show (Float32.Model.pack (UnpackedFloat.div .binary32 (ofInt32 n).toModel.unpack
        (ofInt32 (2 ^ k : Nat)).toModel.unpack)).unpack = _
      rw [hdivisor, unpack_ofInt32 hne hn, div_twoPow _ (log2_fullMantissa hne hn) (by omega),
        unpack_pack_full hne hn (by omega) (by omega)]
    rw [value?, hquotient]
    simp only [apply_signOf, Option.some.injEq]
    have hexponent : (n.natAbs.log2 - 23 - (k - 23) - 23 : Int) =
        -((23 - n.natAbs.log2 : Nat) : Int) + -(k : Int) := by omega
    rw [hexponent, zpow_add₀ two_ne_zero, zpow_neg, zpow_neg, zpow_natCast, zpow_natCast]
    push_cast
    field_simp

end Number
end WaveMill
