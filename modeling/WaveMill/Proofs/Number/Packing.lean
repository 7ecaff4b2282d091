import WaveMill.Proofs.Number.Model

/-!
# Numbers in their fields

A number is stored as a word of three fields.  What the format can hold is read from the word as it
was packed into it, what is too large for the format is read as an infinity, and every word holds an
infinity, a number of the format, or what is not a number.

## What is here

* `Number.limit` — the least power of two that is too large.
* `Number.unpack_pack_of_lt`, `Number.unpack_pack_of_le` — a number that is packed and read again.
* `Number.unpack_cases` — what a word can hold.
-/

set_option autoImplicit false
namespace WaveMill
namespace Number

open Float.Model (Format UnpackedFloat totalExponent)
open Float.Model.UnpackedFloat

section Format

variable {S : Format} {u : UnpackedFloat} {s : Sign} {m : ℕ} {e : ℤ} {a : ℚ}

/-- The least power of two that is too large for the format. -/
def limit (S : Format) : ℚ := 2 ^ (S.exponentBias + 1)

theorem two_pow_exponentBits : 2 ^ S.exponentBits = 2 * (S.exponentBias + 1) := by
  obtain ⟨k, hk⟩ := Nat.exists_eq_add_of_lt S.he
  have hpos : 0 < 2 ^ k := by positivity
  rw [Format.exponentBias, hk, zero_add, Nat.add_sub_cancel, pow_succ]
  omega

theorem minExponent_eq :
    S.minExponent = 1 - S.exponentBias - S.mantissaBitsWithoutImplicit := by
  obtain ⟨k, hk⟩ := Nat.exists_eq_add_of_lt S.he
  have hpos : 0 < 2 ^ k := by positivity
  have hcast : ((2 ^ k : ℕ) : ℤ) = 2 ^ k := by norm_cast
  rw [Format.minExponent, Format.exponentBias, Format.mantissaBits, hk, zero_add,
    Nat.add_sub_cancel, ← hcast]
  omega

theorem mul_zpow_lt_limit_iff (hm : 0 < m) :
    (m * 2 ^ e : ℚ) < limit S ↔ m.log2 + e ≤ S.exponentBias := by
  rw [limit, ← zpow_natCast, ← log_lt_iff (by positivity), log_mul_zpow hm]
  omega

theorem neg_one_toNat : (-1#S.exponentBits).toNat + 1 = 2 ^ S.exponentBits := by
  rw [BitVec.neg_one_eq_allOnes, BitVec.toNat_allOnes]
  exact Nat.sub_add_cancel Nat.one_le_two_pow

theorem zero_ne_neg_one : (0#S.exponentBits) ≠ -1#_ := by
  intro h
  have hlast := neg_one_toNat (S := S)
  have hrange := two_pow_exponentBits (S := S)
  rw [← h, BitVec.toNat_zero] at hlast
  omega

theorem unpack_packedInfinity : UnpackedFloat.unpack S (packedInfinity S s) = .infinity s := by
  show UnpackedFloat.unpack S (packComponents S s (-1#_) 0#_) = _
  simp only [UnpackedFloat.unpack, unpackExponent_packComponents, unpackMantissa_packComponents,
    unpackSign_packComponents, ofBitVec_toBitVec, if_pos]

theorem unpack_packedZero : UnpackedFloat.unpack S (packedZero S s) = .zero s := by
  show UnpackedFloat.unpack S (packComponents S s 0#_ 0#_) = _
  simp only [UnpackedFloat.unpack, unpackExponent_packComponents, unpackMantissa_packComponents,
    unpackSign_packComponents, ofBitVec_toBitVec, if_neg zero_ne_neg_one, if_pos, dif_pos]

/-- A number with a mantissa that is not of full length is kept when it is packed. -/
theorem unpack_pack_subnormal (hS : 1 < S.exponentBits) (hm : 0 < m)
    (hshort : m.log2 + 1 < S.mantissaBits) :
    UnpackedFloat.unpack S (UnpackedFloat.pack S (.finite s m S.minExponent hm)) =
      .finite s m S.minExponent hm := by
  have hfield : (S.minExponent + S.exponentBias + S.mantissaBitsWithoutImplicit).toNat = 1 := by
    rw [minExponent_eq]
    omega
  have hrange : 2 ^ 2 ≤ 2 ^ S.exponentBits := Nat.pow_le_pow_right two_pos hS
  have hlt : m < 2 ^ S.mantissaBitsWithoutImplicit := by
    rw [← Nat.log2_lt hm.ne']
    rw [Format.mantissaBits] at hshort
    omega
  have htoNat : (BitVec.ofNat S.mantissaBitsWithoutImplicit m).toNat = m := by
    rw [BitVec.toNat_ofNat, Nat.mod_eq_of_lt hlt]
  have hne : BitVec.ofNat S.mantissaBitsWithoutImplicit m ≠ 0#_ := by
    intro h
    have := congrArg BitVec.toNat h
    rw [htoNat, BitVec.toNat_zero] at this
    omega
  have hpack : UnpackedFloat.pack S (.finite s m S.minExponent hm) =
      packComponents S s 0#_ (BitVec.ofNat _ m) := by
    simp only [UnpackedFloat.pack, hfield]
    rw [if_neg (by omega), if_neg hshort.ne]
  have hexponent : ((0 : ℕ) : ℤ) - (S.exponentBias + S.mantissaBitsWithoutImplicit) + 1 =
      S.minExponent := by
    rw [minExponent_eq]
    omega
  rw [hpack]
  simp only [UnpackedFloat.unpack, unpackExponent_packComponents, unpackMantissa_packComponents,
    unpackSign_packComponents, ofBitVec_toBitVec, if_neg zero_ne_neg_one, if_pos, dif_neg hne,
    htoNat, BitVec.toNat_zero, hexponent]

/-- **What the format can hold is read as it was packed.** -/
theorem unpack_pack_of_lt (hS : 1 < S.exponentBits) (h : Denotes S u s a) (ha : a < limit S) :
    UnpackedFloat.unpack S (UnpackedFloat.pack S u) = u := by
  cases h with
  | zero => exact unpack_packedZero
  | @finite _ m e hm hcanonical =>
    obtain ⟨hbits, hmin, hfull⟩ := canonical_iff.1 hcanonical
    rcases hbits.lt_or_eq with hlt | heq
    · obtain rfl : e = S.minExponent := hfull.resolve_left hlt.ne
      exact unpack_pack_subnormal hS hm hlt
    · rw [mul_zpow_lt_limit_iff hm] at ha
      rw [minExponent_eq] at hmin
      have hbits : S.mantissaBits = 1 + S.mantissaBitsWithoutImplicit := rfl
      have hrange := two_pow_exponentBits (S := S)
      exact unpack_pack (e + S.exponentBias + S.mantissaBitsWithoutImplicit).toNat heq hm
        (by omega) (by omega) (by omega)

/-- What the format cannot hold becomes an infinity. -/
theorem unpack_pack_of_le (h : Denotes S u s a) (ha : limit S ≤ a) :
    UnpackedFloat.unpack S (UnpackedFloat.pack S u) = .infinity s := by
  cases h with
  | zero => exact absurd ha (not_le.2 (by unfold limit; positivity))
  | @finite _ m e hm hcanonical =>
    have hlarge := not_le.1 (mt (mul_zpow_lt_limit_iff hm).2 (not_lt.2 ha))
    have hbits := (canonical_iff.1 hcanonical).1
    have hpack : UnpackedFloat.pack S (.finite s m e hm) = packedInfinity S s := by
      have hrange := two_pow_exponentBits (S := S)
      rw [Format.mantissaBits] at hbits
      simp only [UnpackedFloat.pack]
      rw [if_pos (by omega)]
    rw [hpack, unpack_packedInfinity]

theorem denotes_subnormal {M : BitVec S.mantissaBitsWithoutImplicit} (hM : 0 < M.toNat) :
    Denotes S (.finite s M.toNat S.minExponent hM) s (M.toNat * 2 ^ S.minExponent) ∧
      (M.toNat * 2 ^ S.minExponent : ℚ) < limit S := by
  have hlog := (Nat.log2_lt hM.ne').2 M.isLt
  have hbits : S.mantissaBits = 1 + S.mantissaBitsWithoutImplicit := rfl
  have hmin := minExponent_eq (S := S)
  exact ⟨.finite s hM (canonical_iff.2 ⟨by omega, le_rfl, .inr rfl⟩),
    (mul_zpow_lt_limit_iff hM).2 (by omega)⟩

theorem denotes_normal {E : BitVec S.exponentBits} {M : BitVec S.mantissaBitsWithoutImplicit}
    (hzero : E ≠ 0#_) (hones : E ≠ -1#_) (hM : 0 < (1#1 ++ M).toNat)
    (he : e = E.toNat - (S.exponentBias + S.mantissaBitsWithoutImplicit)) :
    Denotes S (.finite s (1#1 ++ M).toNat e hM) s ((1#1 ++ M).toNat * 2 ^ e) ∧
      ((1#1 ++ M).toNat * 2 ^ e : ℚ) < limit S := by
  have hlog : (1#1 ++ M).toNat.log2 = S.mantissaBitsWithoutImplicit := by
    have hless := M.isLt
    rw [toNat_one_append, Nat.log2_eq_iff (by positivity), pow_succ]
    omega
  have hbits : S.mantissaBits = 1 + S.mantissaBitsWithoutImplicit := rfl
  have hmin := minExponent_eq (S := S)
  have hrange := two_pow_exponentBits (S := S)
  have hlow : E.toNat ≠ 0 := fun h ↦ hzero (BitVec.eq_of_toNat_eq (h.trans BitVec.toNat_zero.symm))
  have hhigh : E.toNat ≠ (-1#S.exponentBits).toNat := fun h ↦ hones (BitVec.eq_of_toNat_eq h)
  have hlast := neg_one_toNat (S := S)
  have hless := E.isLt
  exact ⟨.finite s hM (canonical_iff.2 ⟨by omega, by omega, .inl (by omega)⟩),
    (mul_zpow_lt_limit_iff hM).2 (by omega)⟩

/-- Every word of the format is an infinity, not a number, or a number that the format can hold. -/
theorem unpack_cases (w : BitVec S.numBits) :
    (∃ s, UnpackedFloat.unpack S w = .infinity s) ∨ UnpackedFloat.unpack S w = .notANumber ∨
      ∃ s a, Denotes S (UnpackedFloat.unpack S w) s a ∧ a < limit S := by
  simp only [UnpackedFloat.unpack]
  split_ifs with hones hinfinite hzero hnone
  · exact .inl ⟨_, rfl⟩
  · exact .inr (.inl rfl)
  · exact .inr (.inr ⟨_, _, .zero _, by unfold limit; positivity⟩)
  · have hexponent : ((unpackExponent w).toNat : ℤ) -
        (S.exponentBias + S.mantissaBitsWithoutImplicit) + 1 = S.minExponent := by
      rw [hzero, BitVec.toNat_zero, minExponent_eq]
      omega
    simp only [hexponent]
    exact .inr (.inr ⟨_, _, denotes_subnormal _⟩)
  · exact .inr (.inr ⟨_, _, denotes_normal hzero hones _ rfl⟩)

end Format
end Number
end WaveMill
