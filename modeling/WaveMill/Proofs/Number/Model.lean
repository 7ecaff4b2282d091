import WaveMill.Proofs.Number.Exact
import WaveMill.Proofs.Number.Rounding

/-!
# The arithmetic of the model rounds the exact result

Core computes with a mantissa and an exponent and shifts bits out, of which it keeps two: the first
one, and whether any later one was set.  This file shows that the outcome is the exact result,
rounded as in `Number.rounded`.  The argument follows a rational number through the algorithm: the
mantissa and its two bits determine the number as far as rounding is concerned, every shift keeps
that up, and in the end the two bits tell on which side of the midpoint the number lies.

The order of the model compares exponents before mantissas.  That is the order of the numbers, since
a larger exponent is only given to a mantissa of full length.

## What is here

* `Number.Approximates` — what a mantissa with its two bits says about a number.
* `Number.Denotes` — a model value is the canonical form of a number, given by sign and magnitude.
* `Number.denotes_roundWithAccuracy` — rounding, the one theorem about the shifts.
* `Number.signed` — the number with a sign and a magnitude.
* `Number.denotes_mul`, `Number.denotes_div`, `Number.denotes_add`, `Number.denotes_sub`,
  `Number.denotes_ofNat` — the operations.
* `Number.compare_denotes` — the order.
-/

set_option autoImplicit false
namespace WaveMill
namespace Number

open Float.Model (Format UnpackedFloat totalExponent)
open Float.Model.UnpackedFloat

/-! ## What is kept of the bits that are shifted out -/

/-- A number begins with the mantissa and the round bit, and there is more to come exactly if the
sticky bit is set. -/
def Approximates (em : ExtendedMantissa) (x : ℚ) : Prop :=
  ∃ rest : ℚ, 0 ≤ rest ∧ rest < 1 / 2 ∧ (em.stickyBit = true ↔ 0 < rest) ∧
    x = em.mantissa + (if em.roundBit then 1 / 2 else 0) + rest

namespace Approximates

variable {em : ExtendedMantissa} {x : ℚ}

theorem exact (m : ℕ) : Approximates (.ofMantissaAndAccuracy m .exact) m :=
  ⟨0, le_rfl, by norm_num, by simp [ExtendedMantissa.ofMantissaAndAccuracy],
    by simp [ExtendedMantissa.ofMantissaAndAccuracy]⟩

/-- A whole number and a proper fraction, with the side of one half on which the fraction is. -/
theorem inexact (m : ℕ) {r : ℚ} (hpos : 0 < r) (hone : r < 1) :
    Approximates (.ofMantissaAndAccuracy m (.inexact (compare r (1 / 2)))) (m + r) := by
  rcases lt_trichotomy r (1 / 2) with hlt | rfl | hgt
  · rw [compare_lt_iff_lt.2 hlt]
    exact ⟨r, hpos.le, hlt, by simpa [ExtendedMantissa.ofMantissaAndAccuracy] using hpos,
      by simp [ExtendedMantissa.ofMantissaAndAccuracy]⟩
  · rw [compare_eq_iff_eq.2 rfl]
    exact ⟨0, le_rfl, by norm_num, by simp [ExtendedMantissa.ofMantissaAndAccuracy],
      by simp [ExtendedMantissa.ofMantissaAndAccuracy]⟩
  · rw [compare_gt_iff_gt.2 hgt]
    exact ⟨r - 1 / 2, by linarith, by linarith,
      by simpa [ExtendedMantissa.ofMantissaAndAccuracy] using hgt,
      by simp [ExtendedMantissa.ofMantissaAndAccuracy]⟩

/-- Twice the remainder is compared with the divisor. -/
theorem compare_remainder (r : ℕ) {d : ℕ} (hd : 0 < d) :
    compare (2 * r) d = compare (r / d : ℚ) (1 / 2) := by
  have hpos : (0 : ℚ) < d := by exact_mod_cast hd
  rcases lt_trichotomy (2 * r) d with hlt | heq | hgt
  · rw [compare_lt_iff_lt.2 hlt, compare_lt_iff_lt.2]
    rw [div_lt_div_iff₀ hpos two_pos, one_mul, mul_comm]
    exact_mod_cast hlt
  · rw [compare_eq_iff_eq.2 heq, compare_eq_iff_eq.2]
    rw [div_eq_div_iff hpos.ne' two_ne_zero, one_mul, mul_comm]
    exact_mod_cast heq
  · rw [compare_gt_iff_gt.2 hgt, compare_gt_iff_gt.2]
    rw [div_lt_div_iff₀ two_pos hpos, one_mul, mul_comm]
    exact_mod_cast hgt

/-- A quotient of natural numbers, with what the remainder says about it. -/
theorem quotient (m : ℕ) {d : ℕ} (hd : 0 < d) :
    Approximates (.ofMantissaAndAccuracy (m / d) (accuracyOfFraction (m % d) d)) (m / d) := by
  have hpos : (0 : ℚ) < d := by exact_mod_cast hd
  have hsum : (m : ℚ) = d * (m / d : ℕ) + (m % d : ℕ) := by
    exact_mod_cast (Nat.div_add_mod m d).symm
  have hsplit : (m / d : ℚ) = (m / d : ℕ) + (m % d : ℕ) / d := by
    conv_lhs => rw [hsum, add_div, mul_div_cancel_left₀ _ hpos.ne']
  rw [hsplit, accuracyOfFraction]
  split
  case isTrue hzero =>
    rw [hzero]
    simpa using exact (m / d)
  case isFalse hzero =>
    rw [compare_remainder _ hd]
    refine inexact _ (div_pos (by exact_mod_cast Nat.pos_of_ne_zero hzero) hpos) ?_
    exact (div_lt_one hpos).2 (by exact_mod_cast Nat.mod_lt m hd)

theorem shiftRightOne (h : Approximates em x) : Approximates em.shiftRightOne (x / 2) := by
  obtain ⟨rest, hnonneg, hless, hsticky, rfl⟩ := h
  have hmantissa : (em.mantissa : ℚ) = 2 * (em.mantissa / 2 : ℕ) + (em.mantissa % 2 : ℕ) := by
    exact_mod_cast (Nat.div_add_mod em.mantissa 2).symm
  refine ⟨(if em.roundBit then 1 / 4 else 0) + rest / 2, ?_, ?_, ?_, ?_⟩
  · split_ifs <;> linarith
  · split_ifs <;> linarith
  · cases hround : em.roundBit
    · simp [ExtendedMantissa.shiftRightOne, hround, hsticky]
    · simp [ExtendedMantissa.shiftRightOne, hround]
      linarith
  · rw [hmantissa]
    rcases Nat.mod_two_eq_zero_or_one em.mantissa with hbit | hbit <;>
      cases hround : em.roundBit <;>
        simp [ExtendedMantissa.shiftRightOne, hbit] <;> ring

theorem shiftRight (h : Approximates em x) (n : ℕ) : Approximates (em >>> n) (x / 2 ^ n) := by
  show Approximates (Nat.repeat ExtendedMantissa.shiftRightOne n em) _
  induction n with
  | zero => simpa [Nat.repeat] using h
  | succ n ih =>
    rw [Nat.repeat, pow_succ, ← div_div]
    exact ih.shiftRightOne

theorem floor_eq (h : Approximates em x) : ⌊x⌋₊ = em.mantissa := by
  obtain ⟨rest, hnonneg, hless, -, rfl⟩ := h
  rw [Nat.floor_eq_iff (by split_ifs <;> positivity)]
  constructor <;> split_ifs <;> linarith

/-- The two bits are all that is needed for rounding. -/
theorem roundedMantissa_eq (h : Approximates em x) : em.roundedMantissa = nearestEven x := by
  have hfloor := h.floor_eq
  obtain ⟨rest, hnonneg, hless, hsticky, hx⟩ := h
  obtain ⟨m, roundBit, stickyBit⟩ := em
  have hrest : x - m = (if roundBit then 1 / 2 else 0) + rest := by
    rw [hx]
    ring
  rw [nearestEven, hfloor, hrest]
  cases roundBit <;> cases stickyBit
  · obtain rfl : rest = 0 := le_antisymm (not_lt.1 (by simpa using hsticky)) hnonneg
    rw [if_pos (by norm_num)]
    rfl
  · rw [if_pos (by simpa using hless)]
    rfl
  · obtain rfl : rest = 0 := le_antisymm (not_lt.1 (by simpa using hsticky)) hnonneg
    rw [if_neg (by norm_num), if_neg (by norm_num)]
    rfl
  · have hpos : 0 < rest := hsticky.1 rfl
    rw [if_neg (by simpa using hpos.le), if_pos (by simpa using hpos)]
    rfl

end Approximates

/-! ## Canonical forms -/

section Format

variable {S : Format} {u v : UnpackedFloat} {s t : Sign} {m n : ℕ} {e f : ℤ} {x a b : ℚ}

/-- A model value is the canonical form of the number of the given sign and magnitude. -/
inductive Denotes (S : Format) : UnpackedFloat → Sign → ℚ → Prop
  | zero (s : Sign) : Denotes S (.zero s) s 0
  | finite (s : Sign) {m : ℕ} {e : ℤ} (hm : 0 < m)
      (hcanonical : S.targetExponent (totalExponent m e) = e) :
      Denotes S (.finite s m e hm) s (m * 2 ^ e)

theorem canonical_iff :
    S.targetExponent (totalExponent m e) = e ↔
      m.log2 + 1 ≤ S.mantissaBits ∧ S.minExponent ≤ e ∧
        (m.log2 + 1 = S.mantissaBits ∨ e = S.minExponent) := by
  rw [Format.targetExponent, totalExponent]
  omega

/-- The leading bit of a number is that of its whole part on any grid. -/
theorem log_eq_of_floor (hx : 0 < x) (hfloor : ⌊x / 2 ^ e⌋₊ = m) (hm : m ≠ 0) :
    Int.log 2 x = m.log2 + e := by
  obtain ⟨hlow, hhigh⟩ := (Nat.log2_eq_iff hm).1 rfl
  obtain ⟨hle, hlt⟩ := (Nat.floor_eq_iff (by positivity)).1 hfloor
  have habove : (2 ^ (m.log2 + e) : ℚ) ≤ x := by
    rw [zpow_add₀ two_ne_zero, zpow_natCast, ← le_div_iff₀ (by positivity)]
    exact le_trans (by exact_mod_cast hlow) hle
  have hbelow : x < 2 ^ (m.log2 + 1 + e) := by
    rw [zpow_add₀ two_ne_zero, ← Nat.cast_add_one, zpow_natCast, ← div_lt_iff₀ (by positivity)]
    exact hlt.trans_le (by exact_mod_cast hhigh)
  have := (le_log_iff hx).2 habove
  have := (log_lt_iff hx).2 hbelow
  omega

theorem log_mul_zpow (hm : 0 < m) : Int.log 2 (m * 2 ^ e : ℚ) = m.log2 + e :=
  log_eq_of_floor (by positivity)
    (by rw [mul_div_cancel_right₀ _ (by positivity), Nat.floor_natCast]) hm.ne'

/-- A number is on the grid on which its canonical form puts it. -/
theorem place_mul_zpow (hm : 0 < m) :
    place S (m * 2 ^ e) = S.targetExponent (totalExponent m e) := by
  rw [place, log_mul_zpow hm, totalExponent]
  congr 1
  omega

theorem Denotes.nonneg (h : Denotes S u s a) : 0 ≤ a := by
  cases h with
  | zero => exact le_rfl
  | finite => positivity

theorem Denotes.representable (h : Denotes S u s a) : Representable S a := by
  cases h with
  | zero => simpa using representable_natCast (S := S) (Nat.zero_le _)
  | finite s hm hcanonical =>
    obtain ⟨hbits, hmin, -⟩ := canonical_iff.1 hcanonical
    exact ⟨_, _, (Nat.log2_lt hm.ne').1 hbits, hmin, rfl⟩

theorem Denotes.unique (h : Denotes S u s a) (h' : Denotes S u t b) : s = t ∧ a = b := by
  cases h <;> cases h' <;> exact ⟨rfl, rfl⟩

/-- A number has one canonical form. -/
theorem Denotes.form_eq (hu : Denotes S u s a) (hv : Denotes S v s a) : u = v := by
  cases hu with
  | zero =>
    generalize hzero : (0 : ℚ) = a at hv
    cases hv with
    | zero => rfl
    | finite _ hn _ => exact absurd hzero (by positivity)
  | @finite _ m e hm hcanonical =>
    generalize hsame : (m * 2 ^ e : ℚ) = a at hv
    cases hv with
    | zero => exact absurd hsame (by positivity)
    | @finite _ n f hn hcanonical' =>
      rw [← place_mul_zpow hm, hsame, place_mul_zpow hn, hcanonical'] at hcanonical
      subst hcanonical
      obtain rfl : m = n := by
        exact_mod_cast mul_right_cancel₀ (by positivity : (2 ^ f : ℚ) ≠ 0) hsame
      rfl

theorem Denotes.isFinite (h : Denotes S u s a) : u.isFinite = true := by cases h <;> rfl

/-! ## Rounding -/

theorem shiftToTargetExponent_eq {acc : Accuracy}
    (ht : S.targetExponent (totalExponent m e) = f) (he : e ≤ f) :
    shiftToTargetExponent S m e acc =
      (ExtendedMantissa.ofMantissaAndAccuracy m acc >>> (f - e).toNat, f) := by
  have hexponent : e + ((f - e).toNat : ℤ) = f := by omega
  simp only [shiftToTargetExponent, shiftToExponent, ht, hexponent]

/-- The first shift brings a number to its grid. -/
theorem targetExponent_of_approximates {acc : Accuracy} (hx : 0 < x)
    (happrox : Approximates (.ofMantissaAndAccuracy m acc) (x / 2 ^ e)) (he : e ≤ place S x) :
    S.targetExponent (totalExponent m e) = place S x := by
  have hfloor : ⌊x / 2 ^ e⌋₊ = m := by
    rw [happrox.floor_eq]
    cases acc with
    | exact => rfl
    | inexact side => cases side <;> rfl
  rcases Decidable.eq_or_ne m 0 with rfl | hm
  · -- The number is less than a unit of its grid, so that is the least grid there is.
    have hlog : Int.log 2 x < e := by
      rw [log_lt_iff hx, ← div_lt_one (by positivity)]
      exact Nat.floor_eq_zero.1 hfloor
    have hbits := mantissaBits_pos (S := S)
    rw [place, Format.targetExponent] at he ⊢
    rw [totalExponent, Format.targetExponent, Nat.log2_zero]
    omega
  · rw [place, log_eq_of_floor hx hfloor hm, totalExponent]
    congr 1
    omega

/-- A model value from a mantissa, which may be zero, and an exponent. -/
def ofParts (s : Sign) (m : ℕ) (e : ℤ) : UnpackedFloat :=
  if h : m = 0 then .zero s else .finite s m e (Nat.pos_of_ne_zero h)

theorem roundWithAccuracy_eq {acc : Accuracy} {em : ExtendedMantissa}
    (h : shiftToTargetExponent S m e acc = (em, f)) :
    roundWithAccuracy S s m e acc =
      ofParts s (shiftToTargetExponent S em.roundedMantissa f .exact).1.mantissa
        (shiftToTargetExponent S em.roundedMantissa f .exact).2 := by
  simp only [roundWithAccuracy, h, ofParts]

theorem denotes_ofParts (h : S.targetExponent (totalExponent m e) = e) :
    Denotes S (ofParts s m e) s (m * 2 ^ e) := by
  unfold ofParts
  split
  case isTrue hzero =>
    rw [hzero, Nat.cast_zero, zero_mul]
    exact .zero s
  case isFalse hne => exact .finite s _ h

/-- The second shift makes up for a mantissa that rounding has made too long. -/
theorem denotes_second (hm : m ≤ 2 ^ S.mantissaBits) (he : S.minExponent ≤ e)
    (hfull : e = S.minExponent ∨ 2 ^ (S.mantissaBits - 1) ≤ m) :
    Denotes S (ofParts s (shiftToTargetExponent S m e .exact).1.mantissa
      (shiftToTargetExponent S m e .exact).2) s (m * 2 ^ e) := by
  have hbits := mantissaBits_pos (S := S)
  rcases hm.lt_or_eq with hlt | rfl
  · rcases m.eq_zero_or_pos with rfl | hpos
    · have hzero : (shiftToTargetExponent S 0 e .exact).1.mantissa = 0 := by
        refine ((Approximates.exact 0).shiftRight _).floor_eq.symm.trans ?_
        simp
      rw [hzero, Nat.cast_zero, zero_mul]
      exact .zero s
    · have hcanonical : S.targetExponent (totalExponent m e) = e := by
        have hle := (Nat.log2_lt hpos.ne').2 hlt
        refine canonical_iff.2 ⟨hle, he, hfull.symm.imp_left fun h ↦ ?_⟩
        have := (Nat.le_log2 hpos.ne').2 h
        omega
      rw [shiftToTargetExponent_eq hcanonical le_rfl, sub_self]
      exact denotes_ofParts hcanonical
  · obtain ⟨p, hp⟩ : ∃ p, S.mantissaBits = p + 1 := ⟨_, (Nat.sub_add_cancel hbits).symm⟩
    have hhalf : 2 ^ S.mantissaBits = 2 ^ p <<< 1 := by
      rw [hp, pow_succ, Nat.shiftLeft_eq, pow_one]
    have hlog : (2 ^ p).log2 + 1 = S.mantissaBits := by rw [Nat.log2_two_pow, hp]
    have hvalue : ((2 ^ S.mantissaBits : ℕ) * 2 ^ e : ℚ) = (2 ^ p : ℕ) * 2 ^ (e + (1 : ℕ)) := by
      rw [hp, pow_succ, Nat.cast_one, zpow_add_one₀ two_ne_zero]
      push_cast
      ring
    rw [hvalue, hhalf, shiftToTargetExponent_shiftLeft hlog (by positivity) (by omega)]
    exact denotes_ofParts (canonical_iff.2 ⟨hlog.le, by omega, .inl hlog⟩)

/-- **Rounding in the model is rounding.**  What is left of a number when bits are shifted out is
enough to round it, if it was not yet on a coarser grid than its own. -/
theorem denotes_roundWithAccuracy {acc : Accuracy} (hx : 0 < x)
    (happrox : Approximates (.ofMantissaAndAccuracy m acc) (x / 2 ^ e)) (he : e ≤ place S x) :
    Denotes S (roundWithAccuracy S s m e acc) s (rounded S x) := by
  have hshifted := happrox.shiftRight (place S x - e).toNat
  have hpow : (2 ^ e * 2 ^ (place S x - e).toNat : ℚ) = 2 ^ place S x := by
    rw [← zpow_natCast, ← zpow_add₀ two_ne_zero]
    congr 1
    omega
  rw [div_div, hpow] at hshifted
  rw [roundWithAccuracy_eq (shiftToTargetExponent_eq (targetExponent_of_approximates hx happrox he)
    he), rounded, hshifted.roundedMantissa_eq]
  refine denotes_second (nearestEven_div_zpow_place_le hx) minExponent_le_place ?_
  rcases (minExponent_le_place (S := S) (x := x)).eq_or_lt with hleast | hless
  · exact .inl hleast.symm
  · -- Above the least grid the mantissa has full length, and rounding makes no mantissa shorter.
    have hbits := mantissaBits_pos (S := S)
    have hlow := zpow_le_of_lt_place hx hless
    have hexponent : place S x + S.mantissaBits - 1 = (S.mantissaBits - 1 : ℕ) + place S x := by
      omega
    rw [hexponent, zpow_add₀ two_ne_zero, zpow_natCast, ← le_div_iff₀ (by positivity)] at hlow
    refine .inr ((nearestEven_natCast _).symm.trans_le (nearestEven_mono ?_))
    exact_mod_cast hlow

/-! ## Signs -/

/-- The number with a sign and a magnitude. -/
def signed (s : Sign) (a : ℚ) : ℚ :=
  match s with
  | .negative => -a
  | .positive => a

@[simp]
theorem signed_negative : signed .negative a = -a := rfl

@[simp]
theorem signed_positive : signed .positive a = a := rfl

@[simp]
theorem signed_zero : signed s 0 = 0 := by cases s <;> simp

theorem signed_neg : signed (-s) a = -signed s a := by
  cases s
  · exact (neg_neg a).symm
  · rfl

theorem signed_natCast_mul (m : ℕ) (q : ℚ) : signed s (m * q) = (s.apply m : ℤ) * q := by
  cases s <;> simp [Sign.apply]

/-! ## The operations -/

theorem approximates_mul_zpow :
    Approximates (.ofMantissaAndAccuracy m .exact) (m * 2 ^ e / 2 ^ e) := by
  rw [mul_div_cancel_right₀ _ (by positivity)]
  exact .exact m

theorem Denotes.abs (h : Denotes S u s a) : Denotes S u.abs .positive a := by
  cases h with
  | zero => exact .zero _
  | finite s hm hcanonical => exact .finite _ hm hcanonical

theorem Denotes.neg (h : Denotes S u s a) : Denotes S u.neg (-s) a := by
  cases h with
  | zero => exact .zero _
  | finite s hm hcanonical => exact .finite _ hm hcanonical

theorem denotes_mul (hu : Denotes S u s a) (hv : Denotes S v t b) :
    Denotes S (u.mul S v) (s * t) (rounded S (a * b)) := by
  cases hu with
  | zero =>
    rw [zero_mul, rounded_zero]
    cases hv <;> exact .zero _
  | @finite _ m e hm hcanonical =>
    cases hv with
    | zero =>
      rw [mul_zero, rounded_zero]
      exact .zero _
    | @finite _ n f hn hcanonical' =>
      have hmn : 0 < m * n := Nat.mul_pos hm hn
      have hvalue : (m * 2 ^ e * (n * 2 ^ f) : ℚ) = (m * n : ℕ) * 2 ^ (e + f) := by
        rw [zpow_add₀ two_ne_zero]
        push_cast
        ring
      rw [hvalue]
      refine denotes_roundWithAccuracy (by positivity) approximates_mul_zpow ?_
      -- A full factor has enough bits for the product; if there is none, both are at the bottom.
      obtain ⟨-, hmin, hfull⟩ := canonical_iff.1 hcanonical
      obtain ⟨-, hmin', hfull'⟩ := canonical_iff.1 hcanonical'
      have hlog : m.log2 ≤ (m * n).log2 :=
        (Nat.le_log2 hmn.ne').2 ((Nat.log2_self_le hm.ne').trans (Nat.le_mul_of_pos_right m hn))
      have hlog' : n.log2 ≤ (m * n).log2 :=
        (Nat.le_log2 hmn.ne').2 ((Nat.log2_self_le hn.ne').trans (Nat.le_mul_of_pos_left n hm))
      have hzero := minExponent_le_zero (S := S)
      rw [place_mul_zpow hmn, Format.targetExponent, totalExponent]
      omega

theorem denotes_div (hu : Denotes S u s a) (hv : Denotes S v t b) (hb : b ≠ 0) :
    Denotes S (u.div S v) (s / t) (rounded S (a / b)) := by
  cases hv with
  | zero => exact absurd rfl hb
  | @finite _ n f hn hcanonical' =>
    cases hu with
    | zero =>
      rw [zero_div, rounded_zero]
      exact .zero _
    | @finite _ m e hm hcanonical =>
      set low := min (e - f) (S.targetExponent (totalExponent m e - totalExponent n f))
      have hscaled : (m * 2 ^ e / (n * 2 ^ f) / 2 ^ low : ℚ) =
          (m <<< (e - f - low).toNat : ℕ) / n := by
        have hshift : e = (e - f - low).toNat + (f + low) := by omega
        rw [Nat.shiftLeft_eq]
        conv_lhs => rw [hshift, zpow_add₀ two_ne_zero, zpow_add₀ two_ne_zero, zpow_natCast]
        push_cast
        field_simp
      refine denotes_roundWithAccuracy (by positivity) ?_ ?_
      · rw [hscaled]
        exact .quotient _ hn
      · -- The quotient has at least as many places as the numbers of places differ by.
        have hle : m.log2 + e - (n.log2 + f) - 1 ≤ Int.log 2 (m * 2 ^ e / (n * 2 ^ f) : ℚ) := by
          rw [le_log_iff (by positivity), le_div_iff₀ (by positivity)]
          have hnum := (le_log_iff (by positivity)).1 (log_mul_zpow (e := e) hm).ge
          have hden := (log_lt_iff (by positivity)).1
            ((log_mul_zpow (e := f) hn).trans_lt (lt_add_one _))
          refine le_trans (mul_le_mul_of_nonneg_left hden.le (by positivity)) ?_
          rw [← zpow_add₀ two_ne_zero]
          exact le_trans (le_of_eq (congrArg _ (by ring))) hnum
        refine (min_le_right _ _).trans ?_
        rw [place, Format.targetExponent, Format.targetExponent, totalExponent, totalExponent]
        omega

theorem denotes_round (hm : 0 < m) :
    Denotes S (UnpackedFloat.round S s m e) s (rounded S (m * 2 ^ e)) := by
  obtain ⟨low, hlow⟩ : ∃ low, e - ((e - S.targetExponent (totalExponent m e)).toNat : ℤ) = low :=
    ⟨_, rfl⟩
  have hshift : (e - S.targetExponent (totalExponent m e)).toNat = (e - low).toNat := by omega
  have hexponent : e - ((e - low).toNat : ℤ) = low := by omega
  have hround : UnpackedFloat.round S s m e =
      roundWithAccuracy S s (m <<< (e - low).toNat) low .exact := by
    simp only [UnpackedFloat.round, decreaseExponent, hshift, hexponent]
  have hplace : low ≤ place S (m * 2 ^ e) := by
    rw [place_mul_zpow hm]
    omega
  rw [mul_zpow_eq_shiftLeft (show low ≤ e by omega)] at hplace ⊢
  rw [hround]
  have hpos : 0 < m <<< (e - low).toNat := by
    rw [Nat.shiftLeft_eq]
    positivity
  exact denotes_roundWithAccuracy (by positivity) approximates_mul_zpow hplace

theorem denotes_normalize :
    Denotes S (UnpackedFloat.normalize S m e .positive) .positive (rounded S (m * 2 ^ e)) := by
  rcases m.eq_zero_or_pos with rfl | hm
  · have hzero : ((0 : ℕ) * 2 ^ e : ℚ) = 0 := by simp
    rw [hzero, rounded_zero]
    exact .zero _
  · have hcompare : compare (m : ℤ) 0 = .gt := compare_gt_iff_gt.2 (by omega)
    rw [UnpackedFloat.normalize, hcompare]
    exact denotes_round hm

/-- A sum that is not negative, of which one number is positive. -/
theorem denotes_add (hu : Denotes S u s a) (hv : Denotes S v .positive b) (hb : 0 < b)
    (h : 0 ≤ signed s a + b) :
    Denotes S (u.add S v) .positive (rounded S (signed s a + b)) := by
  cases hv with
  | zero => exact absurd hb (lt_irrefl 0)
  | @finite _ n f hn hcanonical' =>
    cases hu with
    | zero =>
      have hexact := (Denotes.finite .positive hn hcanonical').representable
      rw [signed_zero, zero_add, rounded_of_representable hexact]
      exact .finite .positive hn hcanonical'
    | @finite _ m e hm hcanonical =>
      -- Both numbers are on the grid of the smaller exponent, where they are integers.
      obtain ⟨k, hk⟩ : ∃ k, k = m <<< (e - min e f).toNat := ⟨_, rfl⟩
      obtain ⟨l, hl⟩ : ∃ l, l = n <<< (f - min e f).toNat := ⟨_, rfl⟩
      have hsum : UnpackedFloat.add S (.finite s m e hm) (.finite .positive n f hn) =
          UnpackedFloat.normalize S (s.apply k + l) (min e f) .positive := by
        rw [hk, hl]
        rfl
      have hvalue : signed s (m * 2 ^ e) + n * 2 ^ f = (s.apply k + l : ℤ) * 2 ^ min e f := by
        rw [mul_zpow_eq_shiftLeft (min_le_left e f), mul_zpow_eq_shiftLeft (min_le_right e f), ← hk,
          ← hl, signed_natCast_mul, Int.cast_add, Int.cast_natCast, add_mul]
      rw [hvalue] at h ⊢
      have hnonneg : (0 : ℚ) ≤ (s.apply k + l : ℤ) :=
        nonneg_of_mul_nonneg_left h (by positivity)
      obtain ⟨d, hd⟩ := Int.eq_ofNat_of_zero_le (by exact_mod_cast hnonneg)
      rw [hsum, hd, Int.cast_natCast]
      exact denotes_normalize

/-- A difference that is not negative, of numbers that are not. -/
theorem denotes_sub (hu : Denotes S u .positive a) (hv : Denotes S v .positive b) (h : b ≤ a) :
    Denotes S (u.sub S v) .positive (rounded S (a - b)) := by
  cases hv with
  | zero =>
    rw [sub_zero, rounded_of_representable hu.representable]
    cases hu with
    | zero => exact .zero _
    | finite s hm hcanonical => exact .finite _ hm hcanonical
  | @finite _ n f hn hcanonical' =>
    cases hu with
    | zero => exact absurd h (not_le.2 (by positivity))
    | @finite _ m e hm hcanonical =>
      set low := min e f
      rw [mul_zpow_eq_shiftLeft (min_le_left e f), mul_zpow_eq_shiftLeft (min_le_right e f)] at h ⊢
      have hle : n <<< (f - low).toNat ≤ m <<< (e - low).toNat := by
        exact_mod_cast le_of_mul_le_mul_right h (show (0 : ℚ) < 2 ^ low by positivity)
      obtain ⟨d, hd⟩ := Nat.exists_eq_add_of_le hle
      have hdifference : UnpackedFloat.sub S (.finite .positive m e hm) (.finite .positive n f hn) =
          UnpackedFloat.normalize S d low .positive := by
        have hcast : ((m <<< (e - low).toNat : ℕ) : ℤ) - (n <<< (f - low).toNat : ℕ) = d := by omega
        exact congrArg (UnpackedFloat.normalize S · low .positive) hcast
      rw [hdifference, hd, Nat.cast_add, ← sub_mul, add_sub_cancel_left]
      exact denotes_normalize

theorem denotes_ofNat (n : ℕ) : Denotes S (UnpackedFloat.ofNat S n) .positive (rounded S n) := by
  have h := denotes_normalize (S := S) (m := n) (e := 0)
  rwa [zpow_zero, mul_one] at h

/-! ## The order -/

/-- Canonical forms are compared by their exponents first. -/
theorem compare_canonical (hm : 0 < m) (hn : 0 < n)
    (hcanonical : S.targetExponent (totalExponent m e) = e)
    (hcanonical' : S.targetExponent (totalExponent n f) = f) :
    (compare e f).then (compare m n) = compare (m * 2 ^ e : ℚ) (n * 2 ^ f) := by
  have hfiner {m n : ℕ} {e f : ℤ} (hm : 0 < m) (hn : 0 < n)
      (hcanonical : S.targetExponent (totalExponent m e) = e)
      (hcanonical' : S.targetExponent (totalExponent n f) = f) (h : e < f) :
      (m * 2 ^ e : ℚ) < n * 2 ^ f := by
    rw [← place_mul_zpow hm] at hcanonical
    rw [← place_mul_zpow hn] at hcanonical'
    refine not_le.1 fun hle ↦ ?_
    have := place_mono (S := S) (by positivity) hle
    omega
  rcases lt_trichotomy e f with hlt | rfl | hgt
  · rw [compare_lt_iff_lt.2 hlt, compare_lt_iff_lt.2 (hfiner hm hn hcanonical hcanonical' hlt)]
    rfl
  · rw [compare_eq_iff_eq.2 rfl, Ordering.eq_then]
    have hpow : (0 : ℚ) < 2 ^ e := by positivity
    rcases lt_trichotomy m n with hlt | rfl | hgt
    · rw [compare_lt_iff_lt.2 hlt, compare_lt_iff_lt.2]
      gcongr
    · rw [compare_eq_iff_eq.2 rfl, compare_eq_iff_eq.2 rfl]
    · rw [compare_gt_iff_gt.2 hgt, compare_gt_iff_gt.2]
      gcongr
  · rw [compare_gt_iff_gt.2 hgt, compare_gt_iff_gt.2 (hfiner hn hm hcanonical' hcanonical hgt)]
    rfl

theorem compare_neg (x y : ℚ) : compare (-x) (-y) = (compare x y).swap := by
  rcases lt_trichotomy x y with hlt | rfl | hgt
  · rw [compare_lt_iff_lt.2 hlt, compare_gt_iff_gt.2 (neg_lt_neg hlt)]
    rfl
  · rw [compare_eq_iff_eq.2 rfl, compare_eq_iff_eq.2 rfl]
    rfl
  · rw [compare_gt_iff_gt.2 hgt, compare_lt_iff_lt.2 (neg_lt_neg hgt)]
    rfl

/-- **The order of the model is the order of the numbers.** -/
theorem compare_denotes (hu : Denotes S u s a) (hv : Denotes S v t b) :
    u.compare v = some (compare (signed s a) (signed t b)) := by
  cases hu with
  | zero =>
    cases hv with
    | zero =>
      rw [signed_zero, signed_zero, compare_eq_iff_eq.2 rfl]
      rfl
    | @finite _ n f hn hcanonical' =>
      have hpos : (0 : ℚ) < n * 2 ^ f := by positivity
      rw [signed_zero]
      cases t with
      | negative =>
        rw [signed_negative, compare_gt_iff_gt.2 (neg_neg_of_pos hpos)]
        rfl
      | positive =>
        rw [signed_positive, compare_lt_iff_lt.2 hpos]
        rfl
  | @finite _ m e hm hcanonical =>
    have hpos : (0 : ℚ) < m * 2 ^ e := by positivity
    cases hv with
    | zero =>
      rw [signed_zero]
      cases s with
      | negative =>
        rw [signed_negative, compare_lt_iff_lt.2 (neg_neg_of_pos hpos)]
        rfl
      | positive =>
        rw [signed_positive, compare_gt_iff_gt.2 hpos]
        rfl
    | @finite _ n f hn hcanonical' =>
      have hpos' : (0 : ℚ) < n * 2 ^ f := by positivity
      have hsame := compare_canonical hm hn hcanonical hcanonical'
      cases s <;> cases t
      · rw [signed_negative, signed_negative, compare_neg, ← hsame]
        rfl
      · rw [signed_negative, signed_positive,
          compare_lt_iff_lt.2 ((neg_neg_of_pos hpos).trans hpos')]
        rfl
      · rw [signed_positive, signed_negative,
          compare_gt_iff_gt.2 ((neg_neg_of_pos hpos').trans hpos)]
        rfl
      · rw [signed_positive, signed_positive, ← hsame]
        rfl

end Format
end Number
end WaveMill
