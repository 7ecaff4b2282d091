import Mathlib

/-!
# Rounding to a format

The numbers of a format lie on grids: between two powers of two, all multiples of one power of two,
and below the least of these grids no finer one.  Rounding takes a number to the nearest point of
its grid, between two equally near points to the one with the even mantissa.  This is said here for
rational numbers that are not negative, in exact arithmetic and for any format, so that a result of
the arithmetic in core can be compared with the exact one by inequalities.

The two facts that everything else rests on are that rounding keeps the order, and that it leaves
alone what the format can represent.  Together they carry every representable bound of a number
over to the rounded number, also where the grid changes in between.

## What is here

* `Number.nearestEven` — the nearest natural number, halves to even.
* `Number.place`, `Number.rounded` — the exponent of the grid of a number, and the rounded number.
* `Number.Representable` and `Number.rounded_of_representable` — the numbers of a format.
* `Number.rounded_mono`, `Number.rounded_le`, `Number.le_rounded` — rounding and the order.
* `Number.unitRoundoff`, `Number.le_rounded_of_normal`, `Number.rounded_le_of_normal` — the relative
  error.
-/

set_option autoImplicit false
namespace WaveMill
namespace Number

open Float.Model (Format)

/-! ## The nearest natural number -/

section nearestEven

variable {x y : ℚ}

/-- The natural number nearest to `x`; between two equally near ones, the even one. -/
def nearestEven (x : ℚ) : ℕ :=
  if x - ⌊x⌋₊ < 1 / 2 then ⌊x⌋₊
  else if 1 / 2 < x - ⌊x⌋₊ then ⌊x⌋₊ + 1
  else ⌊x⌋₊ + ⌊x⌋₊ % 2

theorem floor_le_nearestEven : ⌊x⌋₊ ≤ nearestEven x := by
  unfold nearestEven
  split_ifs <;> omega

theorem nearestEven_le_floor : nearestEven x ≤ ⌊x⌋₊ + 1 := by
  unfold nearestEven
  split_ifs <;> omega

@[simp]
theorem nearestEven_natCast (n : ℕ) : nearestEven n = n := by
  rw [nearestEven, Nat.floor_natCast, sub_self, if_pos (by norm_num)]

theorem nearestEven_mono (h : x ≤ y) : nearestEven x ≤ nearestEven y := by
  rcases (Nat.floor_mono h).lt_or_eq with hlt | heq
  · exact nearestEven_le_floor.trans ((Nat.succ_le_of_lt hlt).trans floor_le_nearestEven)
  · -- Both have the same two neighbours, and `y` is not farther from the upper one than `x`.
    unfold nearestEven
    rw [heq]
    split_ifs <;> first | omega | linarith

theorem abs_nearestEven_sub_le (hx : 0 ≤ x) : |nearestEven x - x| ≤ 1 / 2 := by
  have hlow := Nat.floor_le hx
  have hhigh := Nat.lt_floor_add_one x
  unfold nearestEven
  rw [abs_le]
  split_ifs
  · constructor <;> linarith
  · push_cast
    constructor <;> linarith
  · rcases Nat.mod_two_eq_zero_or_one ⌊x⌋₊ with hmod | hmod <;>
      rw [hmod] <;> push_cast <;> constructor <;> linarith

end nearestEven

/-! ## The grid of a number -/

section Format

variable {S : Format} {x y : ℚ} {e : ℤ} {n : ℕ}

theorem le_log_iff (hx : 0 < x) : e ≤ Int.log 2 x ↔ 2 ^ e ≤ x := by
  exact_mod_cast (Int.zpow_le_iff_le_log one_lt_two hx).symm

theorem log_lt_iff (hx : 0 < x) : Int.log 2 x < e ↔ x < 2 ^ e := by
  exact_mod_cast (Int.lt_zpow_iff_log_lt one_lt_two hx).symm

theorem mantissaBits_pos : 0 < S.mantissaBits := by
  rw [Format.mantissaBits]
  omega

/-- The exponent of the grid of a number. -/
def place (S : Format) (x : ℚ) : ℤ := S.targetExponent (Int.log 2 x + 1)

theorem minExponent_le_place : S.minExponent ≤ place S x := le_max_right _ _

theorem place_le_iff (hx : 0 < x) :
    place S x ≤ e ↔ x < 2 ^ (e + S.mantissaBits) ∧ S.minExponent ≤ e := by
  rw [place, Format.targetExponent, max_le_iff, ← log_lt_iff hx]
  omega

theorem place_mono (hx : 0 < x) (h : x ≤ y) : place S x ≤ place S y :=
  (place_le_iff hx).2 ⟨h.trans_lt ((place_le_iff (hx.trans_le h)).1 le_rfl).1,
    minExponent_le_place⟩

/-- Above the least grid, a number has a mantissa of full length. -/
theorem zpow_le_of_lt_place (hx : 0 < x) (h : S.minExponent < place S x) :
    2 ^ (place S x + S.mantissaBits - 1) ≤ x := by
  rw [← le_log_iff hx]
  rw [place, Format.targetExponent] at h ⊢
  omega

/-- The number of the format that is nearest to `x`; between two equally near ones, the one with the
even mantissa. -/
def rounded (S : Format) (x : ℚ) : ℚ := nearestEven (x / 2 ^ place S x) * 2 ^ place S x

theorem rounded_nonneg : 0 ≤ rounded S x := by
  unfold rounded
  positivity

@[simp]
theorem rounded_zero : rounded S 0 = 0 := by
  have : nearestEven 0 = 0 := by simpa using nearestEven_natCast 0
  simp [rounded, this]

/-- A point of a grid is one of every finer grid. -/
theorem mul_zpow_eq_shiftLeft {f : ℤ} (h : f ≤ e) :
    (n * 2 ^ e : ℚ) = (n <<< (e - f).toNat : ℕ) * 2 ^ f := by
  have hsplit : e = (e - f).toNat + f := by omega
  conv_lhs => rw [hsplit, zpow_add₀ two_ne_zero, zpow_natCast]
  rw [Nat.shiftLeft_eq]
  push_cast
  ring

/-- A rounded number is on the same side as before of every point of a grid that is not finer. -/
theorem rounded_le_of_place_le (hx : x ≤ n * 2 ^ e) (h : place S x ≤ e) :
    rounded S x ≤ n * 2 ^ e := by
  rw [mul_zpow_eq_shiftLeft h, ← div_le_iff₀ (by positivity)] at hx
  rw [mul_zpow_eq_shiftLeft h, rounded]
  gcongr
  exact (nearestEven_mono hx).trans_eq (nearestEven_natCast _)

theorem le_rounded_of_place_le (hx : n * 2 ^ e ≤ x) (h : place S x ≤ e) :
    n * 2 ^ e ≤ rounded S x := by
  rw [mul_zpow_eq_shiftLeft h, ← le_div_iff₀ (by positivity)] at hx
  rw [mul_zpow_eq_shiftLeft h, rounded]
  gcongr
  exact (nearestEven_natCast _).symm.trans_le (nearestEven_mono hx)

/-! ## What a format can represent -/

/-- The numbers that are a mantissa and an exponent of the format. -/
def Representable (S : Format) (x : ℚ) : Prop :=
  ∃ (n : ℕ) (e : ℤ), n < 2 ^ S.mantissaBits ∧ S.minExponent ≤ e ∧ x = n * 2 ^ e

/-- What the format can represent is not rounded. -/
theorem rounded_of_representable (h : Representable S x) : rounded S x = x := by
  obtain ⟨n, e, hn, he, rfl⟩ := h
  rcases n.eq_zero_or_pos with rfl | hpos
  · simp
  · have hplace : place S (n * 2 ^ e) ≤ e := by
      refine (place_le_iff (by positivity)).2 ⟨?_, he⟩
      rw [add_comm, zpow_add₀ two_ne_zero, zpow_natCast]
      exact (mul_lt_mul_iff_left₀ (by positivity)).2 (by exact_mod_cast hn)
    exact le_antisymm (rounded_le_of_place_le le_rfl hplace) (le_rounded_of_place_le le_rfl hplace)

theorem representable_zpow (he : S.minExponent ≤ e) : Representable S (2 ^ e) :=
  ⟨1, e, Nat.one_lt_two_pow mantissaBits_pos.ne', he, by simp⟩

/-- The mantissa that full length cannot hold is that of the next grid. -/
theorem representable_of_le (hn : n ≤ 2 ^ S.mantissaBits) (he : S.minExponent ≤ e) :
    Representable S (n * 2 ^ e) := by
  rcases hn.lt_or_eq with hlt | rfl
  · exact ⟨n, e, hlt, he, rfl⟩
  · have : ((2 ^ S.mantissaBits : ℕ) * 2 ^ e : ℚ) = 2 ^ (S.mantissaBits + e : ℤ) := by
      rw [zpow_add₀ two_ne_zero, zpow_natCast]
      push_cast
      rfl
    rw [this]
    exact representable_zpow (by omega)

theorem minExponent_le_zero : S.minExponent ≤ 0 := by
  have hbits := S.hm
  have hpow : (0 : ℤ) < 2 ^ (S.exponentBits - 1) := by positivity
  rw [Format.minExponent, Format.mantissaBits]
  push_cast
  omega

theorem representable_natCast (hn : n ≤ 2 ^ S.mantissaBits) : Representable S n := by
  simpa using representable_of_le hn minExponent_le_zero

theorem representable_two_pow (k : ℕ) : Representable S (2 ^ k) := by
  exact_mod_cast representable_zpow (S := S) (minExponent_le_zero.trans (Int.natCast_nonneg k))

theorem representable_one : Representable S 1 := by
  simpa using representable_two_pow (S := S) 0

/-- Doubling changes nothing but the exponent. -/
theorem Representable.mul_two_pow (h : Representable S x) (k : ℕ) :
    Representable S (x * 2 ^ k) := by
  obtain ⟨n, e, hn, he, rfl⟩ := h
  refine ⟨n, e + k, hn, by omega, ?_⟩
  rw [mul_assoc, zpow_add₀ two_ne_zero, zpow_natCast]

theorem nearestEven_div_zpow_place_le (hx : 0 < x) :
    nearestEven (x / 2 ^ place S x) ≤ 2 ^ S.mantissaBits := by
  have hlt : x / 2 ^ place S x ≤ (2 ^ S.mantissaBits : ℕ) := by
    rw [div_le_iff₀ (by positivity)]
    have := ((place_le_iff hx).1 (le_refl (place S x))).1
    rw [add_comm, zpow_add₀ two_ne_zero, zpow_natCast] at this
    exact_mod_cast this.le
  exact (nearestEven_mono hlt).trans_eq (nearestEven_natCast _)

/-! ## Rounding and the order -/

/-- **Rounding keeps the order.** -/
theorem rounded_mono (hx : 0 ≤ x) (h : x ≤ y) : rounded S x ≤ rounded S y := by
  rcases hx.eq_or_lt with rfl | hpos
  · rw [rounded_zero]
    exact rounded_nonneg
  · rcases (place_mono (S := S) hpos h).eq_or_lt with heq | hlt
    · unfold rounded
      rw [heq]
      gcongr
      exact nearestEven_mono (by gcongr)
    · -- The grid changes at a power of two between the two numbers, and that is a point of both.
      have hbits := mantissaBits_pos (S := S)
      have hmin : S.minExponent < place S y := minExponent_le_place.trans_lt hlt
      set top := place S y + S.mantissaBits - 1
      have hbelow : x < 2 ^ top := by
        have := ((place_le_iff (S := S) (e := place S y - 1) hpos).1 (by omega)).1
        exact this.trans_eq (congrArg _ (by omega))
      have habove := zpow_le_of_lt_place (hpos.trans_le h) hmin
      have hlower := rounded_le_of_place_le (n := 1) (by simpa using hbelow.le)
        (by omega : place S x ≤ top)
      exact hlower.trans (le_rounded_of_place_le (by simpa using habove) (by omega))

/-- What a format can represent bounds a rounded number if it bounds the number. -/
theorem rounded_le (hy : Representable S y) (hx : 0 ≤ x) (h : x ≤ y) : rounded S x ≤ y :=
  (rounded_mono hx h).trans_eq (rounded_of_representable hy)

theorem le_rounded (hx : Representable S x) (hpos : 0 ≤ x) (h : x ≤ y) : x ≤ rounded S y :=
  (rounded_of_representable hx).symm.trans_le (rounded_mono hpos h)

/-! ## The error -/

theorem abs_rounded_sub_le (hx : 0 ≤ x) : |rounded S x - x| ≤ 2 ^ place S x / 2 := by
  have hscaled : rounded S x - x =
      (nearestEven (x / 2 ^ place S x) - x / 2 ^ place S x) * 2 ^ place S x := by
    rw [rounded, sub_mul, div_mul_cancel₀ _ (by positivity)]
  rw [hscaled, abs_mul, abs_of_pos (show (0 : ℚ) < 2 ^ place S x by positivity)]
  have := mul_le_mul_of_nonneg_right (abs_nearestEven_sub_le (x := x / 2 ^ place S x)
    (by positivity)) (show (0 : ℚ) ≤ 2 ^ place S x by positivity)
  linarith

/-- Half of the distance from one to the next larger number of the format. -/
def unitRoundoff (S : Format) : ℚ := 1 / 2 ^ S.mantissaBits

/-- Rounding a number that is not below the normal range changes it by no more than half a unit in
the last place of its mantissa. -/
theorem abs_rounded_sub_le_of_normal (hx : 2 ^ (S.minExponent + S.mantissaBits - 1) ≤ x) :
    |rounded S x - x| ≤ x * unitRoundoff S := by
  have hpos : 0 < x := lt_of_lt_of_le (by positivity) hx
  refine (abs_rounded_sub_le hpos.le).trans ?_
  have hlog := (le_log_iff hpos).2 hx
  have hplace : place S x = Int.log 2 x + 1 - S.mantissaBits := by
    rw [place, Format.targetExponent]
    omega
  have hpow : (2 ^ Int.log 2 x : ℚ) ≤ x := (le_log_iff hpos).1 le_rfl
  rw [hplace, zpow_sub₀ two_ne_zero, zpow_add_one₀ two_ne_zero, zpow_natCast, div_right_comm,
    mul_div_assoc, div_self two_ne_zero, mul_one, unitRoundoff, mul_one_div]
  gcongr

theorem le_rounded_of_normal (hx : 2 ^ (S.minExponent + S.mantissaBits - 1) ≤ x) :
    x * (1 - unitRoundoff S) ≤ rounded S x := by
  have := (abs_le.1 (abs_rounded_sub_le_of_normal hx)).1
  linarith

theorem rounded_le_of_normal (hx : 2 ^ (S.minExponent + S.mantissaBits - 1) ≤ x) :
    rounded S x ≤ x * (1 + unitRoundoff S) := by
  have := (abs_le.1 (abs_rounded_sub_le_of_normal hx)).2
  linarith

end Format
end Number
end WaveMill
