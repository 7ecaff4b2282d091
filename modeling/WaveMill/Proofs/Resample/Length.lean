import WaveMill.Proofs.Number.Value

/-!
# How many samples resampling leaves

The number of samples is the length of the channel times the ratio of the rates, rounded up.  Both
the ratio and the product are `binary64` numbers, so each of them is off by half a unit in its last
place.  Where the exact product is a whole number, the computed one may lie just above it, and then
there is one sample more than there should be.  It never lies below by so much, nor above another
whole number, as long as the exact numerator has no more than 52 bits: the distance of a quotient
that is no whole number from the next one is at least one over the denominator, and that is more
than the two errors together.

## What is here

* `Resample.rounded_mul_rounded_bounds` — how far two roundings are off.
* `Resample.computedRatio`, `Resample.computedProduct` — the two `binary64` numbers, exactly.
* `Resample.length_eq_ceil`, `Resample.length_eq_min` — the number of samples is the computed
  product, rounded up, within a word.
* `Resample.length_eq_or` — it is the exact quotient, rounded up, or one more.
* `Resample.linear_length` — all of this for the channels of a resampled buffer.
-/

set_option autoImplicit false
namespace WaveMill
namespace Resample

open Float.Model (Format)
open Number

variable {n : ℕ} {s t : UInt32} {x : ℚ}

/-! ## The two roundings -/

/-- The ratio of two rates as a `binary64` number. -/
def computedRatio (s t : UInt32) : ℚ := rounded .binary64 (t.toNat / s.toNat)

/-- A length times that ratio as a `binary64` number. -/
def computedProduct (n : ℕ) (s t : UInt32) : ℚ := rounded .binary64 (n * computedRatio s t)

/-- Lengths, rates and their quotients are all in the range where roundings are relative. -/
theorem normal_of_le (hx : 1 / 2 ^ 32 ≤ x) :
    (2 : ℚ) ^ (Format.binary64.minExponent + Format.binary64.mantissaBits - 1) ≤ x := by
  refine le_trans ?_ hx
  have hpow : (1 / 2 ^ 32 : ℚ) = 2 ^ (-32 : ℤ) := by norm_num
  rw [hpow]
  exact zpow_le_zpow_right₀ one_le_two (by decide)

theorem le_rounded_wide (hx : 1 / 2 ^ 32 ≤ x) :
    x * (1 - 1 / 2 ^ 53) ≤ rounded .binary64 x :=
  le_rounded_of_normal (normal_of_le hx)

theorem rounded_wide_le (hx : 1 / 2 ^ 32 ≤ x) :
    rounded .binary64 x ≤ x * (1 + 1 / 2 ^ 53) :=
  rounded_le_of_normal (normal_of_le hx)

theorem le_rounded_wide_of_le (hx : 1 / 2 ^ 32 ≤ x) : 1 / 2 ^ 32 ≤ rounded .binary64 x := by
  refine le_rounded ?_ (by norm_num) hx
  have hpow : (1 / 2 ^ 32 : ℚ) = 2 ^ (-32 : ℤ) := by norm_num
  rw [hpow]
  exact representable_zpow (by decide)

/-- A number in that range is rounded, and so is its product with another number.  What comes out
differs from the exact product by no more than two roundings do. -/
theorem rounded_mul_rounded_bounds {y : ℚ} (hx : x = 0 ∨ 1 / 2 ^ 32 ≤ x) (hy : y = 0 ∨ 1 ≤ y) :
    x * y * (1 - 1 / 2 ^ 53) ^ 2 ≤ rounded .binary64 (rounded .binary64 x * y) ∧
      rounded .binary64 (rounded .binary64 x * y) ≤ x * y * (1 + 1 / 2 ^ 53) ^ 2 := by
  obtain rfl | hx := hx
  · simp
  obtain rfl | hy := hy
  · simp
  have hlow := le_rounded_wide hx
  have hhigh := rounded_wide_le hx
  have hfirst := le_rounded_wide_of_le hx
  have hpos : 0 ≤ y := zero_le_one.trans hy
  have hproduct : 1 / 2 ^ 32 ≤ rounded .binary64 x * y := by nlinarith
  constructor
  · calc x * y * (1 - 1 / 2 ^ 53) ^ 2
        = x * (1 - 1 / 2 ^ 53) * y * (1 - 1 / 2 ^ 53) := by ring
      _ ≤ rounded .binary64 x * y * (1 - 1 / 2 ^ 53) :=
        mul_le_mul_of_nonneg_right (mul_le_mul_of_nonneg_right hlow hpos) (by norm_num)
      _ ≤ rounded .binary64 (rounded .binary64 x * y) := le_rounded_wide hproduct
  · calc rounded .binary64 (rounded .binary64 x * y)
        ≤ rounded .binary64 x * y * (1 + 1 / 2 ^ 53) := rounded_wide_le hproduct
      _ ≤ x * (1 + 1 / 2 ^ 53) * y * (1 + 1 / 2 ^ 53) := by gcongr
      _ = x * y * (1 + 1 / 2 ^ 53) ^ 2 := by ring

theorem le_div_rate (hs : 0 < s.toNat) (hx : 1 ≤ x) : 1 / 2 ^ 32 ≤ x / s.toNat := by
  have hless : (s.toNat : ℚ) ≤ 2 ^ 32 := by exact_mod_cast s.toNat_lt.le
  have hpos : (0 : ℚ) < s.toNat := by exact_mod_cast hs
  gcongr

theorem le_rates_div (hs : 0 < s.toNat) (ht : 0 < t.toNat) :
    (1 / 2 ^ 32 : ℚ) ≤ t.toNat / s.toNat :=
  le_div_rate hs (by exact_mod_cast ht)

theorem le_computedRatio (hs : 0 < s.toNat) (ht : 0 < t.toNat) :
    1 / 2 ^ 32 ≤ computedRatio s t :=
  le_rounded_wide_of_le (le_rates_div hs ht)

theorem computedRatio_pos (hs : 0 < s.toNat) (ht : 0 < t.toNat) : 0 < computedRatio s t :=
  lt_of_lt_of_le (by norm_num) (le_computedRatio hs ht)

theorem computedRatio_le (hs : 0 < s.toNat) : computedRatio s t ≤ (2 ^ 32 - 1 : ℕ) := by
  refine rounded_le (representable_natCast (by decide)) (by positivity) ?_
  have hone : (1 : ℚ) ≤ s.toNat := by exact_mod_cast hs
  have hless : (t.toNat : ℚ) ≤ (2 ^ 32 - 1 : ℕ) := by
    have := t.toNat_lt
    exact_mod_cast Nat.le_sub_one_of_lt this
  exact (div_le_self (by positivity) hone).trans hless

/-- A product with the computed ratio differs from the exact one by no more than two roundings
do. -/
theorem rounded_mul_computedRatio_bounds (hs : 0 < s.toNat) (ht : 0 < t.toNat)
    (hx : x = 0 ∨ 1 ≤ x) :
    x * t.toNat / s.toNat * (1 - 1 / 2 ^ 53) ^ 2 ≤ rounded .binary64 (x * computedRatio s t) ∧
      rounded .binary64 (x * computedRatio s t) ≤
        x * t.toNat / s.toNat * (1 + 1 / 2 ^ 53) ^ 2 := by
  have h := rounded_mul_rounded_bounds (.inr (le_rates_div hs ht)) hx
  rwa [div_mul_eq_mul_div, mul_comm (t.toNat : ℚ), mul_comm (rounded _ _)] at h

theorem computedProduct_bounds (hs : 0 < s.toNat) (ht : 0 < t.toNat) :
    (n * t.toNat / s.toNat : ℚ) * (1 - 1 / 2 ^ 53) ^ 2 ≤ computedProduct n s t ∧
      computedProduct n s t ≤ (n * t.toNat / s.toNat : ℚ) * (1 + 1 / 2 ^ 53) ^ 2 := by
  refine rounded_mul_computedRatio_bounds hs ht ?_
  rcases n.eq_zero_or_pos with rfl | hpos
  · exact .inl Nat.cast_zero
  · exact .inr (by exact_mod_cast hpos)

/-- The two errors together are less than the distance of a quotient that is no whole number from
the next whole number. -/
theorem abs_computedProduct_sub_lt (hs : 0 < s.toNat) (ht : 0 < t.toNat)
    (h : n * t.toNat < 2 ^ 52) :
    |computedProduct n s t - n * t.toNat / s.toNat| < 1 / s.toNat := by
  obtain ⟨hlow, hhigh⟩ := computedProduct_bounds (n := n) hs ht
  have hpos : (0 : ℚ) < s.toNat := by exact_mod_cast hs
  have hless : (n * t.toNat + 1 : ℚ) ≤ 2 ^ 52 := by exact_mod_cast h
  have herror : (n * t.toNat / s.toNat : ℚ) * (2 / 2 ^ 53 + (1 / 2 ^ 53) ^ 2) < 1 / s.toNat := by
    rw [div_mul_eq_mul_div, div_lt_div_iff_of_pos_right hpos]
    nlinarith
  have hnonneg : (0 : ℚ) ≤ n * t.toNat / s.toNat := by positivity
  rw [abs_lt]
  constructor <;> nlinarith

/-! ## The number of samples -/

/-- A length as a `binary64` number, from which the number of samples is computed. -/
def computedLength (n : ℕ) : ℚ := rounded .binary64 n.toUInt64.toNat

theorem isWide_computedLength (n : ℕ) : IsWide (position n) .positive (computedLength n) :=
  isWide_word n.toUInt64

theorem computedLength_of_lt (hn : n < 2 ^ 64) : computedLength n = rounded .binary64 n := by
  have hsize : n.toUInt64.toNat = n := by
    rw [Nat.toUInt64, UInt64.toNat_ofNat']
    omega
  rw [computedLength, hsize]

/-- A count is rounded. -/
theorem isWide_position (hn : n < 2 ^ 64) :
    IsWide (position n) .positive (rounded .binary64 n) := by
  rw [← computedLength_of_lt hn]
  exact isWide_computedLength n

theorem computedLength_nonneg (n : ℕ) : 0 ≤ computedLength n := rounded_nonneg

theorem computedLength_le (n : ℕ) : computedLength n ≤ 2 ^ 64 :=
  rounded_le (representable_two_pow 64) (Nat.cast_nonneg _)
    (by exact_mod_cast n.toUInt64.toNat_lt.le)

theorem computedLength_eq_zero_or (n : ℕ) : computedLength n = 0 ∨ 1 ≤ computedLength n := by
  rw [computedLength]
  rcases n.toUInt64.toNat.eq_zero_or_pos with hzero | hpos
  · exact .inl (by rw [hzero, Nat.cast_zero, rounded_zero])
  · exact .inr (le_rounded representable_one zero_le_one (by exact_mod_cast hpos))

/-- A count of no more than 53 bits is kept. -/
theorem rounded_natCast (hn : n ≤ 2 ^ 53) : rounded .binary64 n = n :=
  rounded_of_representable (representable_natCast hn)

theorem computedLength_of_le (hn : n ≤ 2 ^ 53) : computedLength n = n := by
  rw [computedLength_of_lt (hn.trans_lt (by norm_num)), rounded_natCast hn]

theorem isWide_ratio (hs : 0 < s.toNat) : IsWide (ratio s t) .positive (computedRatio s t) := by
  have hpos : (s.toNat : ℚ) ≠ 0 := by exact_mod_cast hs.ne'
  refine (isWide_rate t).div (isWide_rate s) hpos ((computedRatio_le hs).trans_lt ?_)
  exact lt_of_lt_of_le (by norm_num) (pow_le_pow_right₀ one_le_two (show 32 ≤ 1024 by norm_num))

/-- The number of samples is a computed product, rounded up, or the largest word. -/
theorem length_eq_ceil (hs : 0 < s.toNat) :
    length n (ratio s t) =
      min ⌈rounded .binary64 (computedLength n * computedRatio s t)⌉₊ maxWord := by
  have hlimit : rounded .binary64 (computedLength n * computedRatio s t) < 2 ^ 1024 := by
    refine rounded_lt_limit (k := 96) (mul_nonneg (computedLength_nonneg n) rounded_nonneg) ?_
      (by norm_num)
    exact (mul_le_mul (computedLength_le n) (computedRatio_le hs) rounded_nonneg
      (by positivity)).trans (by norm_num)
  exact ((isWide_computedLength n).mul (isWide_ratio hs) hlimit).ceiling_eq

/-- The number of samples is the computed product, rounded up, or the largest word. -/
theorem length_eq_min (hs : 0 < s.toNat) (hn : n ≤ 2 ^ 53) :
    length n (ratio s t) = min ⌈computedProduct n s t⌉₊ maxWord := by
  rw [length_eq_ceil hs, computedLength_of_le hn, computedProduct]

theorem computedProduct_le_of_lt (hs : 0 < s.toNat) (hn : n < 2 ^ 32) :
    computedProduct n s t ≤ maxWord := by
  have hle : computedProduct n s t ≤ ((2 ^ 53 - 1 : ℕ) * 2 ^ (11 : ℤ) : ℚ) := by
    refine rounded_le (representable_of_le (by decide) (by decide)) ?_ ?_
    · exact mul_nonneg (Nat.cast_nonneg n) rounded_nonneg
    · have hless : (n : ℚ) ≤ (2 ^ 32 - 1 : ℕ) := by exact_mod_cast Nat.le_sub_one_of_lt hn
      refine (mul_le_mul hless (computedRatio_le hs) rounded_nonneg (by positivity)).trans ?_
      norm_num
  refine hle.trans ?_
  norm_num [maxWord, UInt64.size]

/-- The number of samples of a channel that is not too long is the computed product, rounded up. -/
theorem length_eq (hs : 0 < s.toNat) (hn : n < 2 ^ 32) :
    length n (ratio s t) = ⌈computedProduct n s t⌉₊ := by
  rw [length_eq_min hs (hn.le.trans (by norm_num)), min_eq_left]
  exact Nat.ceil_le.2 (computedProduct_le_of_lt hs hn)

/-- What is closer to a quotient than one over its denominator is rounded up as the quotient is, or
the quotient is a whole number and it is above it. -/
theorem ceil_eq_or {m d : ℕ} {y : ℚ} (hd : 0 < d) (hnear : |y - m / d| < 1 / d) :
    ⌈y⌉₊ = quotientUp m d ∨
      d ∣ m ∧ (m / d : ℚ) < y ∧ ⌈y⌉₊ = quotientUp m d + 1 := by
  have hpos : (0 : ℚ) < d := by exact_mod_cast hd
  obtain ⟨hlow, hhigh⟩ := abs_lt.1 hnear
  have hupper : m ≤ quotientUp m d * d := (quotientUp_le_iff hd).1 le_rfl
  have hleast (k : ℕ) (hk : k < quotientUp m d) : k * d < m :=
    not_le.1 fun hle ↦ hk.not_ge ((quotientUp_le_iff hd).2 hle)
  generalize quotientUp m d = q at hupper hleast
  have hge : q ≤ ⌈y⌉₊ := by
    cases q with
    | zero => exact Nat.zero_le _
    | succ k =>
      refine Nat.lt_ceil.2 ?_
      have hbelow : (k * d + 1 : ℚ) ≤ m := by exact_mod_cast hleast k (Nat.lt_succ_self k)
      have : (k + 1 / d : ℚ) ≤ m / d := by
        rw [le_div_iff₀ hpos, add_mul, div_mul_cancel₀ _ hpos.ne']
        exact hbelow
      linarith
  rcases le_or_gt y q with hle | hgt
  · exact .inl (le_antisymm (Nat.ceil_le.2 hle) hge)
  · -- It is above `q` by less than the distance of two quotients, so `q` is the quotient.
    have hexact : q * d = m := by
      have hless : (q : ℚ) < (m + 1) / d := by
        rw [add_div]
        linarith
      rw [lt_div_iff₀ hpos] at hless
      have : q * d < m + 1 := by exact_mod_cast hless
      omega
    have hquotient : (m / d : ℚ) = q := by
      rw [div_eq_iff hpos.ne']
      exact_mod_cast hexact.symm
    have hone : (1 / d : ℚ) ≤ 1 := (div_le_one hpos).2 (by exact_mod_cast hd)
    refine .inr ⟨⟨q, by rw [← hexact, Nat.mul_comm]⟩, hquotient.trans_lt hgt, le_antisymm ?_ ?_⟩
    · refine Nat.ceil_le.2 ?_
      push_cast
      linarith
    · exact Nat.lt_ceil.2 hgt

/-- **The number of samples is the exact quotient, rounded up, or one more**, and that only if the
quotient is a whole number and the computed product is above it. -/
theorem length_eq_or (hs : 0 < s.toNat) (ht : 0 < t.toNat) (h : n * t.toNat < 2 ^ 52) :
    length n (ratio s t) = quotientUp (n * t.toNat) s.toNat ∨
      s.toNat ∣ n * t.toNat ∧ (n * t.toNat / s.toNat : ℚ) < computedProduct n s t ∧
        length n (ratio s t) = quotientUp (n * t.toNat) s.toNat + 1 := by
  have hn : n ≤ 2 ^ 53 := by
    have := Nat.le_mul_of_pos_right n ht
    omega
  have hcases := ceil_eq_or (m := n * t.toNat) (y := computedProduct n s t) hs
    (by exact_mod_cast abs_computedProduct_sub_lt hs ht h)
  have hword : quotientUp (n * t.toNat) s.toNat + 1 ≤ maxWord := by
    have hle : quotientUp (n * t.toNat) s.toNat ≤ n * t.toNat :=
      (quotientUp_le_iff hs).2 (Nat.le_mul_of_pos_right _ hs)
    have : 2 ^ 52 ≤ maxWord := by decide
    omega
  rw [length_eq_min hs hn, min_eq_left]
  · exact_mod_cast hcases
  · obtain heq | ⟨-, -, heq⟩ := hcases <;> omega

/-! ## Resampled buffers -/

theorem size_channel_ratio {samples : Channel} (hsize : samples.size = n) (hs : 0 < s.toNat)
    (hn : n < 2 ^ 32) : (channel (ratio s t) samples).size = ⌈computedProduct n s t⌉₊ := by
  subst hsize
  rw [size_channel]
  split
  case isTrue hempty => simp [hempty, computedProduct]
  case isFalse => exact length_eq hs hn

/-- **What resampling does to the length of a buffer.**  Every channel has the computed product of
the length and the ratio, rounded up.  That is off from the exact quotient by no more than two
roundings.  If the numerator has no more than 52 bits, it is the exact quotient, rounded up, unless
the exact quotient is a whole number and the computed product is above it; then it is one more. -/
theorem linear_length (b : Buffer) {target : UInt32} (htarget : target ≠ 0)
    (hrate : b.rate ≠ target) (hframes : b.frames < 2 ^ 32) :
    ∃ b', linear b target = .ok b' ∧ b'.rate = target ∧
      b'.channels.length = b.channels.length ∧
      ∀ c ∈ b'.channels,
        c.size = ⌈computedProduct b.frames b.rate target⌉₊ ∧
        (b.frames * target.toNat / b.rate.toNat : ℚ) * (1 - 1 / 2 ^ 53) ^ 2 ≤ c.size ∧
        (c.size : ℚ) < (b.frames * target.toNat / b.rate.toNat : ℚ) * (1 + 1 / 2 ^ 53) ^ 2 + 1 ∧
        (b.frames * target.toNat < 2 ^ 52 →
          c.size = quotientUp (b.frames * target.toNat) b.rate.toNat ∨
          b.rate.toNat ∣ b.frames * target.toNat ∧
            (b.frames * target.toNat / b.rate.toNat : ℚ) <
              computedProduct b.frames b.rate target ∧
            c.size = quotientUp (b.frames * target.toNat) b.rate.toNat + 1) := by
  have hs : 0 < b.rate.toNat := UInt32.lt_iff_toNat_lt.1 b.rate_pos
  have ht : 0 < target.toNat := Nat.pos_of_ne_zero fun h ↦ htarget (UInt32.toNat_inj.1 h)
  rw [linear, dif_neg htarget, if_neg hrate]
  refine ⟨_, rfl, rfl, List.length_map .., fun c hc ↦ ?_⟩
  obtain ⟨d, hd, rfl⟩ := List.mem_map.1 hc
  rw [size_channel_ratio (Buffer.size_of_mem hd) hs hframes]
  obtain ⟨hlow, hhigh⟩ := computedProduct_bounds (n := b.frames) hs ht
  have hceil := Nat.ceil_lt_add_one (a := computedProduct b.frames b.rate target) rounded_nonneg
  refine ⟨rfl, hlow.trans (Nat.le_ceil _), by linarith, fun h ↦ ?_⟩
  rw [← length_eq hs hframes]
  exact length_eq_or hs ht h

/-- A second of silence at seven samples a second. -/
def silence : Buffer where
  channels := [Array.replicate 7 0]
  rate := 7
  channels_ne_nil := List.cons_ne_nil _ _
  length_channels_le := by decide
  size_eq := by decide
  rate_pos := by decide

/-- A second at 29 samples a second that has 30 samples. -/
theorem linear_surplus :
    (linear silence 29).toOption.map (·.channels.map Array.size) = some [30] ∧
      quotientUp (silence.frames * 29) 7 = 29 := by
  decide +kernel

theorem linear_length_silence :
    ∃ b', linear silence 29 = .ok b' ∧ b'.rate = 29 ∧ ∀ c ∈ b'.channels, c.size = 30 := by
  obtain ⟨b', hok, hrate, -, hsize⟩ :=
    linear_length silence (by decide : (29 : UInt32) ≠ 0) (by decide) (by decide)
  exact ⟨b', hok, hrate, fun c hc ↦ (hsize c hc).1.trans (by decide +kernel)⟩

end Resample
end WaveMill
