import WaveMill.Proofs.Resample.Length

/-!
# From which samples a resampled channel is made

Output sample `i` is read at the place `i` divided by the ratio of the rates.  It lies on the line
between two neighbours of the channel, or it is the last sample, as long as the whole part of that
place is an index of the channel.  Now the number of output samples comes from a rounded product
with the ratio, and the place from a rounded quotient by it.  The roundings together are off by less
than one sample, so the place is never behind the end of the channel by a whole sample; but at the
very end there is nothing to read, and the output sample is zero.

When does that happen?  If the exact place lies before the end of the channel, it does so by at
least one over the target rate, and the errors of the ratio and of the quotient cannot bridge that.
So only a surplus sample, one more than the exact quotient asks for, can be read at the end.  Its
exact place is the end of the channel, and the quotient is rounded to a number that may lie before
the end, but by less than one.

## What is here

* `Resample.Interpolates` — a sample that is made of one sample or of two neighbours.
* `Resample.valueAt_interpolates` — what is read before the end of a channel.
* `Resample.computedPlace` — the place at which an output sample is read, exactly.
* `Resample.computedPlace_lt_add_one`, `Resample.computedPlace_lt`, `Resample.lt_computedPlace` —
  where it lies.
* `Resample.channel_interpolates` — every output sample is an interpolation, except for one that is
  read at the end.
-/

set_option autoImplicit false
namespace WaveMill
namespace Resample

open Number

/-! ## Interpolation -/

/-- A sample that is made of sample `k` of a channel and the one behind it: a point on the line from
one to the other, or the last sample itself. -/
def Interpolates (samples : Channel) (k : ℕ) (v : Float32) : Prop :=
  (∃ h : k + 1 < samples.size, ∃ t : Float32, 0 ≤ t ∧ t ≤ 1 ∧
    v = samples[k] * (1 - t) + samples[k + 1] * t) ∨
  ∃ h : k + 1 = samples.size, v = samples[k]

variable {samples : Channel} {x : Float} {a : ℚ}

/-- The part of a place behind its whole part is a weight. -/
theorem isNarrow_fraction (hx : IsWide x .positive a) (ha : a ≤ 2 ^ 53) :
    ∃ t, IsNarrow (narrow (x - position (wholePart x))) .positive t ∧ t ≤ 1 := by
  have hfloor : ⌊a⌋₊ ≤ 2 ^ 53 := Nat.floor_le_of_le (by exact_mod_cast ha)
  have hwhole : wholePart x = ⌊a⌋₊ := by
    rw [hx.wholePart_eq, min_eq_left (hfloor.trans (by decide))]
  have hle := Nat.floor_le hx.nonneg
  have hless : a - ⌊a⌋₊ ≤ 1 := by
    have := Nat.lt_floor_add_one a
    linarith
  have hwide : rounded .binary64 (a - ⌊a⌋₊) ≤ 1 :=
    rounded_le representable_one (by linarith) hless
  have hnarrow : rounded .binary32 (rounded .binary64 (a - ⌊a⌋₊)) ≤ 1 :=
    rounded_le representable_one rounded_nonneg hwide
  refine ⟨_, ?_, hnarrow⟩
  rw [hwhole]
  have hposition : IsWide (position ⌊a⌋₊) .positive ⌊a⌋₊ := by
    simpa only [rounded_natCast hfloor] using isWide_position (hfloor.trans_lt (by norm_num))
  refine (hx.sub hposition hle ?_).narrow ?_
  · exact hwide.trans_lt (one_lt_pow₀ one_lt_two (by norm_num))
  · exact hnarrow.trans_lt (by norm_num)

theorem fraction_bounds (hx : IsWide x .positive a) (ha : a ≤ 2 ^ 53) :
    0 ≤ narrow (x - position (wholePart x)) ∧ narrow (x - position (wholePart x)) ≤ 1 := by
  obtain ⟨t, ht, hone⟩ := isNarrow_fraction hx ha
  exact ⟨(isNarrow_zero.le_iff ht).2 ht.nonneg, (ht.le_iff isNarrow_one).2 hone⟩

/-- What is read before the end of a channel is made of its samples. -/
theorem valueAt_interpolates (hx : IsWide x .positive a) (ha : a ≤ 2 ^ 53)
    (h : wholePart x < samples.size) :
    Interpolates samples (wholePart x) (valueAt samples x) := by
  simp only [valueAt]
  split
  case isTrue hlt =>
    obtain ⟨hzero, hone⟩ := fraction_bounds hx ha
    exact .inl ⟨hlt, _, hzero, hone, rfl⟩
  case isFalse hge => exact .inr ⟨by omega, rfl⟩

/-- There is nothing behind the end of a channel. -/
theorem valueAt_eq_zero (h : samples.size ≤ wholePart x) : valueAt samples x = 0 := by
  simp only [valueAt]
  rw [dif_neg (by omega), dif_neg (by omega)]

/-! ## The place of an output sample -/

variable {i n : ℕ} {s t : UInt32}

/-- The place at which output sample `i` is read. -/
def computedPlace (i : ℕ) (s t : UInt32) : ℚ :=
  rounded .binary64 (rounded .binary64 i / computedRatio s t)

theorem isWide_place (hs : 0 < s.toNat) (ht : 0 < t.toNat) (hi : i < 2 ^ 64) :
    IsWide (position i / ratio s t) .positive (computedPlace i s t) := by
  have hpos := computedRatio_pos hs ht
  refine (isWide_position hi).div (isWide_ratio hs) hpos.ne' ?_
  refine rounded_lt_limit (k := 96) (div_nonneg rounded_nonneg hpos.le) ?_ (by norm_num)
  have hindex : rounded .binary64 i ≤ 2 ^ 64 :=
    rounded_le (representable_two_pow 64) (Nat.cast_nonneg i) (by exact_mod_cast hi.le)
  have hratio := le_computedRatio hs ht
  rw [div_le_iff₀ hpos]
  norm_num at hratio hindex ⊢
  linarith

theorem wholePart_place (hs : 0 < s.toNat) (ht : 0 < t.toNat) (hi : i < 2 ^ 64)
    (hle : computedPlace i s t ≤ 2 ^ 53) :
    wholePart (position i / ratio s t) = ⌊computedPlace i s t⌋₊ := by
  have hfloor : ⌊computedPlace i s t⌋₊ ≤ 2 ^ 53 := Nat.floor_le_of_le (by exact_mod_cast hle)
  rw [(isWide_place hs ht hi).wholePart_eq, min_eq_left (hfloor.trans (by decide))]

theorem le_div_computedRatio {x : ℚ} (hs : 0 < s.toNat) (ht : 0 < t.toNat) (hx : 1 ≤ x) :
    1 / 2 ^ 32 ≤ x / computedRatio s t := by
  have hle := computedRatio_le (t := t) hs
  rw [le_div_iff₀ (computedRatio_pos hs ht)]
  norm_num at hle ⊢
  linarith

/-- A sample that is before the computed product is read less than one behind the end of the
channel, as the place is off from the exact one by no more than four roundings. -/
theorem computedPlace_lt_add_one (hs : 0 < s.toNat) (ht : 0 < t.toNat) (hn : n < 2 ^ 51)
    (hi : (i : ℚ) < computedProduct n s t) : computedPlace i s t < n + 1 := by
  have hpos := computedRatio_pos hs ht
  have hless : (n : ℚ) < 2 ^ 51 := by exact_mod_cast hn
  rcases i.eq_zero_or_pos with rfl | hi'
  · have hzero : computedPlace 0 s t = 0 := by simp [computedPlace]
    rw [hzero]
    positivity
  · have hone : (1 : ℚ) ≤ i := by exact_mod_cast hi'
    have hsize : (1 : ℚ) ≤ n := by
      refine Nat.one_le_cast.2 (Nat.pos_of_ne_zero fun h ↦ ?_)
      simp only [h, computedProduct, Nat.cast_zero, zero_mul, rounded_zero] at hi
      linarith
    have hindex : 1 ≤ rounded .binary64 i := le_rounded representable_one zero_le_one hone
    have hproduct : 1 / 2 ^ 32 ≤ n * computedRatio s t := by
      have := le_computedRatio hs ht
      nlinarith
    calc computedPlace i s t
        ≤ rounded .binary64 i / computedRatio s t * (1 + 1 / 2 ^ 53) :=
          rounded_wide_le (le_div_computedRatio hs ht hindex)
      _ ≤ i * (1 + 1 / 2 ^ 53) / computedRatio s t * (1 + 1 / 2 ^ 53) := by
        gcongr
        exact rounded_wide_le ((by norm_num : (1 / 2 ^ 32 : ℚ) ≤ 1).trans hone)
      _ ≤ n * computedRatio s t * (1 + 1 / 2 ^ 53) * (1 + 1 / 2 ^ 53) / computedRatio s t *
            (1 + 1 / 2 ^ 53) := by
        gcongr
        exact hi.le.trans (rounded_wide_le hproduct)
      _ = n * (1 + 1 / 2 ^ 53) ^ 3 := by field_simp
      _ < n + 1 := by linarith

/-- A place that lies before the end of the channel is computed to lie before it. -/
theorem computedPlace_lt (hs : 0 < s.toNat) (ht : 0 < t.toNat) (h : n * t.toNat < 2 ^ 52)
    (hi : i ≤ 2 ^ 53) (hbefore : i * s.toNat < n * t.toNat) : computedPlace i s t < n := by
  have hpos := computedRatio_pos hs ht
  have hrate : (0 : ℚ) < s.toNat := by exact_mod_cast hs
  rw [computedPlace, rounded_natCast hi]
  rcases i.eq_zero_or_pos with rfl | hi'
  · have hn : 0 < n := Nat.pos_of_mul_pos_right (lt_of_le_of_lt (Nat.zero_le _) hbefore)
    simpa using hn
  · have hone : (1 : ℚ) ≤ i := by exact_mod_cast hi'
    have hroom : (i * s.toNat : ℚ) * (1 + 1 / 2 ^ 53) < n * t.toNat * (1 - 1 / 2 ^ 53) := by
      have hapart : (i * s.toNat + 1 : ℚ) ≤ n * t.toNat := by exact_mod_cast hbefore
      have hless : (n * t.toNat + 1 : ℚ) ≤ 2 ^ 52 := by exact_mod_cast h
      norm_num at hless ⊢
      linarith
    calc rounded .binary64 (i / computedRatio s t)
        ≤ i / computedRatio s t * (1 + 1 / 2 ^ 53) :=
          rounded_wide_le (le_div_computedRatio hs ht hone)
      _ < n := by
        rw [div_mul_eq_mul_div, div_lt_iff₀ hpos]
        calc (i * (1 + 1 / 2 ^ 53) : ℚ)
            = i * s.toNat * (1 + 1 / 2 ^ 53) / s.toNat := by field_simp
          _ < n * t.toNat * (1 - 1 / 2 ^ 53) / s.toNat := by gcongr
          _ = n * (t.toNat / s.toNat * (1 - 1 / 2 ^ 53)) := by ring
          _ ≤ n * computedRatio s t :=
            mul_le_mul_of_nonneg_left (le_rounded_wide (le_rates_div hs ht)) (Nat.cast_nonneg n)

/-- A place at the end of the channel may be computed to lie before it, but by less than one. -/
theorem lt_computedPlace (hs : 0 < s.toNat) (ht : 0 < t.toNat) (hsize : n < 2 ^ 52) (hn : 0 < n)
    (hi : i ≤ 2 ^ 53) (hend : i * s.toNat = n * t.toNat) : (n - 1 : ℚ) < computedPlace i s t := by
  have hpos := computedRatio_pos hs ht
  have hrate : (s.toNat : ℚ) ≠ 0 := by exact_mod_cast hs.ne'
  have hindex : 0 < i := Nat.pos_of_mul_pos_right (hend.symm ▸ Nat.mul_pos hn ht)
  have hone : (1 : ℚ) ≤ i := by exact_mod_cast hindex
  have hratio : n * computedRatio s t ≤ i * (1 + 1 / 2 ^ 53) := by
    have hexact : (n * (t.toNat / s.toNat) : ℚ) = i := by
      rw [mul_div_assoc', div_eq_iff hrate]
      exact_mod_cast hend.symm
    rw [← hexact, mul_assoc]
    exact mul_le_mul_of_nonneg_left (rounded_wide_le (le_rates_div hs ht)) (Nat.cast_nonneg n)
  have hroom : (n - 1 : ℚ) * (1 + 1 / 2 ^ 53) < n * (1 - 1 / 2 ^ 53) := by
    have hless : (n : ℚ) < 2 ^ 52 := by exact_mod_cast hsize
    linarith
  have hlast : (0 : ℚ) ≤ n - 1 := sub_nonneg.2 (by exact_mod_cast hn)
  have hcross : (n - 1) * computedRatio s t < i * (1 - 1 / 2 ^ 53) := by
    refine lt_of_mul_lt_mul_left ?_ (show (0 : ℚ) ≤ n from Nat.cast_nonneg n)
    calc n * ((n - 1) * computedRatio s t)
        = (n - 1) * (n * computedRatio s t) := by ring
      _ ≤ (n - 1) * (i * (1 + 1 / 2 ^ 53)) := mul_le_mul_of_nonneg_left hratio hlast
      _ = i * ((n - 1) * (1 + 1 / 2 ^ 53)) := by ring
      _ < i * (n * (1 - 1 / 2 ^ 53)) := mul_lt_mul_of_pos_left hroom (by linarith)
      _ = n * (i * (1 - 1 / 2 ^ 53)) := by ring
  calc (n - 1 : ℚ)
      < i * (1 - 1 / 2 ^ 53) / computedRatio s t := (lt_div_iff₀ hpos).2 hcross
    _ = i / computedRatio s t * (1 - 1 / 2 ^ 53) := by ring
    _ ≤ rounded .binary64 (i / computedRatio s t) :=
      le_rounded_wide (le_div_computedRatio hs ht hone)
    _ = computedPlace i s t := by rw [computedPlace, rounded_natCast hi]

/-! ## The output samples -/

/-- A sample whose exact place is not before the end of the channel is the surplus one. -/
theorem surplus_of_le (hs : 0 < s.toNat) (ht : 0 < t.toNat) (h : n * t.toNat < 2 ^ 52)
    (hi : i < length n (ratio s t)) (hbehind : n * t.toNat ≤ i * s.toNat) :
    i * s.toNat = n * t.toNat ∧ i + 1 = length n (ratio s t) := by
  have hle := (quotientUp_le_iff hs).2 hbehind
  obtain heq | ⟨⟨q, hq⟩, -, heq⟩ := length_eq_or hs ht h
  · omega
  · have hquotient : quotientUp (n * t.toNat) s.toNat ≤ q :=
      (quotientUp_le_iff hs).2 (by rw [hq, Nat.mul_comm])
    refine ⟨le_antisymm ?_ hbehind, by omega⟩
    rw [hq, Nat.mul_comm]
    exact Nat.mul_le_mul_left _ (by omega)

/-- Where the computed place of an output sample lies, next to the exact one. -/
theorem computedPlace_cases (hs : 0 < s.toNat) (ht : 0 < t.toNat) (h : n * t.toNat < 2 ^ 52)
    (hn : 0 < n) (hi : i < length n (ratio s t)) :
    i * s.toNat < n * t.toNat ∧ computedPlace i s t < n ∨
      i * s.toNat = n * t.toNat ∧ i + 1 = length n (ratio s t) ∧
        (n - 1 : ℚ) < computedPlace i s t := by
  have hindex : i ≤ 2 ^ 53 := by
    have hcount : quotientUp (n * t.toNat) s.toNat ≤ n * t.toNat :=
      (quotientUp_le_iff hs).2 (Nat.le_mul_of_pos_right _ hs)
    have := length_eq_or hs ht h
    omega
  have hsize : n < 2 ^ 52 := (Nat.le_mul_of_pos_right n ht).trans_lt h
  rcases lt_or_ge (i * s.toNat) (n * t.toNat) with hbefore | hbehind
  · exact .inl ⟨hbefore, computedPlace_lt hs ht h hindex hbefore⟩
  · obtain ⟨hend, hlast⟩ := surplus_of_le hs ht h hi hbehind
    exact .inr ⟨hend, hlast, lt_computedPlace hs ht hsize hn hindex hend⟩

theorem getElem_channel {r : Float} (hi : i < (channel r samples).size) :
    (channel r samples)[i] = valueAt samples (position i / r) := by
  have hne : ¬ samples.isEmpty = true := fun h ↦ by simp [channel, h] at hi
  simp [channel, hne]

/-- **Every output sample is made of samples of the channel**, of one or of two neighbours, or it is
read at the end of the channel and is zero.  If the numerator of the exact length has no more than
52 bits, a sample whose exact place is before the end is read before it.  There is no other sample
but a surplus one, the last; it is read at the last sample of the channel or at the end. -/
theorem channel_interpolates (hs : 0 < s.toNat) (ht : 0 < t.toNat) (hsize : samples.size < 2 ^ 51)
    (hi : i < (channel (ratio s t) samples).size) :
    (Interpolates samples (wholePart (position i / ratio s t)) (channel (ratio s t) samples)[i] ∨
      wholePart (position i / ratio s t) = samples.size ∧ (channel (ratio s t) samples)[i] = 0) ∧
    (samples.size * t.toNat < 2 ^ 52 →
      i * s.toNat < samples.size * t.toNat ∧
        wholePart (position i / ratio s t) < samples.size ∨
      i * s.toNat = samples.size * t.toNat ∧ i + 1 = (channel (ratio s t) samples).size ∧
        samples.size ≤ wholePart (position i / ratio s t) + 1) := by
  rw [getElem_channel]
  have hne : samples.size ≠ 0 := fun hzero ↦ by simp [size_channel, hzero] at hi
  rw [size_channel, if_neg hne] at hi ⊢
  have hmin := hi
  rw [length_eq_min hs (hsize.le.trans (by norm_num)), lt_min_iff, Nat.lt_ceil] at hmin
  obtain ⟨hproduct, hword⟩ := hmin
  have hindex : i < 2 ^ 64 := hword.trans (by decide)
  have hplace := isWide_place hs ht hindex
  have hlt := computedPlace_lt_add_one hs ht hsize hproduct
  have hbound : computedPlace i s t ≤ 2 ^ 53 := by
    have : (samples.size : ℚ) < 2 ^ 51 := by exact_mod_cast hsize
    linarith
  have hwhole := wholePart_place hs ht hindex hbound
  constructor
  · have hle : wholePart (position i / ratio s t) ≤ samples.size := by
      rw [hwhole, ← Nat.lt_succ_iff, Nat.floor_lt hplace.nonneg]
      exact_mod_cast hlt
    rcases hle.lt_or_eq with hbefore | hend
    · exact .inl (valueAt_interpolates hplace hbound hbefore)
    · exact .inr ⟨hend, valueAt_eq_zero hend.ge⟩
  · intro h
    rw [hwhole]
    obtain ⟨hbefore, hlt'⟩ | ⟨hend, hlast, hgt⟩ :=
      computedPlace_cases hs ht h (Nat.pos_of_ne_zero hne) hi
    · exact .inl ⟨hbefore, (Nat.floor_lt hplace.nonneg).2 hlt'⟩
    · refine .inr ⟨hend, hlast, ?_⟩
      rw [← Nat.sub_le_iff_le_add, Nat.le_floor_iff hplace.nonneg,
        Nat.cast_pred (Nat.pos_of_ne_zero hne)]
      exact hgt.le

/-- The end of a 300th of a second of ones at 44100 samples a second, at 48000 samples a second. -/
theorem channel_fabricated :
    wholePart (position 160 / ratio 44100 48000) = 147 ∧
      (channel (ratio 44100 48000) (Array.replicate 147 1))[160]? = some 0 := by
  decide +kernel

theorem channel_interpolates_ones :
    ∃ hi : 160 < (channel (ratio 44100 48000) (Array.replicate 147 1)).size,
      160 + 1 = (channel (ratio 44100 48000) (Array.replicate 147 1)).size ∧
        (channel (ratio 44100 48000) (Array.replicate 147 1))[160] = 0 := by
  have hi : 160 < (channel (ratio 44100 48000) (Array.replicate 147 1)).size := by decide +kernel
  have hwhole : wholePart (position 160 / ratio 44100 48000) = 147 := by decide +kernel
  obtain ⟨hcases, hexact⟩ := channel_interpolates (by decide) (by decide) (by simp) hi
  obtain ⟨hbefore, -⟩ | ⟨-, hlast, -⟩ := hexact (by simp)
  · simp at hbefore
  · refine ⟨hi, hlast, (hcases.resolve_left ?_).2⟩
    rw [hwhole]
    rintro (⟨h, -⟩ | ⟨h, -⟩) <;> simp at h

end Resample
end WaveMill
