import WaveMill.Proofs.Convert.Channels
import WaveMill.Proofs.Resample.Places

/-!
# Resampling to a multiple of a rate

When the target rate is `k` times the source rate, the ratio is a whole number and so is the length,
and a `binary64` number holds both.  The place of output sample `i` is the quotient of `i` by `k`,
rounded.  On the grid, where `k` divides `i`, it is a whole number and nothing is rounded: the
weight of the right neighbour is zero, and that of the sample itself is one.  Off the grid the
quotient is at least one over `k` below the next whole number.  That is more than a rounding can
bridge as long as all indices have no more than 53 bits, so the whole part of the place is that of
the exact quotient.  Behind the last sample there is then no right neighbour, and the last sample is
held.

## What is here

* `Resample.computedRatio_of_multiple`, `Resample.length_of_multiple` — the ratio and the length.
* `Resample.wholePart_of_multiple` — the whole part of a place.
* `Resample.value?_channel_of_multiple`, `Resample.getD_channel_last_of_multiple` — what is read on
  the grid, and from the place of the last sample on.
* `Resample.linear_multiple` — the samples of a resampled buffer.
-/

set_option autoImplicit false
namespace WaveMill
namespace Resample

open Number

variable {k n i : ℕ} {s t : UInt32} {samples : Channel} {x : Float}

/-! ## Ratio, length and places -/

/-- The ratio is not rounded. -/
theorem computedRatio_of_multiple (hs : 0 < s.toNat) (ht : t.toNat = k * s.toNat) :
    computedRatio s t = k := by
  have hrate : (s.toNat : ℚ) ≠ 0 := by exact_mod_cast hs.ne'
  have hk : k ≤ 2 ^ 53 := by
    have hle := Nat.le_mul_of_pos_right k hs
    have hlt := t.toNat_lt
    omega
  rw [computedRatio, ht, Nat.cast_mul, mul_div_cancel_right₀ _ hrate, rounded_natCast hk]

/-- There are `k` samples for every one that there was. -/
theorem length_of_multiple (hs : 0 < s.toNat) (ht : t.toNat = k * s.toNat) (hk : 0 < k)
    (hn : n * k < 2 ^ 53) : length n (ratio s t) = n * k := by
  have hsize : n ≤ 2 ^ 53 := (Nat.le_mul_of_pos_right n hk).trans hn.le
  have hword : n * k ≤ maxWord := hn.le.trans (by decide)
  have hproduct : computedProduct n s t = (n * k : ℕ) := by
    rw [computedProduct, computedRatio_of_multiple hs ht, ← Nat.cast_mul, rounded_natCast hn.le]
  rw [length_eq_min hs hsize, hproduct, Nat.ceil_natCast, min_eq_left hword]

theorem computedPlace_of_multiple (hs : 0 < s.toNat) (ht : t.toNat = k * s.toNat)
    (hi : i ≤ 2 ^ 53) : computedPlace i s t = rounded .binary64 (i / k) := by
  rw [computedPlace, computedRatio_of_multiple hs ht, rounded_natCast hi]

/-- A quotient that lies below a whole number by one over `k` is rounded to a number below it. -/
theorem rounded_div_lt (hk : 0 < k) (hk' : k ≤ 2 ^ 32) (hn : n * k < 2 ^ 53) (hi : i < n * k) :
    rounded .binary64 (i / k) < n := by
  have hpos : (0 : ℚ) < k := by exact_mod_cast hk
  rcases i.eq_zero_or_pos with rfl | hi'
  · have hsize : 0 < n := Nat.pos_of_mul_pos_right hi
    rw [Nat.cast_zero, zero_div, rounded_zero]
    exact_mod_cast hsize
  · have hnormal : (1 / 2 ^ 32 : ℚ) ≤ i / k := by
      have hone : (1 : ℚ) ≤ i := by exact_mod_cast hi'
      have hless : (k : ℚ) ≤ 2 ^ 32 := by exact_mod_cast hk'
      gcongr
    have hbelow : (i + 1 : ℚ) ≤ n * k := by exact_mod_cast hi
    have herror : (i * (1 / 2 ^ 53) : ℚ) < 1 := by
      rw [mul_one_div, div_lt_one (by positivity)]
      exact_mod_cast hi.trans hn
    calc rounded .binary64 (i / k)
        ≤ i / k * (1 + 1 / 2 ^ 53) := rounded_wide_le hnormal
      _ = i * (1 + 1 / 2 ^ 53) / k := by ring
      _ < n * k / k := div_lt_div_of_pos_right (by linarith) hpos
      _ = n := mul_div_cancel_right₀ _ hpos.ne'

/-- The whole part of a place is that of the exact quotient. -/
theorem floor_rounded_div (hk : 0 < k) (hk' : k ≤ 2 ^ 32) (hn : n * k < 2 ^ 53) (hi : i < n * k) :
    ⌊rounded .binary64 (i / k)⌋₊ = i / k := by
  have hquotient : i / k < n := (Nat.div_lt_iff_lt_mul hk).2 hi
  have hle : i / k ≤ 2 ^ 53 :=
    (hquotient.le.trans (Nat.le_mul_of_pos_right n hk)).trans hn.le
  have hnext : (i / k + 1) * k ≤ n * k := Nat.mul_le_mul_right k hquotient
  rw [Nat.floor_eq_iff rounded_nonneg]
  constructor
  · exact le_rounded (representable_natCast hle) (Nat.cast_nonneg _) Nat.cast_div_le
  · have hup : i < (i / k + 1) * k := Nat.lt_mul_of_div_lt (Nat.lt_succ_self _) hk
    exact_mod_cast rounded_div_lt hk hk' (hnext.trans_lt hn) hup

theorem isWide_place_of_multiple (hs : 0 < s.toNat) (ht : t.toNat = k * s.toNat) (hk : 0 < k)
    (hi : i ≤ 2 ^ 53) : IsWide (position i / ratio s t) .positive (rounded .binary64 (i / k)) := by
  rw [← computedPlace_of_multiple hs ht hi]
  exact isWide_place hs (ht ▸ Nat.mul_pos hk hs) (hi.trans_lt (by norm_num))

theorem wholePart_of_multiple (hs : 0 < s.toNat) (ht : t.toNat = k * s.toNat) (hk : 0 < k)
    (hn : n * k < 2 ^ 53) (hi : i < n * k) : wholePart (position i / ratio s t) = i / k := by
  have hk' : k ≤ 2 ^ 32 := by
    have hle := Nat.le_mul_of_pos_right k hs
    have hlt := t.toNat_lt
    omega
  have hword : i / k ≤ maxWord := (Nat.div_le_self i k).trans ((hi.trans hn).le.trans (by decide))
  rw [(isWide_place_of_multiple hs ht hk (hi.trans hn).le).wholePart_eq,
    floor_rounded_div hk hk' hn hi, min_eq_left hword]

/-! ## The samples that are read -/

/-- At a whole number the sample there is read, as long as it and its neighbour are finite. -/
theorem value?_valueAt_of_natCast (hx : IsWide x .positive i) (hi : i ≤ 2 ^ 53)
    (hsize : i < samples.size) (hfinite : ∀ y ∈ samples, y.isFinite = true) :
    ∃ q, value? samples[i] = some q ∧ value? (valueAt samples x) = some q := by
  have hwhole : wholePart x = i := by
    rw [hx.wholePart_eq, Nat.floor_natCast, min_eq_left (hi.trans (by decide))]
  obtain ⟨s, a, ha, -⟩ := exists_isNarrow (hfinite _ (Array.getElem_mem hsize))
  refine ⟨signed s a, ha.value?_eq, ?_⟩
  have hweight : IsNarrow (narrow (x - position i)) .positive 0 := by
    have hposition : IsWide (position i) .positive i := by
      simpa only [rounded_natCast hi] using isWide_position (hi.trans_lt (by norm_num))
    have hless := hx.sub hposition le_rfl (by rw [sub_self, rounded_zero]; positivity)
    rw [sub_self, rounded_zero] at hless
    simpa only [rounded_zero] using hless.narrow (by rw [rounded_zero]; positivity)
  simp only [valueAt, hwhole]
  split
  case isTrue hnext =>
    obtain ⟨s', b, hb, -⟩ := exists_isNarrow (hfinite _ (Array.getElem_mem hnext))
    have hone : IsNarrow (1 - narrow (x - position i)) .positive 1 := by
      have hless := isNarrow_one.sub hweight zero_le_one (by
        rw [sub_zero, rounded_of_representable representable_one]
        norm_num)
      rwa [sub_zero, rounded_of_representable representable_one] at hless
    have hkept : IsNarrow (samples[i] * (1 - narrow (x - position i))) (s * .positive) a := by
      have hexact : rounded .binary32 (a * 1) = a := by
        rw [mul_one, rounded_of_representable ha.representable]
      have hproduct := ha.mul hone (by rw [hexact]; exact ha.lt_limit)
      rwa [hexact] at hproduct
    have hnothing : value? (samples[i + 1] * narrow (x - position i)) = some 0 := by
      have hproduct := hb.mul hweight (by rw [mul_zero, rounded_zero]; positivity)
      rw [mul_zero, rounded_zero] at hproduct
      exact value?_eq_zero_iff.2 ⟨_, hproduct⟩
    rw [hkept.value?_add_zero hnothing]
    cases s <;> rfl
  case isFalse => exact ha.value?_eq

/-- Behind all other samples the last one is held. -/
theorem valueAt_last (h : wholePart x + 1 = samples.size)
    (hlast : samples.size - 1 < samples.size) :
    valueAt samples x = samples[samples.size - 1] := by
  simp only [valueAt]
  rw [dif_neg (by omega), dif_pos (by omega)]
  congr 1
  omega

/-! ## Resampled buffers -/

/-- What becomes of a channel, sample by sample. -/
theorem getD_channel_of_multiple (hs : 0 < s.toNat) (ht : t.toNat = k * s.toNat) (hk : 0 < k)
    (hn : samples.size * k < 2 ^ 53) (hi : i < samples.size * k) :
    (channel (ratio s t) samples).getD i 0 = valueAt samples (position i / ratio s t) := by
  have hsize : 0 < samples.size := Nat.pos_of_mul_pos_right (Nat.zero_lt_of_lt hi)
  have hi' : i < (channel (ratio s t) samples).size := by
    rwa [size_channel, if_neg hsize.ne', length_of_multiple hs ht hk hn]
  rw [Array.getD, dif_pos hi']
  exact getElem_channel hi'

/-- On the grid the samples of the original are read. -/
theorem value?_channel_of_multiple (hs : 0 < s.toNat) (ht : t.toNat = k * s.toNat) (hk : 0 < k)
    (hn : samples.size * k < 2 ^ 53) (hi : i < samples.size)
    (hfinite : ∀ y ∈ samples, y.isFinite = true) :
    ∃ q, value? samples[i] = some q ∧
      value? ((channel (ratio s t) samples).getD (k * i) 0) = some q := by
  have hindex : k * i < samples.size * k := by
    rw [Nat.mul_comm]
    exact (Nat.mul_lt_mul_right hk).2 hi
  have hle : i ≤ 2 ^ 53 := (Nat.le_mul_of_pos_left i hk).trans (hindex.trans hn).le
  have hplace := isWide_place_of_multiple hs ht hk (hindex.trans hn).le
  rw [Nat.cast_mul, mul_div_cancel_left₀ _ (by exact_mod_cast hk.ne'), rounded_natCast hle]
    at hplace
  rw [getD_channel_of_multiple hs ht hk hn hindex]
  exact value?_valueAt_of_natCast hplace hle hi hfinite

/-- From the place of the last sample on there is no right neighbour. -/
theorem getD_channel_last_of_multiple (hs : 0 < s.toNat) (ht : t.toNat = k * s.toNat) (hk : 0 < k)
    (hn : samples.size * k < 2 ^ 53) (hlow : (samples.size - 1) * k ≤ i)
    (hhigh : i < samples.size * k) (hlast : samples.size - 1 < samples.size) :
    (channel (ratio s t) samples).getD i 0 = samples[samples.size - 1] := by
  have hfirst : samples.size - 1 ≤ i / k := (Nat.le_div_iff_mul_le hk).2 hlow
  have hnext : i / k < samples.size := (Nat.div_lt_iff_lt_mul hk).2 hhigh
  have hwhole : wholePart (position i / ratio s t) + 1 = samples.size := by
    rw [wholePart_of_multiple hs ht hk hn hhigh]
    omega
  rw [getD_channel_of_multiple hs ht hk hn hhigh, valueAt_last hwhole hlast]

/-- **Raising the rate to a multiple keeps every sample.**  There are `k` samples for every sample
that there was.  In a channel of finite samples, every `k`-th one is, as a number, a sample of the
original, in the same order; and the last `k` samples of a channel are its last sample. -/
theorem linear_multiple (b : Buffer) {target : UInt32} (hk : 2 ≤ k)
    (htarget : target.toNat = k * b.rate.toNat) (hframes : b.frames * k < 2 ^ 53) :
    ∃ b', linear b target = .ok b' ∧ b'.rate = target ∧
      b'.channels.length = b.channels.length ∧ b'.frames = k * b.frames ∧
      ∀ c (hc : c < b.channels.length),
        ((∀ x ∈ b.channels[c], x.isFinite = true) → ∀ i < b.frames,
          ∃ q, value? (b.sample c i) = some q ∧ value? (b'.sample c (k * i)) = some q) ∧
        ∀ i, k * (b.frames - 1) ≤ i → i < k * b.frames →
          b'.sample c i = b.sample c (b.frames - 1) := by
  have hs : 0 < b.rate.toNat := UInt32.lt_iff_toNat_lt.1 b.rate_pos
  have hpos : 0 < k := Nat.zero_lt_of_lt hk
  have hless : b.rate.toNat < target.toNat := htarget ▸ (Nat.lt_mul_iff_one_lt_left hs).2 hk
  have hchanged : b.rate ≠ target := fun heq ↦ hless.ne (congrArg UInt32.toNat heq)
  have hnonzero : target ≠ 0 := fun hzero ↦ by simp [hzero] at hless
  obtain ⟨b', hresampled, hrate, hlength⟩ := linear_eq_ok (b := b) hnonzero
  refine ⟨b', hresampled, hrate, hlength, ?_, fun c hc ↦ ?_⟩
  · rw [frames_of_linear hresampled, if_neg hchanged, length_of_multiple hs htarget hpos hframes]
    split
    case isTrue hempty => rw [hempty, Nat.mul_zero]
    case isFalse => exact Nat.mul_comm ..
  · have hsize : b.channels[c].size = b.frames := Buffer.size_getElem hc
    rw [← hsize] at hframes ⊢
    have hread (i : ℕ) : b'.sample c i =
        (channel (ratio b.rate target) b.channels[c]).getD i 0 := by
      rw [sample_of_linear hresampled hc, toRate, if_neg hchanged]
    constructor
    · intro hfinite i hi
      rw [hread, Buffer.sample_eq_getElem hc hi]
      exact value?_channel_of_multiple hs htarget hpos hframes hi hfinite
    · intro i hlow hhigh
      rw [Nat.mul_comm] at hlow hhigh
      have hlast : b.channels[c].size - 1 < b.channels[c].size :=
        Nat.sub_one_lt_of_lt (Nat.pos_of_mul_pos_right (Nat.zero_lt_of_lt hhigh))
      rw [hread, Buffer.sample_eq_getElem hc hlast]
      exact getD_channel_last_of_multiple hs htarget hpos hframes hlow hhigh hlast

/-- Three samples, one of them minus zero, at 11000 samples a second. -/
def triple : Buffer where
  channels := [#[1, -0, 0.5]]
  rate := 11000
  channels_ne_nil := List.cons_ne_nil _ _
  length_channels_le := by decide
  size_eq := by decide
  rate_pos := by decide

theorem linear_multiple_triple :
    ∃ b', linear triple 33000 = .ok b' ∧ b'.frames = 9 ∧
      value? (b'.sample 0 3) = some 0 ∧ b'.sample 0 7 = 0.5 := by
  obtain ⟨b', hresampled, -, -, hframes, hsamples⟩ :=
    linear_multiple triple (k := 3) (by decide) (show (33000 : UInt32).toNat = _ by decide)
      (by decide)
  obtain ⟨hkept, hlast⟩ := hsamples 0 (by decide)
  obtain ⟨q, hq, hq'⟩ := hkept (by decide +kernel) 1 (by decide)
  have hzero : value? (triple.sample 0 1) = some 0 := by decide +kernel
  obtain rfl := Option.some.inj (hzero.symm.trans hq)
  exact ⟨b', hresampled, hframes, hq', hlast 7 (by decide) (by decide)⟩

end Resample
end WaveMill
