import WaveMill.Proofs.Buffer.Duration
import WaveMill.Proofs.Convert.Channels
import WaveMill.Registry

/-!
# How good the estimated size is

The size of a conversion is estimated before anything is converted: the duration times the rate
times the bytes per frame, to the nearest whole number.  The conversion itself gets its length in
another way, from the ratio of the rates times the length, rounded up to whole frames.  Both are the
exact length times the ratio of the rates, up to two roundings each, in a different order.  As long
as the sizes fit a file the two numbers differ by far less than one frame: by less than a sixteenth
of one, and so by less than half a byte for a frame of four bytes.

What is left is what rounding does to them.  The number of bytes is a whole number of frames, the
next one above the computed length.  The estimate is not rounded up, so it can be short by what was
missing to a whole frame, but by no more; and it cannot be above, since it would have to get over
the whole number of frames by half a byte.

## What is here

* `Resample.computedSpan` — the number of samples that the duration asks for, exactly.
* `Resample.exists_near` — the number of samples after resampling is a number near that, rounded up.
* `Resample.floor_near_ceil` — what the two roundings to whole numbers leave of two numbers that are
  near each other.
* `Asset.estimate_eq` — the estimate, exactly.
* `Asset.estimate_within_frame` — how far the estimate can be off.
-/

set_option autoImplicit false
namespace WaveMill

open Number

namespace Resample

variable {s t : UInt32} {x y z : ℚ}

/-! ## Two ways to compute a length -/

/-- The samples that a number of them becomes, computed by way of the duration. -/
def computedSpan (x : ℚ) (s t : UInt32) : ℚ :=
  rounded .binary64 (rounded .binary64 (x / s.toNat) * t.toNat)

theorem computedSpan_bounds (hs : 0 < s.toNat) (ht : 0 < t.toNat) (hx : x = 0 ∨ 1 ≤ x) :
    x * t.toNat / s.toNat * (1 - 1 / 2 ^ 53) ^ 2 ≤ computedSpan x s t ∧
      computedSpan x s t ≤ x * t.toNat / s.toNat * (1 + 1 / 2 ^ 53) ^ 2 := by
  have hduration : x / s.toNat = 0 ∨ 1 / 2 ^ 32 ≤ x / s.toNat := by
    obtain rfl | hx := hx
    · exact .inl (zero_div _)
    · exact .inr (le_div_rate hs hx)
  rw [← div_mul_eq_mul_div]
  exact rounded_mul_rounded_bounds hduration (.inr (by exact_mod_cast ht))

/-- Two numbers that are off from a third one by two roundings are near each other, if they are not
larger than a file can be. -/
theorem near_of_bounds
    (hy : x * (1 - 1 / 2 ^ 53) ^ 2 ≤ y ∧ y ≤ x * (1 + 1 / 2 ^ 53) ^ 2)
    (hz : x * (1 - 1 / 2 ^ 53) ^ 2 ≤ z ∧ z ≤ x * (1 + 1 / 2 ^ 53) ^ 2) (hfits : z ≤ 2 ^ 32) :
    |y - z| ≤ 1 / 16 := by
  obtain ⟨hylow, hyhigh⟩ := hy
  obtain ⟨hzlow, hzhigh⟩ := hz
  norm_num at hylow hyhigh hzlow hzhigh hfits
  rw [abs_le]
  constructor <;> linarith

/-- The number of samples after resampling is rounded up from a number that is near the one that the
duration asks for. -/
theorem exists_near {b resampled : Buffer} (hresampled : linear b t = .ok resampled)
    (hfits : resampled.frames < 2 ^ 32) :
    ∃ z : ℚ, resampled.frames = ⌈z⌉₊ ∧ 0 ≤ z ∧
      |computedSpan (computedLength b.frames) b.rate t - z| ≤ 1 / 16 := by
  have hs := b.rate_toNat_pos
  have ht : 0 < t.toNat :=
    Nat.pos_of_ne_zero fun h ↦ (linear_eq_ok_iff.1 hresampled).1 (UInt32.toNat_inj.1 h)
  have hspan := computedSpan_bounds hs ht (computedLength_eq_zero_or b.frames)
  rw [frames_of_linear hresampled] at hfits ⊢
  split at hfits
  case isTrue hsame =>
    -- At the same rate the length is not computed, and the duration asks for nearly that length.
    have hlength : computedLength b.frames = b.frames :=
      computedLength_of_le (hfits.le.trans (by norm_num))
    have hexact : (b.frames * t.toNat / b.rate.toNat : ℚ) = b.frames := by
      rw [hsame, mul_div_cancel_right₀ _ (by exact_mod_cast ht.ne')]
    rw [hlength, hexact] at hspan
    rw [if_pos hsame, hlength]
    have hle : (b.frames : ℚ) ≤ 2 ^ 32 := by exact_mod_cast hfits.le
    refine ⟨b.frames, (Nat.ceil_natCast _).symm, Nat.cast_nonneg _, near_of_bounds hspan ?_ hle⟩
    have hnonneg : (0 : ℚ) ≤ b.frames := Nat.cast_nonneg _
    norm_num
    constructor <;> linarith
  case isFalse hother =>
    set product := rounded .binary64 (computedLength b.frames * computedRatio b.rate t)
    have hlength : (if b.frames = 0 then 0 else length b.frames (ratio b.rate t)) =
        min ⌈product⌉₊ maxWord := by
      split
      case isTrue hempty => simp [product, hempty, computedLength]
      case isFalse => exact length_eq_ceil hs
    rw [if_neg hother, hlength]
    rw [hlength] at hfits
    have hword : 2 ^ 32 ≤ maxWord := by decide
    have hceil : ⌈product⌉₊ ≤ 2 ^ 32 := by omega
    refine ⟨product, min_eq_left (hceil.trans hword), rounded_nonneg, near_of_bounds hspan
      (rounded_mul_computedRatio_bounds hs ht (computedLength_eq_zero_or _)) ?_⟩
    exact (Nat.le_ceil product).trans (by exact_mod_cast hceil)

/-- Bytes that are rounded to the nearest whole number, and frames that are rounded up, of numbers
that are near each other. -/
theorem floor_near_ceil {k : ℕ} (hk : k ≤ 4) (hz : 0 ≤ z) (hnear : |y - z| ≤ 1 / 16) :
    ⌊y * k + 1 / 2⌋₊ ≤ ⌈z⌉₊ * k ∧ ⌈z⌉₊ * k ≤ ⌊y * k + 1 / 2⌋₊ + k := by
  obtain ⟨hlow, hhigh⟩ := abs_le.1 hnear
  have hk4 : (k : ℚ) ≤ 4 := by exact_mod_cast hk
  have hk0 : (0 : ℚ) ≤ k := Nat.cast_nonneg k
  have hlower : z * k - 1 / 4 ≤ y * k := by nlinarith
  have hupper : y * k ≤ z * k + 1 / 4 := by nlinarith
  constructor
  · have hceil : z * k ≤ ⌈z⌉₊ * k := mul_le_mul_of_nonneg_right (Nat.le_ceil z) hk0
    refine Nat.lt_succ_iff.1 ((Nat.floor_lt' (Nat.succ_ne_zero _)).2 ?_)
    push_cast
    linarith
  · rw [← Nat.sub_le_iff_le_add, ← Nat.sub_one_mul]
    refine Nat.le_floor ?_
    have hbelow : ((⌈z⌉₊ - 1 : ℕ) : ℚ) ≤ z := by
      rcases Nat.eq_zero_or_pos ⌈z⌉₊ with hzero | hpos
      · simpa [hzero] using hz
      · rw [Nat.cast_pred hpos]
        linarith [Nat.ceil_lt_add_one hz]
    have := mul_le_mul_of_nonneg_right hbelow hk0
    push_cast
    linarith

end Resample

namespace Asset

open Resample

variable {config : Config}

/-- The duration times the rate, as it is computed, is not too large to go on with. -/
theorem computedSpan_le (b : Buffer) (t : UInt32) :
    computedSpan (computedLength b.frames) b.rate t ≤ 2 ^ 96 := by
  have hrate : (t.toNat : ℚ) ≤ 2 ^ 32 := by exact_mod_cast t.toNat_lt.le
  refine rounded_le (representable_two_pow 96)
    (mul_nonneg rounded_nonneg (Nat.cast_nonneg _)) ?_
  exact (mul_le_mul b.computedDuration_le hrate (Nat.cast_nonneg _) (by positivity)).trans
    (by norm_num)

theorem outputChannels_eq_or (mode : ChannelMode) (b : Buffer) :
    mode.outputChannels b.channels.length = 1 ∨ mode.outputChannels b.channels.length = 2 := by
  rw [← Buffer.length_channels_reduce]
  exact (b.reduce mode).length_channels_eq_or

theorem exists_eq_two_pow {m : ℕ} (hm : m = 1 ∨ m = 2) : ∃ k ≤ 1, m = 2 ^ k := by
  obtain rfl | rfl := hm
  · exact ⟨0, zero_le_one, rfl⟩
  · exact ⟨1, le_rfl, rfl⟩

/-- The estimate is what the duration asks for, times the bytes of a frame, to the nearest whole
number; multiplying by one or by two is exact. -/
theorem estimate_eq (asset : Asset) (hwidth : config.bytes.toNat = 1 ∨ config.bytes.toNat = 2) :
    asset.estimate config =
      min ⌊computedSpan (computedLength asset.buffer.frames) asset.buffer.rate config.rate *
        (config.mode.outputChannels asset.buffer.channels.length * config.bytes.toNat : ℕ) +
          1 / 2⌋₊ maxWord := by
  have hchannels := outputChannels_eq_or config.mode asset.buffer
  obtain ⟨j, hj, hbytes⟩ := exists_eq_two_pow hwidth
  obtain ⟨k, hk, hcount⟩ := exists_eq_two_pow hchannels
  have hspan := computedSpan_le asset.buffer config.rate
  have hproduct := asset.buffer.isWide_duration.mul (isWide_rate config.rate)
    (hspan.trans_lt (pow_lt_pow_right₀ one_lt_two (by norm_num)))
  obtain ⟨hbyWidth, hle⟩ :=
    hproduct.mul_two_pow hbytes (isWide_width config.bytes) hspan (by omega)
  have hcountWide :=
    isWide_computedLength (config.mode.outputChannels asset.buffer.channels.length)
  rw [computedLength_of_le (by omega)] at hcountWide
  obtain ⟨hall, -⟩ := hbyWidth.mul_two_pow hcount hcountWide hle (by omega)
  rw [mul_comm (config.mode.outputChannels _), Nat.cast_mul, ← mul_assoc]
  exact hall.nearest_eq

/-- **The estimate is the size of the samples, or less by at most one frame.**  The description has
to be accepted, and the samples have to fit a file; then there is a file, and behind its header
stand as many bytes as there are samples times their width. -/
theorem estimate_within_frame (asset : Asset) (hvalid : config.validate = .ok ()) :
    ∃ resampled ready data, linear asset.buffer config.rate = .ok resampled ∧
      transcode linear config asset.buffer = .ok ready ∧
      ready.quantize config.bytes = .ok data ∧
      let frame := config.mode.outputChannels asset.buffer.channels.length * config.bytes.toNat
      data.length = resampled.frames * frame ∧
      (data.length < 2 ^ 32 - 36 →
        ∃ wave, convert linear config asset.buffer = .ok wave ∧
          wave.length = 44 + data.length ∧
          data.length ≤ asset.estimate config + frame ∧ asset.estimate config ≤ data.length) := by
  obtain ⟨resampled, ready, data, hresampled, hready, hdata, hlength, hfile⟩ :=
    convert_of_valid asset.buffer hvalid
  obtain ⟨hwidth, -⟩ := Config.validate_eq_ok_iff.1 hvalid
  have hbytes := Buffer.toNat_width hwidth
  have hchannels := outputChannels_eq_or config.mode asset.buffer
  rw [mul_assoc] at hlength
  refine ⟨resampled, ready, data, hresampled, hready, hdata, hlength, fun hfits ↦ ?_⟩
  obtain ⟨wave, hwave, hwaveLength, -⟩ := hfile (by omega)
  refine ⟨wave, hwave, hwaveLength, ?_⟩
  have hframe : 1 ≤ config.mode.outputChannels asset.buffer.channels.length *
      config.bytes.toNat ∧
      config.mode.outputChannels asset.buffer.channels.length * config.bytes.toNat ≤ 4 := by
    rcases hbytes with h | h <;> rcases hchannels with h' | h' <;> rw [h, h'] <;> decide
  have hframes : resampled.frames ≤ data.length := by
    rw [hlength]
    exact Nat.le_mul_of_pos_right _ hframe.1
  obtain ⟨z, hz, hnonneg, hnear⟩ := exists_near hresampled (by omega)
  obtain ⟨hle, hge⟩ := floor_near_ceil hframe.2 hnonneg hnear
  have hword : 2 ^ 32 ≤ maxWord := by decide
  rw [estimate_eq asset hbytes, hlength, hz]
  rw [hlength, hz] at hfits
  omega

/-- A recording of one frame, at a rate much higher than the one that it is converted to. -/
def brief : Asset where
  name := "brief.wav"
  buffer :=
    { channels := [#[0.25], #[0]]
      rate := 192000
      channels_ne_nil := List.cons_ne_nil _ _
      length_channels_le := by decide
      size_eq := by decide
      rate_pos := by decide }
  sourceSize := 48

/-- The estimate can be short by the whole of a frame: of a twenty-fourth of one nothing is left,
and yet there is one. -/
theorem estimate_within_frame_brief :
    brief.estimate ⟨8000, 2, .both⟩ = 0 ∧
      ∃ wave, convert linear ⟨8000, 2, .both⟩ brief.buffer = .ok wave ∧ wave.length = 44 + 4 := by
  refine ⟨by decide +kernel, ?_⟩
  obtain ⟨resampled, -, data, hresampled, -, -, hlength, hfile⟩ :=
    @estimate_within_frame ⟨8000, 2, .both⟩ brief rfl
  have hframes : resampled.frames = 1 :=
    (frames_of_linear hresampled).trans (by decide +kernel)
  have hdata : data.length = 4 := by
    rw [hlength, hframes]
    rfl
  rw [hdata] at hfile
  obtain ⟨wave, hwave, hwaveLength, -⟩ := hfile (by decide)
  exact ⟨wave, hwave, hwaveLength⟩

end Asset
end WaveMill
