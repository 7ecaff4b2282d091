import WaveMill.Proofs.Convert.Channels

/-!
# Mixing while quantizing

Two channels can be mixed in two places: by the channel reduction, which makes a new channel of
their means, and by the quantizer, which averages every frame just before it writes the code.  The
reduction halves the sum of two samples; the quantizer adds the samples of a frame to minus zero and
divides by their number.  Minus zero disappears in the sum, whatever is added to it, and the number
is two, so both are the same operations on the same two samples.  Nothing is said about the samples:
infinities, zeros of either sign and what is not a number take the same way in both places.

## What is here

* `Quantize.average_pair` — the average of two samples is their mean.
* `Quantize.quantize_congr` — the bytes depend on the samples that are written for each frame.
* `Quantize.quantize_mix` — the two ways to mix write the same bytes.
-/

set_option autoImplicit false
namespace WaveMill
namespace Quantize

variable {l r : Channel} {bytes : UInt16} {i : Nat}

/-! ## One frame -/

theorem average_pair (l r : Float32) : average [l, r] = Buffer.mean l r := by
  have hsum : average [l, r] = (-0 + l + r) / (2 : Nat).toUInt64.toFloat32 := rfl
  have htwo : (2 : Nat).toUInt64.toFloat32 = 2 := by decide +kernel
  rw [hsum, htwo, Number.minusZero_add_add, Buffer.mean]

/-- What is written of a frame of two channels that are mixed is the sample of their mean. -/
theorem output_pair (hl : i < l.size) (hr : i < r.size) :
    output true (frame [l, r] i) = output false (frame [l.zipWith Buffer.mean r] i) := by
  have hmean : (l.zipWith Buffer.mean r).getD i 0 = Buffer.mean (l.getD i 0) (r.getD i 0) := by
    simp [Array.getD, hl, hr]
  have hmixed : output true (frame [l, r] i) = [average [l.getD i 0, r.getD i 0]] := rfl
  have hsingle : output false (frame [l.zipWith Buffer.mean r] i) =
      [(l.zipWith Buffer.mean r).getD i 0] := rfl
  rw [hmixed, hsingle, hmean, average_pair]

/-! ## All frames -/

/-- The bytes depend on nothing but what is written for each frame. -/
theorem quantize_congr {channels channels' : List Channel} {mix mix' : Bool}
    (hframes : frames (channels.take Buffer.maxChannels) =
      frames (channels'.take Buffer.maxChannels))
    (houtput : ∀ i < frames (channels.take Buffer.maxChannels),
      output mix (frame (channels.take Buffer.maxChannels) i) =
        output mix' (frame (channels'.take Buffer.maxChannels) i)) :
    quantize channels bytes mix = quantize channels' bytes mix' := by
  have hbytes : (List.range (frames (channels.take Buffer.maxChannels))).flatMap (fun i ↦
        (output mix (frame (channels.take Buffer.maxChannels) i)).flatMap (encode bytes)) =
      (List.range (frames (channels'.take Buffer.maxChannels))).flatMap (fun i ↦
        (output mix' (frame (channels'.take Buffer.maxChannels) i)).flatMap (encode bytes)) := by
    rw [← hframes]
    refine List.flatMap_congr fun i hi ↦ ?_
    rw [houtput i (List.mem_range.1 hi)]
  simp only [quantize, hbytes]

/-- Mixing a pair of channels while they are written writes the channel of their means. -/
theorem quantize_pair (l r : Channel) (bytes : UInt16) :
    quantize [l, r] bytes true = quantize [l.zipWith Buffer.mean r] bytes false := by
  have hframes : frames [l.zipWith Buffer.mean r] = min l.size r.size := Array.size_zipWith
  refine quantize_congr hframes.symm fun i hi ↦ ?_
  have hshortest : i < min l.size r.size := hi
  exact output_pair (hshortest.trans_le (min_le_left ..)) (hshortest.trans_le (min_le_right ..))

/-- **The quantizer mixes as the channel reduction does.**  The bytes of a buffer that is mixed by
the quantizer are the bytes of the buffer that was mixed before, for all samples and for every
width; and for the widths that can be written there are such bytes, one code for every frame. -/
theorem quantize_mix (b : Buffer) (bytes : UInt16) :
    quantize b.channels bytes true = (b.reduce .mix).quantize bytes ∧
      (bytes = 1 ∨ bytes = 2 → ∃ data, quantize b.channels bytes true = .ok data ∧
        data.length = b.frames * bytes.toNat) := by
  have hmixed : quantize b.channels bytes true = (b.reduce .mix).quantize bytes := by
    rcases b.length_channels_eq_or with hone | htwo
    · obtain ⟨channel, hchannels⟩ := List.length_eq_one_iff.1 hone
      rw [Buffer.reduce_of_mono hchannels, Buffer.quantize, hchannels]
      exact quantize_congr rfl fun _ _ ↦ rfl
    · obtain ⟨l, r, hchannels⟩ := List.length_eq_two.1 htwo
      have hreduced : (b.reduce .mix).channels = [l.zipWith Buffer.mean r] := by
        rw [Buffer.reduce_mix hchannels, Buffer.single]
      rw [Buffer.quantize, hreduced, hchannels, quantize_pair]
  refine ⟨hmixed, fun hwidth ↦ ?_⟩
  rw [hmixed]
  obtain ⟨data, hdata⟩ : ∃ data, (b.reduce .mix).quantize bytes = .ok data :=
    ⟨_, Buffer.quantize_eq hwidth⟩
  have hsingle : (b.reduce .mix).channels.length = 1 := by
    have := b.length_channels_pos
    rw [Buffer.length_channels_reduce]
    exact min_eq_right this
  refine ⟨data, hdata, ?_⟩
  rw [Buffer.length_quantize hwidth hdata, hsingle, Buffer.frames_reduce, Nat.mul_one]

/-- Two channels with the samples for which sums are special. -/
def special : Buffer where
  channels := [#[.ofBits 0x7fc00000, .ofBits 0x7f800000, -0, .ofBits 0x7f7fffff, 0.5],
    #[1, .ofBits 0xff800000, -0, .ofBits 0x7f7fffff, -0.25]]
  rate := 11025
  channels_ne_nil := List.cons_ne_nil _ _
  length_channels_le := by decide
  size_eq := by decide
  rate_pos := by decide

theorem quantize_mix_special :
    ∃ data, quantize special.channels 1 true = .ok data ∧
      (special.reduce .mix).quantize 1 = .ok data ∧ data.length = 5 := by
  obtain ⟨hmixed, hwritten⟩ := quantize_mix special 1
  obtain ⟨data, hdata, hlength⟩ := hwritten (.inl rfl)
  exact ⟨data, hdata, hmixed ▸ hdata, hlength⟩

end Quantize
end WaveMill
