import WaveMill.Convert
import WaveMill.Proofs.Wave.RoundTrip

/-!
# The whole conversion

A conversion with a description that is accepted cannot fail on the way: every stage takes what the
one before it left, and the shape of the result is known from the start.  The rate is settled by
resampling, the length as well, the number of channels by the channel mode and the width by the
description, so the numbers in the header, which come from the last buffer and the description, are
the ones that were asked for.  Only a file that is too long for its length field gets no answer.

## What is here

* Laws on each stage: what it changes of the rate, the channels and the length, and what it leaves
  alone.
* `ready_of_valid` — what is written in the end, of a description that is accepted, and
  `convert_of_valid`, the file that it is written to.
* `convert_linear` — the conversion fails as the check of the description does, and otherwise its
  result is a canonical wave file of the expected size.
-/

set_option autoImplicit false
namespace WaveMill

namespace Buffer

variable {b : Buffer}

/-! ## What the stages do to the shape of a buffer -/

theorem frames_single (channel : Channel) : (b.single channel).frames = channel.size := rfl

@[simp]
theorem frames_reduce (mode : ChannelMode) : (b.reduce mode).frames = b.frames := by
  unfold reduce
  split
  · rename_i l r hchannels
    have hl : l ∈ b.channels := by simp [hchannels]
    exact size_of_mem hl
  · rename_i l r hchannels
    have hr : r ∈ b.channels := by simp [hchannels]
    exact size_of_mem hr
  · rename_i l r hchannels
    have hl : l.size = b.frames := size_of_mem (by simp [hchannels])
    have hr : r.size = b.frames := size_of_mem (by simp [hchannels])
    rw [frames_single, Array.size_zipWith, hl, hr, Nat.min_self]
  · rfl

/-- The channels that a mode leaves are as many as it announces. -/
theorem length_channels_reduce (mode : ChannelMode) :
    (b.reduce mode).channels.length = mode.outputChannels b.channels.length := by
  rcases b.length_channels_eq_or with hone | htwo
  · obtain ⟨channel, hchannel⟩ := List.length_eq_one_iff.1 hone
    rw [reduce_of_mono hchannel, hone]
    cases mode <;> rfl
  · obtain ⟨l, r, hchannels⟩ := List.length_eq_two.1 htwo
    rw [htwo]
    cases mode <;> simp [reduce, hchannels, single, ChannelMode.outputChannels]

@[simp]
theorem frames_normalize : b.normalize.frames = b.frames := by
  unfold normalize
  split
  · exact frames_mapSamples
  · rfl

end Buffer

/-- Resampling to a rate that is not zero settles the rate and keeps the channels. -/
theorem Resample.linear_eq_ok {b : Buffer} {target : UInt32} (htarget : target ≠ 0) :
    ∃ resampled, linear b target = .ok resampled ∧ resampled.rate = target ∧
      resampled.channels.length = b.channels.length := by
  unfold linear
  rw [dif_neg htarget]
  split
  · exact ⟨b, rfl, by assumption, rfl⟩
  · exact ⟨_, rfl, rfl, by simp⟩

/-! ## The conversion -/

variable {config : Config}

/-- What is written for a description that is accepted: the samples that are ready, which have the
rate of the description, the channels of its mode and the length of the resampled recording, and
their bytes. -/
theorem ready_of_valid (raw : Buffer) (hvalid : config.validate = .ok ()) :
    ∃ resampled ready data, Resample.linear raw config.rate = .ok resampled ∧
      transcode Resample.linear config raw = .ok ready ∧ ready.quantize config.bytes = .ok data ∧
      ready.rate = config.rate ∧
      ready.channels.length = config.mode.outputChannels raw.channels.length ∧
      ready.frames = resampled.frames := by
  obtain ⟨hwidth, hlow, -⟩ := Config.validate_eq_ok_iff.1 hvalid
  have hrate : config.rate ≠ 0 := by
    intro hzero
    rw [hzero] at hlow
    exact absurd hlow (by decide)
  obtain ⟨resampled, hresampled, hresampledRate, hchannels⟩ :=
    Resample.linear_eq_ok (b := raw) hrate
  refine ⟨resampled, (resampled.reduce config.mode).normalize, _, hresampled, ?_,
    Buffer.quantize_eq hwidth, ?_, ?_, ?_⟩
  · rw [transcode, hresampled]
    rfl
  · rw [Buffer.rate_normalize, Buffer.rate_reduce, hresampledRate]
  · rw [Buffer.length_channels_normalize, Buffer.length_channels_reduce, hchannels]
  · rw [Buffer.frames_normalize, Buffer.frames_reduce]

/-- The steps after the check of a description fail in no other way than by an abort. -/
theorem onlyAborts_convert (raw : Buffer) (hvalid : config.validate = .ok ()) :
    Outcome.OnlyAborts (convert Resample.linear config raw) := by
  obtain ⟨_, ready, data, -, hready, hdata, -⟩ := ready_of_valid raw hvalid
  rw [convert, hvalid, Outcome.ok_bind, hready, Outcome.ok_bind, Buffer.render, hdata,
    Outcome.ok_bind]
  exact Wave.onlyAborts_file

/-- The samples of a description that is accepted have no more bytes per second than fit. -/
theorem byteRate_lt {ready : Buffer} (hvalid : config.validate = .ok ())
    (hrate : ready.rate = config.rate) :
    ready.rate.toNat * ready.channels.length * config.bytes.toNat < 2 ^ 32 := by
  obtain ⟨hwidth, -, hhigh⟩ := Config.validate_eq_ok_iff.1 hvalid
  rw [hrate, Nat.mul_assoc]
  calc config.rate.toNat * (ready.channels.length * config.bytes.toNat)
      ≤ 64000 * 4 := Nat.mul_le_mul hhigh (ready.length_channels_mul_width_le hwidth)
    _ < 2 ^ 32 := by decide

/-- A description that is accepted gives a canonical wave file of the samples that are ready, unless
the file would be too long for its header. -/
theorem convert_of_valid (raw : Buffer) (hvalid : config.validate = .ok ()) :
    ∃ resampled ready data, Resample.linear raw config.rate = .ok resampled ∧
      transcode Resample.linear config raw = .ok ready ∧
      ready.quantize config.bytes = .ok data ∧
      let channels := config.mode.outputChannels raw.channels.length
      data.length = resampled.frames * channels * config.bytes.toNat ∧
      (data.length ≤ 2 ^ 32 - 37 →
        ∃ wave, convert Resample.linear config raw = .ok wave ∧
          wave.length = 44 + data.length ∧
          Wave.Canonical wave channels config.rate config.bytes.toNat data) := by
  obtain ⟨resampled, ready, data, hresampled, hready, hdata, hrate, hchannels, hframes⟩ :=
    ready_of_valid raw hvalid
  obtain ⟨hwidth, -⟩ := Config.validate_eq_ok_iff.1 hvalid
  have hlength := Buffer.length_quantize hwidth hdata
  rw [hframes, hchannels] at hlength
  refine ⟨resampled, ready, data, hresampled, hready, hdata, hlength, fun hfits ↦ ?_⟩
  obtain ⟨wave, hwave, hwaveLength, hcanonical⟩ :=
    Wave.file_canonical (Wave.fits_of_le (b := ready) hwidth hfits (byteRate_lt hvalid hrate))
  refine ⟨wave, ?_, hwaveLength, ?_⟩
  · rw [convert, hvalid, Outcome.ok_bind, hready, Outcome.ok_bind, Buffer.render, hdata,
      Outcome.ok_bind, hwave]
  · rwa [hchannels, hrate] at hcanonical

/-- **A conversion fails exactly as the check of its description does, and otherwise writes a wave
file of the shape that was asked for.**  Behind a header of 44 bytes, in which every field tells the
truth about the file, stand the bytes of the samples that are ready; there are as many frames as the
resampled recording has.  The only reason not to get there is a file too long for its header. -/
theorem convert_linear (config : Config) (raw : Buffer) :
    (∀ failure, (∀ abort, failure ≠ .aborted abort) →
      (convert Resample.linear config raw = .error failure ↔ config.validate = .error failure)) ∧
    (∀ failure, config.validate = .error failure →
      convert Resample.linear config raw = .error failure) ∧
    (config.validate = .ok () →
      ∃ resampled ready data, Resample.linear raw config.rate = .ok resampled ∧
        transcode Resample.linear config raw = .ok ready ∧
        ready.quantize config.bytes = .ok data ∧
        let channels := config.mode.outputChannels raw.channels.length
        data.length = resampled.frames * channels * config.bytes.toNat ∧
        (data.length ≤ 2 ^ 32 - 37 →
          ∃ wave, convert Resample.linear config raw = .ok wave ∧
            wave.length = 44 + resampled.frames * channels * config.bytes.toNat ∧
            Wave.Canonical wave channels config.rate config.bytes.toNat data)) := by
  have hinvalid (failure : Failure) (h : config.validate = .error failure) :
      convert Resample.linear config raw = .error failure := by
    rw [convert, h, Outcome.error_bind]
  refine ⟨fun failure hfailure ↦ ⟨fun h ↦ ?_, hinvalid failure⟩, hinvalid, fun hvalid ↦ ?_⟩
  · cases hvalid : config.validate with
    | error fault =>
      obtain rfl : fault = failure := Except.error.inj ((hinvalid fault hvalid).symm.trans h)
      rfl
    | ok =>
      obtain ⟨abort, rfl⟩ := onlyAborts_convert raw hvalid failure h
      exact absurd rfl (hfailure abort)
  · obtain ⟨resampled, ready, data, hresampled, hready, hdata, hlength, hfile⟩ :=
      convert_of_valid raw hvalid
    refine ⟨resampled, ready, data, hresampled, hready, hdata, hlength, fun hfits ↦ ?_⟩
    obtain ⟨wave, hwave, hwaveLength, hcanonical⟩ := hfile hfits
    exact ⟨wave, hwave, by rw [hwaveLength, hlength], hcanonical⟩

end WaveMill
