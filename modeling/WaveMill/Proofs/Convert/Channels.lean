import WaveMill.Proofs.Convert
import WaveMill.Proofs.Number.Sum

/-!
# Which channels a file is made of

A conversion resamples every channel on its own, then drops or mixes channels, and only after that
looks at the samples as a whole, to find the peak, to normalize by it and to write the codes.  So
all that a file depends on is what the reduction leaves of the resampled recording
(`convert_congr`), and what is dropped there has been looked at by no stage at all: the half of a
stereo recording that a mode keeps gives the file that it gives as a mono recording, whatever the
other half is.

## What is here

* `Resample.toRate` and `Resample.linear_eq_ok_iff` — resampling goes channel by channel, and with
  `Resample.frames_of_linear`, `Resample.sample_of_linear` sample by sample.
* `Buffer.single_eq_reduce`, `Buffer.reduce_mix_swap` — what the reduction leaves of two channels.
* `convert_congr` — a file depends on what the reduction leaves.
* `convert_stereo` — what that means for each mode.
-/

set_option autoImplicit false
namespace WaveMill

/-- A buffer is known by its channels and its rate. -/
theorem Buffer.eq_of_channels {b c : Buffer} (hchannels : b.channels = c.channels)
    (hrate : b.rate = c.rate) : b = c := by
  cases b
  cases c
  cases hchannels
  cases hrate
  rfl

namespace Resample

/-- A channel at another rate; at the same rate it stays as it is. -/
def toRate (source target : UInt32) (samples : Channel) : Channel :=
  if source = target then samples else channel (ratio source target) samples

/-- **Every channel is resampled on its own.** -/
theorem linear_eq_ok_iff {b resampled : Buffer} {target : UInt32} :
    linear b target = .ok resampled ↔ target ≠ 0 ∧ resampled.rate = target ∧
      resampled.channels = b.channels.map (toRate b.rate target) := by
  unfold linear
  by_cases htarget : target = 0
  · simp [htarget]
  · rw [dif_neg htarget]
    split
    · rename_i hsame
      have hmap : b.channels.map (toRate b.rate target) = b.channels := by
        have hid : toRate b.rate target = id := funext fun _ ↦ if_pos hsame
        rw [hid, List.map_id]
      rw [hmap]
      constructor
      · intro h
        cases h
        exact ⟨htarget, hsame, rfl⟩
      · rintro ⟨-, hrate, hchannels⟩
        rw [Buffer.eq_of_channels hchannels (hrate.trans hsame.symm)]
    · rename_i hother
      have hmap : toRate b.rate target = channel (ratio b.rate target) :=
        funext fun _ ↦ if_neg hother
      rw [hmap]
      constructor
      · intro h
        cases h
        exact ⟨htarget, rfl, rfl⟩
      · rintro ⟨-, hrate, hchannels⟩
        exact congrArg Except.ok (Buffer.eq_of_channels hchannels.symm hrate.symm)

/-- All channels of a resampled buffer have the length that was computed. -/
theorem frames_of_linear {b resampled : Buffer} {t : UInt32} (h : linear b t = .ok resampled) :
    resampled.frames =
      if b.rate = t then b.frames
      else if b.frames = 0 then 0 else length b.frames (ratio b.rate t) := by
  obtain ⟨-, -, hchannels⟩ := linear_eq_ok_iff.1 h
  have hmem := List.head_mem b.channels_ne_nil
  have hsize : (toRate b.rate t (b.channels.head b.channels_ne_nil)).size = resampled.frames :=
    Buffer.size_of_mem (by rw [hchannels]; exact List.mem_map_of_mem hmem)
  rw [← hsize, toRate]
  split
  · exact Buffer.size_of_mem hmem
  · rw [size_channel, Buffer.size_of_mem hmem]

theorem sample_of_linear {b resampled : Buffer} {t : UInt32} (h : linear b t = .ok resampled)
    {c : ℕ} (hc : c < b.channels.length) (i : ℕ) :
    resampled.sample c i = (toRate b.rate t b.channels[c]).getD i 0 := by
  obtain ⟨-, -, hchannels⟩ := linear_eq_ok_iff.1 h
  have hchannel : resampled.channels.getD c #[] = toRate b.rate t b.channels[c] := by
    simp [hchannels, hc]
  rw [Buffer.sample, hchannel]

end Resample

namespace Buffer

variable {b c : Buffer} {l r : Channel} {rate : UInt32}

/-! ## Buffers of given channels -/

theorem exists_stereo (hsize : l.size = r.size) (hrate : 0 < rate) :
    ∃ b, stereo l r rate = .ok b ∧ b.channels = [l, r] ∧ b.rate = rate := by
  let b : Buffer :=
    { channels := [l, r]
      rate
      channels_ne_nil := List.cons_ne_nil _ _
      length_channels_le := le_rfl
      size_eq := by simp [hsize]
      rate_pos := hrate }
  exact ⟨b, ofChannels_self b, rfl, rfl⟩

theorem exists_mono (samples : Channel) (hrate : 0 < rate) :
    ∃ b, mono samples rate = .ok b ∧ b.channels = [samples] ∧ b.rate = rate := by
  let b : Buffer :=
    { channels := [samples]
      rate
      channels_ne_nil := List.cons_ne_nil _ _
      length_channels_le := Nat.le_succ 1
      size_eq := by simp
      rate_pos := hrate }
  exact ⟨b, ofChannels_self b, rfl, rfl⟩

/-! ## What the reduction leaves -/

theorem reduce_left (h : b.channels = [l, r]) : b.reduce .left = b.single l := by
  simp only [reduce, h]

theorem reduce_right (h : b.channels = [l, r]) : b.reduce .right = b.single r := by
  simp only [reduce, h]

theorem reduce_mix (h : b.channels = [l, r]) : b.reduce .mix = b.single (l.zipWith mean r) := by
  simp only [reduce, h]

/-- What is left of a buffer when one channel is kept is what every mode leaves of the mono buffer
of that channel. -/
theorem single_eq_reduce {channel : Channel} (hc : c.channels = [channel]) (hrate : b.rate = c.rate)
    (mode : ChannelMode) : b.single channel = c.reduce mode := by
  rw [reduce_of_mono hc]
  exact eq_of_channels hc.symm hrate

/-- Mixing takes no notice of which channel is the left one. -/
theorem reduce_mix_swap (hb : b.channels = [l, r]) (hc : c.channels = [r, l])
    (hrate : b.rate = c.rate) : b.reduce .mix = c.reduce .mix := by
  rw [reduce_mix hb, reduce_mix hc, Array.zipWith_comm_of_comm mean_swap]
  exact eq_of_channels rfl hrate

end Buffer

/-! ## What a file depends on -/

/-- **A file depends on what the reduction leaves of the resampled recording**, besides the rate and
the width of the format.  In particular the mode has no part in it except through the reduction. -/
theorem convert_congr {config other : Config} {b c : Buffer} (hrate : config.rate = other.rate)
    (hbytes : config.bytes = other.bytes)
    (h : ∀ resampled resampled', Resample.linear b config.rate = .ok resampled →
      Resample.linear c config.rate = .ok resampled' →
      resampled.reduce config.mode = resampled'.reduce other.mode) :
    convert Resample.linear config b = convert Resample.linear other c := by
  have hvalidate : config.validate = other.validate := by
    rw [Config.validate, Config.validate, hrate, hbytes]
  rw [convert, convert, hvalidate, hbytes, transcode, transcode, ← hrate]
  by_cases hzero : config.rate = 0
  · have hrefused (raw : Buffer) : Resample.linear raw 0 = .error (.resample .zeroTarget) := rfl
    simp only [hzero, hrefused, Outcome.error_bind]
  · obtain ⟨x, hx, -⟩ := Resample.linear_eq_ok (b := b) hzero
    obtain ⟨y, hy, -⟩ := Resample.linear_eq_ok (b := c) hzero
    rw [hx, hy, Outcome.ok_bind, Outcome.ok_bind, h x y hx hy]

/-- **A file holds nothing of a channel that was dropped.**  The left mode makes of a stereo
recording the file that its left channel gives as a mono recording, the right mode the one of its
right channel, and mixing gives the same file whichever channel is the left one.  A mono recording
gives the same file in every mode. -/
theorem convert_stereo {l r : Channel} {rate : UInt32} (hsize : l.size = r.size)
    (hrate : 0 < rate) :
    ∃ stereo swapped left right, Buffer.stereo l r rate = .ok stereo ∧
      Buffer.stereo r l rate = .ok swapped ∧ Buffer.mono l rate = .ok left ∧
      Buffer.mono r rate = .ok right ∧
      ∀ config : Config,
        convert Resample.linear { config with mode := .left } stereo =
          convert Resample.linear { config with mode := .left } left ∧
        convert Resample.linear { config with mode := .right } stereo =
          convert Resample.linear { config with mode := .right } right ∧
        convert Resample.linear { config with mode := .mix } stereo =
          convert Resample.linear { config with mode := .mix } swapped ∧
        ∀ mode, convert Resample.linear { config with mode } left =
          convert Resample.linear config left := by
  obtain ⟨stereo, hstereo, hstereoChannels, hstereoRate⟩ := Buffer.exists_stereo hsize hrate
  obtain ⟨swapped, hswapped, hswappedChannels, hswappedRate⟩ :=
    Buffer.exists_stereo hsize.symm hrate
  obtain ⟨left, hleft, hleftChannels, hleftRate⟩ := Buffer.exists_mono l hrate
  obtain ⟨right, hright, hrightChannels, hrightRate⟩ := Buffer.exists_mono r hrate
  refine ⟨stereo, swapped, left, right, hstereo, hswapped, hleft, hright, fun config ↦
    ⟨convert_congr rfl rfl fun x y hx hy ↦ ?_, convert_congr rfl rfl fun x y hx hy ↦ ?_,
      convert_congr rfl rfl fun x y hx hy ↦ ?_, fun mode ↦
      convert_congr rfl rfl fun x y hx hy ↦ ?_⟩⟩
  all_goals
    obtain ⟨-, hxRate, hxChannels⟩ := Resample.linear_eq_ok_iff.1 hx
    obtain ⟨-, hyRate, hyChannels⟩ := Resample.linear_eq_ok_iff.1 hy
  · rw [hstereoChannels, hstereoRate] at hxChannels
    rw [hleftChannels, hleftRate] at hyChannels
    rw [Buffer.reduce_left hxChannels]
    exact Buffer.single_eq_reduce hyChannels (hxRate.trans hyRate.symm) .left
  · rw [hstereoChannels, hstereoRate] at hxChannels
    rw [hrightChannels, hrightRate] at hyChannels
    rw [Buffer.reduce_right hxChannels]
    exact Buffer.single_eq_reduce hyChannels (hxRate.trans hyRate.symm) .right
  · rw [hstereoChannels, hstereoRate] at hxChannels
    rw [hswappedChannels, hswappedRate] at hyChannels
    exact Buffer.reduce_mix_swap hxChannels hyChannels (hxRate.trans hyRate.symm)
  · rw [hleftChannels] at hxChannels hyChannels
    have hsame : x = y := Buffer.eq_of_channels (hxChannels.trans hyChannels.symm)
      (hxRate.trans hyRate.symm)
    rw [hsame, Buffer.reduce_of_mono hyChannels, Buffer.reduce_of_mono hyChannels]

/-- The right channel is the louder one, and the left mode does not hear it. -/
theorem convert_stereo_loudRight :
    ∃ stereo left, Buffer.stereo #[0.5, -0.25] #[3, 1] 8000 = .ok stereo ∧
      Buffer.mono #[0.5, -0.25] 8000 = .ok left ∧
      convert Resample.linear ⟨16000, 1, .left⟩ stereo =
        convert Resample.linear ⟨16000, 1, .left⟩ left ∧
      (convert Resample.linear ⟨16000, 1, .left⟩ stereo).map (List.drop 44) =
        .ok [254, 158, 63, 63] := by
  have hsize : (#[0.5, -0.25] : Channel).size = (#[3, 1] : Channel).size := rfl
  have hrate : (0 : UInt32) < 8000 := by decide
  obtain ⟨stereo, swapped, left, right, hstereo, -, hleft, -, hfiles⟩ := convert_stereo hsize hrate
  have hcodes : (Buffer.mono #[0.5, -0.25] 8000 >>= convert Resample.linear ⟨16000, 1, .left⟩).map
      (List.drop 44) = .ok [254, 158, 63, 63] := by
    decide +kernel
  have hfile := (hfiles ⟨16000, 1, .both⟩).1
  rw [hleft, Outcome.ok_bind] at hcodes
  exact ⟨stereo, left, hstereo, hleft, hfile, by rw [hfile, hcodes]⟩

end WaveMill
