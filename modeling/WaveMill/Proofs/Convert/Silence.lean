import WaveMill.Proofs.Buffer.Peak
import WaveMill.Proofs.Convert.Channels
import WaveMill.Proofs.Normalize
import WaveMill.Proofs.Resample.Places
import WaveMill.Proofs.Wave.Nearness

/-!
# Silence

A silent buffer has zeros for samples, of either sign.  No stage before the codes does anything to
it: a weighted sum of zeros is zero as long as the weights are finite, which those of the resampler
are; the mean of two zeros is zero; and there is no peak to normalize.  So every sample of it gets
the code of zero.

What this code is read as is a matter of the width.  Two bytes are a signed word, and zero is read
as zero; so the file of a silent buffer is silent, and converting it again changes nothing about
that.  One byte counts from below, half of the `254` steps make `127`, and the reader puts its zero
at `128`.  So it reads one step below zero, everywhere.  That is a buffer with a peak, and the next
normalization brings it to full scale.

## What is here

* `Buffer.IsSilent` — all samples are zero.
* `IsSilent.linear`, `IsSilent.reduce`, `IsSilent.normalize_eq` — the stages of a conversion, and
  `IsSilent.transcode`, all of them.
* `IsSilent.quantize_eq` — the bytes of a silent buffer.
* `Buffer.ConvertsToSilence` — what is left of silence by a conversion.
* `decode_render_silent` — what is read of its file.
* `decode_render_hush` — a silent buffer that is not read as one.
-/

set_option autoImplicit false
namespace WaveMill

open Number

variable {x y : Float32} {bytes : UInt16}

/-! ## The codes of zero -/

namespace Quantize

/-- The byte that the codes of zero consist of. -/
def silentByte (bytes : UInt16) : UInt8 := if bytes = 2 then 0 else 127

theorem level_of_silent (h : value? x = some 0) : level x = 0 := by
  rw [level_of_value? h]
  norm_num

theorem toInt_code16_of_silent (h : value? x = some 0) : (code16 x).toInt = 0 := by
  rw [toInt_code16 (isNaN_of_value? h), level_of_silent h, posPart_zero, negPart_zero, sub_self]

theorem toNat_code8_of_silent (h : value? x = some 0) : (code8 x).toNat = 127 := by
  rw [toNat_code8 (isNaN_of_value? h), level_of_silent h, zero_add,
    rounded_of_representable representable_one]
  exact_mod_cast steps_natCast (k := 1) (by norm_num)

theorem encode_of_silent (hwidth : bytes = 1 ∨ bytes = 2) (h : value? x = some 0) :
    encode bytes x = List.replicate bytes.toNat (silentByte bytes) := by
  rcases hwidth with rfl | rfl
  · have hcode : code8 x = 127 := UInt8.toNat_inj.1 (toNat_code8_of_silent h)
    have hencode : encode 1 x = [code8 x] := rfl
    rw [hencode, hcode]
    rfl
  · have hcode : code16 x = 0 := Int16.toInt_inj.1 (toInt_code16_of_silent h)
    have hencode : encode 2 x = Bytes.ofWord16 (code16 x).toUInt16 := rfl
    rw [hencode, hcode]
    rfl

end Quantize

/-! ## Resampling -/

namespace Resample

variable {samples : Channel} {p : Float} {a : ℚ} {s t : UInt32}

/-- A weighted sum of zeros is zero, and so is what is held or missing. -/
theorem value?_valueAt (hp : IsWide p .positive a) (hsize : samples.size ≤ 2 ^ 53)
    (h : ∀ y ∈ samples, value? y = some 0) : value? (valueAt samples p) = some 0 := by
  simp only [valueAt]
  split
  case isTrue hlt =>
    have ha : a ≤ 2 ^ 53 := by
      have hword : 2 ^ 53 ≤ maxWord := by decide
      have hfloor : ⌊a⌋₊ < 2 ^ 53 := by
        rw [hp.wholePart_eq] at hlt
        omega
      rw [Nat.floor_lt hp.nonneg] at hfloor
      exact_mod_cast hfloor.le
    -- Both weights are finite, and that is all that matters about them.
    obtain ⟨w, hw, hone⟩ := isNarrow_fraction hp ha
    have hle : rounded .binary32 (1 - w) ≤ 1 :=
      rounded_le representable_one (by linarith) (by linarith [hw.nonneg])
    have hrest := isNarrow_one.sub hw hone (hle.trans_lt (by norm_num))
    exact value?_zero_add (value?_zero_mul (h _ (Array.getElem_mem _)) hrest)
      (value?_zero_mul (h _ (Array.getElem_mem _)) hw)
  case isFalse =>
    split
    · exact h _ (Array.getElem_mem _)
    · exact isNarrow_zero.value?_eq

theorem value?_channel (hs : 0 < s.toNat) (ht : 0 < t.toNat) (hsize : samples.size ≤ 2 ^ 53)
    (h : ∀ y ∈ samples, value? y = some 0) :
    ∀ y ∈ channel (ratio s t) samples, value? y = some 0 := by
  intro y hy
  obtain ⟨i, hi, rfl⟩ := Array.getElem_of_mem hy
  have hindex : i < 2 ^ 64 := by
    have hlength : i < length samples.size (ratio s t) := by
      rw [size_channel] at hi
      split at hi
      · exact absurd hi (Nat.not_lt_zero i)
      · exact hi
    rw [length_eq_ceil hs] at hlength
    exact (hlength.trans_le (min_le_right ..)).trans (by decide)
  rw [getElem_channel hi]
  exact value?_valueAt (isWide_place hs ht hindex) hsize h

end Resample

/-! ## The samples of a buffer -/

namespace Buffer

variable {b : Buffer}

theorem sample_mem {c i : ℕ} (hc : c < b.channels.length) (hi : i < b.frames) :
    b.sample c i ∈ b.samples := by
  have hsize : i < b.channels[c].size := (size_getElem hc).symm ▸ hi
  rw [sample_eq_getElem hc hsize]
  exact List.mem_flatMap.2
    ⟨_, List.getElem_mem hc, Array.mem_toList_iff.2 (Array.getElem_mem hsize)⟩

theorem mem_samples_of_mem_interleave (h : x ∈ b.interleave) : x ∈ b.samples := by
  obtain ⟨j, hj, rfl⟩ := Array.getElem_of_mem h
  rw [getElem_interleave hj]
  rw [size_interleave] at hj
  exact sample_mem (Nat.mod_lt _ b.length_channels_pos)
    ((Nat.div_lt_iff_lt_mul b.length_channels_pos).2 hj)

theorem samples_ne_nil (h : 0 < b.frames) : b.samples ≠ [] :=
  List.ne_nil_of_mem (sample_mem b.length_channels_pos h)

theorem samples_eq_nil (h : b.frames = 0) : b.samples = [] := by
  refine List.flatMap_eq_nil_iff.2 fun channel hchannel ↦ ?_
  rw [Array.toList_eq_nil_iff, ← Array.size_eq_zero_iff, size_of_mem hchannel, h]

/-! ## Silent buffers -/

/-- All samples are zero. -/
def IsSilent (b : Buffer) : Prop := ∀ x ∈ b.samples, value? x = some 0

instance : Decidable b.IsSilent := inferInstanceAs (Decidable (∀ x ∈ b.samples, value? x = some 0))

theorem isSilent_iff : b.IsSilent ↔ ∀ channel ∈ b.channels, ∀ x ∈ channel, value? x = some 0 := by
  simp only [IsSilent, samples, List.mem_flatMap, Array.mem_toList_iff]
  grind

theorem value?_mean (hx : value? x = some 0) (hy : value? y = some 0) :
    value? (mean x y) = some 0 := by
  have htwo : IsNarrow 2 .positive ((8388608 : ℕ) * 2 ^ (-22 : ℤ)) :=
    Denotes.finite .positive (by decide) (by decide)
  exact value?_zero_div (value?_zero_add hx hy) htwo (by norm_num)

/-- A conversion leaves silence: the samples that are ready are silent, all their codes are those of
zero, and if these are of two bytes and not too many for a file, silence is read of it again. -/
def ConvertsToSilence (b : Buffer) (config : Config) : Prop :=
  ∃ ready, transcode Resample.linear config b = .ok ready ∧ ready.IsSilent ∧
    let size := ready.frames * ready.channels.length * config.bytes.toNat
    ready.quantize config.bytes =
      .ok (List.replicate size (Quantize.silentByte config.bytes)) ∧
    (size ≤ 2 ^ 32 - 37 → ∃ wave, convert Resample.linear config b = .ok wave ∧
      (config.bytes = 2 → ∀ name, ∃ again, Wave.decode name wave = .ok again ∧ again.IsSilent))

namespace IsSilent

theorem linear {target : UInt32} {resampled : Buffer} (h : b.IsSilent) (hframes : b.frames ≤ 2 ^ 53)
    (hresampled : Resample.linear b target = .ok resampled) : resampled.IsSilent := by
  obtain ⟨htarget, -, hchannels⟩ := Resample.linear_eq_ok_iff.1 hresampled
  rw [isSilent_iff, hchannels, List.forall_mem_map]
  intro samples hsamples
  have hzeros := isSilent_iff.1 h samples hsamples
  rw [Resample.toRate]
  split
  · exact hzeros
  · have hsource : 0 < b.rate.toNat := b.rate_pos
    have hpositive : 0 < target.toNat :=
      Nat.pos_of_ne_zero fun hzero ↦ htarget (UInt32.toNat_inj.1 hzero)
    exact Resample.value?_channel hsource hpositive ((size_of_mem hsamples).trans_le hframes) hzeros

theorem reduce (h : b.IsSilent) (mode : ChannelMode) : (b.reduce mode).IsSilent := by
  rw [isSilent_iff] at h
  unfold Buffer.reduce
  split
  case h_1 l r hchannels =>
    simpa [isSilent_iff, single] using h l (by simp [hchannels])
  case h_2 l r hchannels =>
    simpa [isSilent_iff, single] using h r (by simp [hchannels])
  case h_3 l r hchannels =>
    have hl := h l (by simp [hchannels])
    have hr := h r (by simp [hchannels])
    simp only [isSilent_iff, single, List.mem_singleton, forall_eq]
    intro x hx
    obtain ⟨i, hi, rfl⟩ := Array.getElem_of_mem hx
    rw [Array.getElem_zipWith]
    exact value?_mean (hl _ (Array.getElem_mem _)) (hr _ (Array.getElem_mem _))
  case h_4 => exact isSilent_iff.2 h

theorem peak_eq (h : b.IsSilent) : b.peak = 0 := by
  rw [Buffer.peak_eq]
  refine foldl_louder_of_not_lt fun x hx ↦ ?_
  obtain ⟨s, hs⟩ := value?_eq_zero_iff.1 (h x hx)
  rw [isNarrow_zero.lt_iff hs.abs]
  exact lt_irrefl _

theorem normalization_eq (h : b.IsSilent) : b.normalization = .silent := by
  rw [normalization, h.peak_eq]
  decide +kernel

theorem normalize_eq (h : b.IsSilent) : b.normalize = b :=
  normalize_of_not_scaled (.inl h.normalization_eq)

/-- Up to the codes a conversion keeps silence. -/
theorem transcode {config : Config} {ready : Buffer} (h : b.IsSilent) (hframes : b.frames ≤ 2 ^ 53)
    (hready : transcode Resample.linear config b = .ok ready) : ready.IsSilent := by
  obtain ⟨resampled, hresampled, hrest⟩ := Outcome.bind_eq_ok_iff.1 hready
  obtain rfl : _ = ready := Except.ok.inj hrest
  have hreduced := (h.linear hframes hresampled).reduce config.mode
  rwa [hreduced.normalize_eq]

/-- Zeros in two bytes are read as zeros. -/
theorem throughCode_two (h : b.IsSilent) : (b.mapSamples (Wave.throughCode 2)).IsSilent := by
  rw [IsSilent, samples_mapSamples, List.forall_mem_map]
  intro x hx
  rw [Wave.value?_throughCode_two, Quantize.toInt_code16_of_silent (h x hx)]
  norm_num

/-- The bytes of silence are all the same. -/
theorem quantize_eq (h : b.IsSilent) (hwidth : bytes = 1 ∨ bytes = 2) :
    b.quantize bytes = .ok (List.replicate (b.frames * b.channels.length * bytes.toNat)
      (Quantize.silentByte bytes)) := by
  have hdata := Buffer.quantize_eq (b := b) hwidth
  rw [hdata, Except.ok.injEq, List.eq_replicate_iff]
  refine ⟨length_quantize hwidth hdata, fun code hcode ↦ ?_⟩
  obtain ⟨x, hx, hcode⟩ := List.mem_flatMap.1 hcode
  rw [Quantize.encode_of_silent hwidth (h x (mem_samples_of_mem_interleave
    (Array.mem_toList_iff.1 hx)))] at hcode
  exact List.eq_of_mem_replicate hcode

/-- Whatever silence is converted to, silence is left of it. -/
theorem convertsToSilence {config : Config} (h : b.IsSilent) (hframes : b.frames ≤ 2 ^ 53)
    (hvalid : config.validate = .ok ()) : b.ConvertsToSilence config := by
  obtain ⟨-, ready, -, -, hready, -, hrate, -⟩ := ready_of_valid b hvalid
  obtain ⟨hwidth, -⟩ := Config.validate_eq_ok_iff.1 hvalid
  have hsilent := h.transcode hframes hready
  refine ⟨ready, hready, hsilent, hsilent.quantize_eq hwidth, fun hlength ↦ ?_⟩
  obtain ⟨wave, hrender, hdecode⟩ :=
    Wave.render_readable hwidth hlength (byteRate_lt hvalid hrate)
  refine ⟨wave, ?_, fun htwo name ↦ ⟨_, hdecode name, htwo ▸ hsilent.throughCode_two⟩⟩
  rw [convert, hvalid, Outcome.ok_bind, hready, Outcome.ok_bind, hrender]

end IsSilent
end Buffer

/-! ## The file of a silent buffer -/

namespace Wave

/-- One step below zero, of the steps that one byte is read with. -/
def offset : Float32 := .ofBits 0xbc000000

theorem throughCode_one_of_silent (h : value? x = some 0) : throughCode 1 x = offset := by
  have hread : throughCode 1 x = Coding.integer8.value (Quantize.encode 1 x) := rfl
  rw [hread, Quantize.encode_of_silent (.inl rfl) h]
  decide +kernel

theorem value?_offset : value? offset = some (-1 / 128) := by
  have hzero : value? 0 = some 0 := isNarrow_zero.value?_eq
  rw [← throughCode_one_of_silent hzero, value?_throughCode_one,
    Quantize.toNat_code8_of_silent hzero]
  norm_num

end Wave

namespace Buffer

open Wave (offset)

variable {b : Buffer}

theorem peak_of_offset (hframes : 0 < b.frames) (h : ∀ x ∈ b.samples, x = offset) :
    b.peak = offset.abs := by
  have hne := samples_ne_nil hframes
  rw [Buffer.peak_eq]
  cases hsamples : b.samples with
  | nil => exact absurd hsamples hne
  | cons x rest =>
    rw [hsamples] at h
    have hfirst : louder 0 x = offset.abs := by
      rw [h x (List.mem_cons_self ..)]
      decide +kernel
    rw [List.foldl_cons, hfirst]
    refine foldl_louder_of_not_lt fun y hy ↦ ?_
    rw [h y (List.mem_cons_of_mem _ hy)]
    decide +kernel

/-- A buffer that is one step below zero everywhere is brought to full scale. -/
theorem normalize_of_offset (hframes : 0 < b.frames) (h : ∀ x ∈ b.samples, x = offset) :
    b.normalization = .scaled 128 ∧ ∀ x ∈ b.normalize.samples, value? x = some (-1) := by
  have hscaled : b.normalization = .scaled 128 := by
    rw [normalization, peak_of_offset hframes h]
    decide +kernel
  have hfull : offset * 128 = -1 := by decide +kernel
  refine ⟨hscaled, ?_⟩
  simp only [normalize, hscaled, samples_mapSamples, List.forall_mem_map]
  intro x hx
  rw [h x hx, hfull, Quantize.isNarrow_negativeOne.value?_eq]
  rfl

end Buffer

/-- **What is read of the file of a silent buffer.**  With two bytes, or without any samples, it is
silent again: normalizing it does nothing, and converting it again, to whatever is accepted, leaves
silence.  With one byte every sample is read one step below zero, and normalizing that brings all of
them to full scale. -/
theorem decode_render_silent {b : Buffer} (name : String) (hwidth : bytes = 1 ∨ bytes = 2)
    (hlength : b.frames * b.channels.length * bytes.toNat ≤ 2 ^ 32 - 37)
    (hrate : b.rate.toNat * b.channels.length * bytes.toNat < 2 ^ 32) (hsilent : b.IsSilent) :
    ∃ wave decoded, b.render bytes = .ok wave ∧ Wave.decode name wave = .ok decoded ∧
      decoded.rate = b.rate ∧ decoded.channels.length = b.channels.length ∧
      decoded.frames = b.frames ∧
      (bytes = 2 ∨ b.frames = 0 →
        decoded.IsSilent ∧ decoded.normalization = .silent ∧
        ∀ config : Config, config.validate = .ok () → decoded.ConvertsToSilence config) ∧
      (bytes = 1 → 0 < b.frames →
        (∀ x ∈ decoded.samples, value? x = some (-1 / 128)) ∧
        decoded.normalization = .scaled 128 ∧
        ∀ x ∈ decoded.normalize.samples, value? x = some (-1)) := by
  obtain ⟨wave, hrender, hdecode⟩ := Wave.render_readable hwidth hlength hrate
  refine ⟨wave, _, hrender, hdecode name, Buffer.rate_mapSamples,
    Buffer.length_channels_mapSamples, Buffer.frames_mapSamples, fun hkept ↦ ?_, ?_⟩
  · have hdecoded : (b.mapSamples (Wave.throughCode bytes)).IsSilent := by
      rcases hkept with rfl | hempty
      · exact hsilent.throughCode_two
      · intro x hx
        rw [Buffer.samples_mapSamples, Buffer.samples_eq_nil hempty] at hx
        cases hx
    have hframes : (b.mapSamples (Wave.throughCode bytes)).frames ≤ 2 ^ 53 := by
      have hpos : 0 < bytes.toNat := by
        rcases hwidth with rfl | rfl <;> decide
      have hchannels := Nat.le_mul_of_pos_right b.frames b.length_channels_pos
      have hbytes := Nat.le_mul_of_pos_right (b.frames * b.channels.length) hpos
      rw [Buffer.frames_mapSamples]
      omega
    exact ⟨hdecoded, hdecoded.normalization_eq, fun config ↦ hdecoded.convertsToSilence hframes⟩
  · rintro rfl hframes
    have hoffset : ∀ x ∈ (b.mapSamples (Wave.throughCode 1)).samples, x = Wave.offset := by
      rw [Buffer.samples_mapSamples, List.forall_mem_map]
      exact fun x hx ↦ Wave.throughCode_one_of_silent (hsilent x hx)
    rw [← Buffer.frames_mapSamples (f := Wave.throughCode 1)] at hframes
    refine ⟨fun x hx ↦ ?_, Buffer.normalize_of_offset hframes hoffset⟩
    rw [hoffset x hx, Wave.value?_offset]

/-- Two frames of zeros of both signs. -/
def pause : Buffer where
  channels := [#[0, -0], #[-0, 0]]
  rate := 24000
  channels_ne_nil := List.cons_ne_nil _ _
  length_channels_le := by decide
  size_eq := by decide
  rate_pos := by decide

theorem decode_render_silent_pause :
    ∃ wave decoded ready, pause.render 2 = .ok wave ∧ Wave.decode "pause.wav" wave = .ok decoded ∧
      decoded.normalization = .silent ∧
      transcode Resample.linear ⟨8000, 1, .mix⟩ decoded = .ok ready ∧ ready.IsSilent := by
  obtain ⟨wave, decoded, hrender, hdecode, -, -, -, hkept, -⟩ :=
    decode_render_silent (b := pause) "pause.wav" (.inr rfl) (by decide) (by decide)
      (by decide +kernel)
  obtain ⟨-, hnormalization, hagain⟩ := hkept (.inl rfl)
  obtain ⟨ready, hready, hsilent, -⟩ := hagain ⟨8000, 1, .mix⟩ (by decide)
  exact ⟨wave, decoded, ready, hrender, hdecode, hnormalization, hready, hsilent⟩

/-- One sample of silence. -/
def hush : Buffer where
  channels := [#[0]]
  rate := 64000
  channels_ne_nil := List.cons_ne_nil _ _
  length_channels_le := by decide
  size_eq := by decide
  rate_pos := by decide

/-- A silent buffer, within all limits, whose file of one byte per sample is not silent and is
amplified when it is normalized. -/
theorem decode_render_hush :
    hush.IsSilent ∧ hush.frames * hush.channels.length * 1 ≤ 2 ^ 32 - 37 ∧
      hush.rate.toNat * hush.channels.length * 1 < 2 ^ 32 ∧
      ∃ wave decoded, hush.render 1 = .ok wave ∧ Wave.decode "hush.wav" wave = .ok decoded ∧
        ¬decoded.IsSilent ∧ decoded.normalization = .scaled 128 := by
  obtain ⟨wave, hrender, hdecode⟩ :=
    Wave.render_readable (b := hush) (.inl rfl) (by decide) (by decide)
  refine ⟨by decide +kernel, by decide, by decide, wave, _, hrender, hdecode _, ?_, ?_⟩
  · intro h
    have hmem : Wave.throughCode 1 0 ∈ (hush.mapSamples (Wave.throughCode 1)).samples := by
      rw [Buffer.samples_mapSamples]
      exact List.mem_map_of_mem (List.mem_singleton.2 rfl)
    have hzero := h _ hmem
    rw [Wave.throughCode_one_of_silent isNarrow_zero.value?_eq, Wave.value?_offset] at hzero
    norm_num at hzero
  · decide +kernel

end WaveMill
