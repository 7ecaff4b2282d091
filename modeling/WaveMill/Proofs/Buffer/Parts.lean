import WaveMill.Buffer.Tone
import WaveMill.Decode
import WaveMill.Proofs.Convert.Channels

/-!
# Channels that promise nothing

A buffer carries three promises in its type: it has one channel or two, its channels are equally
long, and its rate is positive.  Here are the same operations on channels and a rate that promise
nothing.  What comes from outside is checked (`Parts.checked`).  What is computed from a buffer is
not checked but asserted (`Parts.asserted`), so that a broken promise would show as a stop of its
own kind, and so would a channel that is taken out where there is none.

Each operation is compared with the one on buffers: on the parts of a buffer it stops with the same
failure, or leaves the parts of the buffer that the other one leaves.  So an assertion has nothing
to find.  That the channels are still equally long is the point of interest in two places: when
interleaved samples are dealt out frame by frame (`Parts.deal_eq`), and when every channel is
resampled on its own (`Parts.lift_linear`).

## What is here

* `Parts`, `Parts.Sound` — channels and a rate, and what a buffer promises of them.
* `Parts.checked`, `Parts.asserted` — promises checked, and promises asserted.
* `Parts.lift` — what an operation on buffers comes to without the promises.
* `Parts.ofInterleaved`, `Parts.tone`, `Parts.resample`, `Parts.reduce`, `Parts.normalize`,
  `Parts.transcode` — the operations, each with its law.
* `Parts.opened`, `Parts.ofContents` — files, in two steps with one law (`Parts.lift_ofContents`).
-/

set_option autoImplicit false
namespace WaveMill

/-- Channels and a rate, of which nothing is known. -/
structure Parts where
  channels : List Channel
  rate : UInt32
  deriving DecidableEq

/-- The channels and the rate of a buffer. -/
def Buffer.parts (b : Buffer) : Parts := ⟨b.channels, b.rate⟩

namespace Parts

/-- What a buffer promises. -/
structure Sound (p : Parts) : Prop where
  count : p.channels.length = 1 ∨ p.channels.length = 2
  sizes : ∀ c ∈ p.channels, ∀ d ∈ p.channels, c.size = d.size
  rate_pos : 0 < p.rate

/-- Why an operation on parts stops. -/
inductive Stop where
  /-- The operation fails. -/
  | failed (failure : Failure)
  /-- An assertion about the parts does not hold. -/
  | asserted (fault : ShapeFault)
  /-- A channel is to be taken out that is not there. -/
  | noChannel (index : Nat)
  deriving DecidableEq

variable {p : Parts} {b : Buffer}

/-! ## Promises checked and asserted -/

/-- What is wrong with some parts. -/
def fault? (p : Parts) : Option ShapeFault :=
  if p.channels = [] ∨ Buffer.maxChannels < p.channels.length then
    some (.channelCount p.channels.length)
  else if p.channels.any fun c ↦ c.size != (p.channels.headD #[]).size then some .unequalLengths
  else if p.rate = 0 then some .zeroRate
  else none

/-- Parts that come from outside. -/
def checked (p : Parts) : Except Stop Parts :=
  match p.fault? with
  | none => .ok p
  | some fault => .error (.failed (.buffer fault))

/-- Parts that were computed from a buffer. -/
def asserted (p : Parts) : Except Stop Parts :=
  match p.fault? with
  | none => .ok p
  | some fault => .error (.asserted fault)

/-- What an operation on buffers comes to without the promises. -/
def lift : Outcome Buffer → Except Stop Parts
  | .ok b => .ok b.parts
  | .error failure => .error (.failed failure)

theorem any_size_ne_eq_false_iff {channels : List Channel} (h : channels ≠ []) :
    (channels.any fun c ↦ c.size != (channels.headD #[]).size) = false ↔
      ∀ c ∈ channels, ∀ d ∈ channels, c.size = d.size := by
  obtain ⟨first, rest, rfl⟩ := List.exists_cons_of_ne_nil h
  rw [List.any_eq_false, List.headD_cons]
  simp only [bne_iff_ne, ne_eq, Decidable.not_not]
  constructor
  · intro hfirst c hc d hd
    rw [hfirst c hc, hfirst d hd]
  · intro hall c hc
    exact hall c hc first List.mem_cons_self

/-- **Nothing is wrong with some parts exactly if they keep what a buffer promises.** -/
theorem fault?_eq_none_iff : p.fault? = none ↔ p.Sound := by
  rw [fault?]
  constructor
  · intro h
    split at h
    · cases h
    · rename_i hcount
      obtain ⟨hne, hle⟩ := not_or.1 hcount
      split at h
      · cases h
      · rename_i hsizes
        split at h
        · cases h
        · rename_i hrate
          have hpos := List.length_pos_iff.2 hne
          rw [Buffer.maxChannels] at hle
          refine ⟨by omega, ?_, UInt32.pos_iff_ne_zero.2 hrate⟩
          exact (any_size_ne_eq_false_iff hne).1 (Bool.eq_false_iff.2 hsizes)
  · intro h
    have hlength := h.count
    have hne : p.channels ≠ [] := List.length_pos_iff.1 (by omega)
    have hle : ¬Buffer.maxChannels < p.channels.length := by
      rw [Buffer.maxChannels]
      omega
    rw [if_neg (not_or.2 ⟨hne, hle⟩), (any_size_ne_eq_false_iff hne).2 h.sizes]
    exact if_neg (UInt32.pos_iff_ne_zero.1 h.rate_pos)

theorem sound_parts (b : Buffer) : b.parts.Sound where
  count := b.length_channels_eq_or
  sizes := b.size_eq
  rate_pos := b.rate_pos

/-- Parts that are those of a buffer pass the assertions. -/
theorem asserted_parts (b : Buffer) : b.parts.asserted = .ok b.parts := by
  rw [asserted, fault?_eq_none_iff.2 (sound_parts b)]

/-- Parts from outside are checked as the channels of a buffer are. -/
theorem lift_ofChannels (channels : List Channel) (rate : UInt32) :
    lift (Buffer.ofChannels channels rate) = checked ⟨channels, rate⟩ := by
  have hcount : (channels = [] ∨ Buffer.maxChannels < channels.length) ↔
      ¬(channels ≠ [] ∧ channels.length ≤ 2) := by
    rw [Decidable.not_and_iff_not_or_not, Decidable.not_not, Nat.not_le, Buffer.maxChannels]
  rw [Buffer.ofChannels, checked, fault?]
  split
  · rename_i h
    rw [if_neg (mt hcount.1 (not_not_intro h))]
    split
    · rename_i hsizes
      rw [(any_size_ne_eq_false_iff h.1).2 hsizes, if_neg Bool.false_ne_true]
      split
      · rename_i hrate
        rw [if_neg (UInt32.pos_iff_ne_zero.1 hrate)]
        rfl
      · rename_i hrate
        rw [if_pos (Decidable.not_not.1 (mt UInt32.pos_iff_ne_zero.2 hrate))]
        rfl
    · rename_i hsizes
      rw [if_pos (Bool.of_not_eq_false (mt (any_size_ne_eq_false_iff h.1).1 hsizes))]
      rfl
  · rename_i h
    rw [if_pos (hcount.2 h)]
    rfl

/-- What follows an operation on buffers is compared with what follows it on their parts. -/
theorem lift_bind {x : Outcome Buffer} {f : Buffer → Outcome Buffer}
    {g : Parts → Except Stop Parts} (h : ∀ b, lift (f b) = g b.parts) :
    lift (x >>= f) = lift x >>= g := by
  cases x with
  | error failure => rfl
  | ok b => exact h b

/-! ## Samples in the order of a file -/

/-- Deals samples in the order of a file out to `n` channels, frame by frame. -/
def deal (samples : Array Float32) (n : Nat) : List Channel :=
  (List.range (samples.size / n)).foldl
    (fun channels i ↦ channels.mapIdx fun k channel ↦ channel.push (samples.getD (i * n + k) 0))
    (List.replicate n #[])

/-- Parts from samples in the order of a file. -/
def ofInterleaved (samples : Array Float32) (layout : Layout) (rate : UInt32) : Except Stop Parts :=
  if samples.size % layout.count ≠ 0 then
    .error (.failed (.buffer (.ragged samples.size layout.count)))
  else checked ⟨deal samples layout.count, rate⟩

/-- **Every frame adds one sample to every channel**, so after some frames the channels are equally
long, and each of them holds every `n`-th sample. -/
theorem deal_eq (samples : Array Float32) (n : Nat) :
    deal samples n = (List.range n).map (Buffer.everyNth samples n) := by
  have hframes (count : Nat) :
      (List.range count).foldl
        (fun channels i ↦ channels.mapIdx fun k channel ↦
          channel.push (samples.getD (i * n + k) 0)) (List.replicate n #[]) =
        (List.range n).map fun k ↦
          Array.ofFn fun i : Fin count ↦ samples.getD (i * n + k) 0 := by
    induction count with
    | zero =>
      apply List.ext_getElem
      · simp
      · intro k _ _
        simp
    | succ count ih =>
      rw [List.range_succ, List.foldl_append, ih, List.foldl_cons, List.foldl_nil]
      apply List.ext_getElem
      · simp
      · intro k _ _
        rw [List.getElem_mapIdx, List.getElem_map, List.getElem_map, List.getElem_range,
          Array.ofFn_succ]
        rfl
  exact hframes (samples.size / n)

theorem lift_ofInterleaved (samples : Array Float32) (layout : Layout) (rate : UInt32) :
    lift (Buffer.ofInterleaved samples layout rate) = ofInterleaved samples layout rate := by
  rw [Buffer.ofInterleaved, ofInterleaved, deal_eq, ← lift_ofChannels]
  split
  · rfl
  · rfl

/-! ## Tones -/

/-- A tone on one channel. -/
def tone (frequency amplitude seconds : Float32) (rate : UInt32) : Except Stop Parts :=
  checked ⟨[Buffer.toneSamples frequency amplitude seconds rate], rate⟩

/-- Two tones, each made and checked on its own, and then put together. -/
def stereoTone (left right amplitude seconds : Float32) (rate : UInt32) : Except Stop Parts := do
  let l ← tone left amplitude seconds rate
  let r ← tone right amplitude seconds rate
  checked ⟨l.channels ++ r.channels, rate⟩

theorem lift_tone (frequency amplitude seconds : Float32) (rate : UInt32) :
    lift (Buffer.tone frequency amplitude seconds rate) =
      tone frequency amplitude seconds rate := by
  rw [Buffer.tone, Buffer.mono, lift_ofChannels, tone]

theorem checked_zero {channels : List Channel} (hne : channels ≠ [])
    (hle : channels.length ≤ 2) (hsizes : ∀ c ∈ channels, ∀ d ∈ channels, c.size = d.size) :
    checked ⟨channels, 0⟩ = .error (.failed (.buffer .zeroRate)) := by
  have hcount : ¬(channels = [] ∨ Buffer.maxChannels < channels.length) :=
    not_or.2 ⟨hne, Nat.not_lt.2 hle⟩
  rw [checked, fault?, if_neg hcount, (any_size_ne_eq_false_iff hne).2 hsizes]
  rfl

/-- Both tones are as long as the time says, so they fit together if each of them is a buffer. -/
theorem lift_stereoTone (left right amplitude seconds : Float32) (rate : UInt32) :
    lift (Buffer.stereoTone left right amplitude seconds rate) =
      stereoTone left right amplitude seconds rate := by
  rw [Buffer.stereoTone, Buffer.stereo, lift_ofChannels, stereoTone, tone, tone]
  by_cases hrate : rate = 0
  · subst hrate
    rw [checked_zero (by simp) (by simp) (by simp [Buffer.toneSamples]),
      checked_zero (by simp) (by simp) (by simp)]
    rfl
  · have hone (frequency : Float32) :
        checked ⟨[Buffer.toneSamples frequency amplitude seconds rate], rate⟩ =
          .ok ⟨[Buffer.toneSamples frequency amplitude seconds rate], rate⟩ := by
      have hsound : (Parts.mk [Buffer.toneSamples frequency amplitude seconds rate] rate).Sound :=
        ⟨.inl rfl, by simp, UInt32.pos_iff_ne_zero.2 hrate⟩
      rw [checked, fault?_eq_none_iff.2 hsound]
    rw [hone, hone]
    rfl

/-! ## Stages of a conversion -/

/-- Resamples every channel on its own. -/
def resample (p : Parts) (target : UInt32) : Except Stop Parts :=
  if target = 0 then .error (.failed (.resample .zeroTarget))
  else if p.rate = target then .ok p
  else asserted ⟨p.channels.map (Resample.channel (Resample.ratio p.rate target)), target⟩

/-- Takes out the element at an index; the last one comes in its place. -/
def swapRemove (channels : List Channel) (index : Nat) : Except Stop (Channel × List Channel) :=
  match channels[index]?, channels.getLast? with
  | some channel, some last => .ok (channel, (channels.set index last).dropLast)
  | _, _ => .error (.noChannel index)

/-- Takes out the right channel and the left one, and keeps one of them or their mean. -/
def reduce (p : Parts) (mode : ChannelMode) : Except Stop Parts :=
  if mode = .both ∨ p.channels.length < 2 then .ok p
  else do
    let (right, channels) ← swapRemove p.channels 1
    let (left, _) ← swapRemove channels 0
    let kept := match mode with
      | .left => left
      | .right => right
      | _ => left.zipWith Buffer.mean right
    asserted ⟨[kept], p.rate⟩

/-- The largest magnitude of any sample, or zero. -/
def peak (p : Parts) : Float32 :=
  p.channels.foldl (fun loudest channel ↦ channel.foldl Buffer.louder loudest) 0

/-- Multiplies every sample so that the peak is at full scale. -/
def normalize (p : Parts) : Parts :=
  if Buffer.fullScale ≤ p.peak then p
  else if p.peak ≤ 0 then p
  else ⟨p.channels.map (Array.map (· * (1 / p.peak))), p.rate⟩

/-- The stages up to normalization, with any resampler. -/
def transcode (p : Parts) (resample : Parts → UInt32 → Except Stop Parts) (config : Config) :
    Except Stop Parts := do
  let resampled ← resample p config.rate
  let reduced ← resampled.reduce config.mode
  return reduced.normalize

/-- **The channels are equally long after each was resampled on its own.** -/
theorem lift_linear (b : Buffer) (target : UInt32) :
    lift (Resample.linear b target) = b.parts.resample target := by
  rw [Resample.linear, resample]
  split
  · rfl
  · show lift (if b.rate = target then .ok b else .ok _) =
      if b.rate = target then .ok b.parts else asserted _
    split
    · rfl
    · -- the parts in question are those of the buffer on the left, so that they pass
      exact (asserted_parts _).symm

theorem reduce_parts (b : Buffer) (mode : ChannelMode) :
    b.parts.reduce mode = .ok (b.reduce mode).parts := by
  have hkeep (h : mode = .both ∨ b.channels.length < 2) : b.reduce mode = b := by
    rcases h with rfl | h
    · exact b.reduce_both
    · obtain ⟨channel, hchannels⟩ : ∃ channel, b.channels = [channel] := by
        have hpos := List.length_pos_iff.2 b.channels_ne_nil
        exact List.length_eq_one_iff.1 (by omega)
      exact Buffer.reduce_of_mono hchannels mode
  rw [reduce]
  split
  · rename_i h
    rw [hkeep h]
  · rename_i h
    obtain ⟨hboth, hcount⟩ := not_or.1 h
    obtain ⟨l, r, hchannels⟩ : ∃ l r, b.channels = [l, r] := by
      have hle := b.length_channels_le
      replace hcount : ¬b.channels.length < 2 := hcount
      exact List.length_eq_two.1 (by omega)
    have htwo : b.parts.channels = [l, r] := hchannels
    rw [htwo]
    cases mode with
    | both => exact absurd rfl hboth
    | left =>
      rw [Buffer.reduce_left hchannels]
      exact asserted_parts (b.single l)
    | right =>
      rw [Buffer.reduce_right hchannels]
      exact asserted_parts (b.single r)
    | mix =>
      rw [Buffer.reduce_mix hchannels]
      exact asserted_parts (b.single (l.zipWith Buffer.mean r))

theorem normalize_parts (b : Buffer) : b.parts.normalize = b.normalize.parts := by
  have hpeak : b.parts.peak = b.peak := rfl
  rw [normalize, hpeak, Buffer.normalize, Buffer.normalization]
  split
  · rfl
  · split
    · rfl
    · rfl

theorem lift_transcode {resample : Resampler} {resample' : Parts → UInt32 → Except Stop Parts}
    (h : ∀ b target, lift (resample b target) = resample' b.parts target) (config : Config)
    (b : Buffer) :
    lift (WaveMill.transcode resample config b) = b.parts.transcode resample' config := by
  rw [WaveMill.transcode, transcode, ← h]
  refine lift_bind fun resampled ↦ ?_
  rw [reduce_parts, Outcome.ok_bind, normalize_parts]
  rfl

/-! ## Decoded files -/

/-- A stop while a file is decoded: what is wrong with the parts is put down to the file. -/
def Stop.inFile (name : String) : Stop → Stop
  | failed failure => failed (failure.inFile name)
  | stop => stop

/-- What a file holds, or why that cannot be found out. -/
def opened : Outcome Contents → Except Stop Contents
  | .ok contents => .ok contents
  | .error failure => .error (.failed failure)

/-- The parts of what a file holds. -/
def ofContents (name : String) (contents : Contents) : Except Stop Parts :=
  (ofInterleaved contents.samples contents.layout contents.rate).mapError (Stop.inFile name)

/-- **A file makes a buffer with the same checks as any other samples**, whoever finds out what it
holds. -/
theorem lift_ofContents (name : String) (contents : Outcome Contents) :
    lift (contents >>= Buffer.ofContents name) = opened contents >>= ofContents name := by
  cases contents with
  | error failure => rfl
  | ok contents =>
    rw [Outcome.ok_bind, Buffer.ofContents, opened, Outcome.ok_bind, ofContents,
      ← lift_ofInterleaved]
    cases Buffer.ofInterleaved contents.samples contents.layout contents.rate <;> rfl

end Parts
end WaveMill
