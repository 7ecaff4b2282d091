import WaveMill.Bytes
import WaveMill.Failure

/-!
# Buffers of samples

Decoded audio is held channel by channel.  A buffer has one channel or two, its channels are equally
long, and its sample rate is positive; these facts are fields of the type, so that no stage of a
conversion has to check them again.

## What is here

* `Layout` — mono or stereo.
* `Buffer`, and `Buffer.ofChannels`, which makes a buffer of channels that fit together.
* `Buffer.ofInterleaved` — the same from samples in the order of a file, frame by frame, and
  `Buffer.interleave`, which brings samples into that order.
* `Contents` and `Buffer.ofContents` — what a file holds, and the buffer of it.
* `Buffer.frames`, `Buffer.duration`, `Buffer.peak`, `Buffer.isFinite` — what can be asked of a
  buffer.
* `Buffer.mapSamples` — every sample changed on its own.
-/

set_option autoImplicit false
namespace WaveMill

/-- The samples of one channel. -/
abbrev Channel := Array Float32

/-- How many channels there are. -/
inductive Layout where
  | mono
  | stereo
  deriving DecidableEq, Repr

namespace Layout

/-- The number of channels. -/
def count : Layout → Nat
  | mono => 1
  | stereo => 2

/-- The layout of a number of channels. -/
def ofCount? : Nat → Option Layout
  | 1 => some mono
  | 2 => some stereo
  | _ => none

/-- The layout that is meant where none is named. -/
def standard : Layout := stereo

/-- The name of a layout in reports. -/
def name : Layout → String
  | mono => "Mono"
  | stereo => "Stereo"

theorem ofCount?_eq_some_iff {n : Nat} {layout : Layout} :
    ofCount? n = some layout ↔ layout.count = n := by
  match n with
  | 0 => cases layout <;> simp [ofCount?, count]
  | 1 => cases layout <;> simp [ofCount?, count]
  | 2 => cases layout <;> simp [ofCount?, count]
  | n + 3 => cases layout <;> simp [ofCount?, count]

end Layout

/-- What a file holds before a buffer is made of it. -/
structure Contents where
  /-- The samples, frame by frame, left before right. -/
  samples : Array Float32
  layout : Layout
  rate : UInt32

/-- One or two equally long channels of samples, at a positive sample rate. -/
structure Buffer where
  /-- The channels, left before right. -/
  channels : List Channel
  /-- Samples per second. -/
  rate : UInt32
  channels_ne_nil : channels ≠ []
  length_channels_le : channels.length ≤ 2
  size_eq : ∀ c ∈ channels, ∀ d ∈ channels, c.size = d.size
  rate_pos : 0 < rate
  deriving DecidableEq

namespace Buffer

/-- The largest number of channels. -/
def maxChannels : Nat := 2

/-- The buffer of some channels.  What is wrong with their number is reported first, then what is
wrong with their lengths, then what is wrong with the rate. -/
def ofChannels (channels : List Channel) (rate : UInt32) : Outcome Buffer :=
  if h : channels ≠ [] ∧ channels.length ≤ 2 then
    if hsize : ∀ c ∈ channels, ∀ d ∈ channels, c.size = d.size then
      if hrate : 0 < rate then .ok ⟨channels, rate, h.1, h.2, hsize, hrate⟩
      else .error (.buffer .zeroRate)
    else .error (.buffer .unequalLengths)
  else .error (.buffer (.channelCount channels.length))

/-- The buffer of one channel. -/
def mono (samples : Channel) (rate : UInt32) : Outcome Buffer := ofChannels [samples] rate

/-- The buffer of two channels. -/
def stereo (left right : Channel) (rate : UInt32) : Outcome Buffer := ofChannels [left, right] rate

/-- Channel `k` of the samples of `n` channels in the order of a file: every `n`-th sample from the
`k`-th on. -/
def everyNth (samples : Array Float32) (n k : Nat) : Channel :=
  .ofFn fun i : Fin (samples.size / n) ↦ samples.getD (i * n + k) 0

/-- The buffer of samples in the order of a file. -/
def ofInterleaved (samples : Array Float32) (layout : Layout) (rate : UInt32) : Outcome Buffer :=
  let n := layout.count
  if samples.size % n ≠ 0 then .error (.buffer (.ragged samples.size n))
  else ofChannels ((List.range n).map (everyNth samples n)) rate

/-- The buffer of what a file holds.  What is wrong with it is put down to the file. -/
def ofContents (name : String) (contents : Contents) : Outcome Buffer :=
  (ofInterleaved contents.samples contents.layout contents.rate).mapError (.inFile name)

/-- The number of samples of each channel. -/
def frames (b : Buffer) : Nat := (b.channels.head b.channels_ne_nil).size

theorem size_of_mem {b : Buffer} {c : Channel} (h : c ∈ b.channels) : c.size = b.frames :=
  b.size_eq c h _ (List.head_mem _)

/-- The samples in the order of a file: the first frame, left before right, then the second
frame. -/
def interleave (b : Buffer) : Array Float32 :=
  let n := b.channels.length
  .ofFn fun j : Fin (b.frames * n) ↦ (b.channels.getD (j % n) #[]).getD (j / n) 0

/-- The duration in seconds. -/
def duration (b : Buffer) : Float := b.frames.toUInt64.toFloat / b.rate.toFloat

/-- The larger of a magnitude and that of a sample; a sample that is not a number counts for
nothing. -/
def louder (loudest sample : Float32) : Float32 :=
  if loudest < sample.abs then sample.abs else loudest

/-- The largest magnitude of any sample, or zero. -/
def peak (b : Buffer) : Float32 :=
  b.channels.foldl (fun loudest channel ↦ channel.foldl louder loudest) 0

/-- Whether every sample is a number of finite size. -/
def isFinite (b : Buffer) : Bool := b.channels.all fun channel ↦ channel.all Float32.isFinite

/-- Whether two buffers hold the same numbers at the same rate.  A sample that is not a number
equals none, and the two zeros are equal. -/
def agrees (b c : Buffer) : Bool :=
  b.rate == c.rate && b.channels.length == c.channels.length &&
    (b.channels.zip c.channels).all fun (x, y) ↦
      x.size == y.size && (x.zip y).all fun (s, t) ↦ s == t

/-- The buffer with every sample changed. -/
def mapSamples (f : Float32 → Float32) (b : Buffer) : Buffer where
  channels := b.channels.map (Array.map f)
  rate := b.rate
  channels_ne_nil := by simpa using b.channels_ne_nil
  length_channels_le := by simpa using b.length_channels_le
  size_eq := by
    intro c hc d hd
    obtain ⟨x, hx, rfl⟩ := List.mem_map.1 hc
    obtain ⟨y, hy, rfl⟩ := List.mem_map.1 hd
    simpa using b.size_eq x hx y hy
  rate_pos := b.rate_pos

theorem ofChannels_eq_ok_iff {channels : List Channel} {rate : UInt32} {b : Buffer} :
    ofChannels channels rate = .ok b ↔ b.channels = channels ∧ b.rate = rate := by
  constructor
  · intro h
    simp only [ofChannels] at h
    split at h
    · split at h
      · split at h
        · cases h; exact ⟨rfl, rfl⟩
        · cases h
      · cases h
    · cases h
  · rintro ⟨rfl, rfl⟩
    rw [ofChannels, dif_pos ⟨b.channels_ne_nil, b.length_channels_le⟩, dif_pos b.size_eq,
      dif_pos b.rate_pos]

theorem ofChannels_self (b : Buffer) : ofChannels b.channels b.rate = .ok b :=
  ofChannels_eq_ok_iff.2 ⟨rfl, rfl⟩

end Buffer
end WaveMill
