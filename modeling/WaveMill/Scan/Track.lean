import WaveMill.Scan.Adaptive

/-!
# Tracks of samples

What a container says about its audio, and the samples that follow from it.  The samples are decoded
in packets of whole blocks.  For samples that stand on their own a block is what the container takes
for a frame; a packet has a fixed number of them, and no more frames than that are taken from it,
however many its bytes would make.

## What is here

* `Scan.Storage` — samples on their own, or in blocks.
* `Scan.Track` — the description of the audio, with `Scan.requireChannels` and `Scan.requireRate`
  for what a track cannot have.
* `Scan.Track.requireDecoder` — whether there is a decoder for a track.
* `Scan.Track.samples` — the samples of a track in the order of the file.
-/

set_option autoImplicit false
namespace WaveMill
namespace Scan

/-- How the samples of a track are stored. -/
inductive Storage where
  /-- Every sample on its own. -/
  | plain (coding : Coding)
  /-- Adaptive differences in blocks. -/
  | adaptive
  deriving DecidableEq, Repr

/-- What a container says about its audio. -/
structure Track where
  channels : Nat
  rate : UInt32
  storage : Storage
  /-- Bytes per block. -/
  blockAlign : Nat
  /-- Frames per block. -/
  blockFrames : Nat
  /-- The width of a sample in bits by the last description that told one, and zero if none did. -/
  toldBits : Nat
  deriving DecidableEq, Repr

/-- The largest number of channels that a container may name. -/
def maxChannels : Nat := 26

/-- Stops if a track cannot have so many channels. -/
def requireChannels (channels : Nat) : Walk Unit := require (1 ≤ channels ∧ channels ≤ maxChannels)

/-- Stops without an answer if the rate of a track is zero: a sample would have no duration. -/
def requireRate (rate : UInt32) : Walk Unit :=
  abortIf (rate = 0) (.stated "TimeBase cannot have 0 numerator or denominator")

/-- Stops if there is no decoder for a track.  A sample has no more bits than the word that it is
decoded into, whichever description told their number. -/
def Track.requireDecoder (track : Track) : Except Stop Unit :=
  if track.channels = 0 then .error (.abort (.stated "attempt to divide by zero"))
  else
    match track.storage with
    | .adaptive => .ok ()
    | .plain coding => if coding.room < track.toldBits then .error (.fault .noCodec) else .ok ()

/-- The number of frames in a packet. -/
def packetFrames : Nat := 1152

/-- The number of blocks in a packet. -/
def Track.packetBlocks (track : Track) : Nat :=
  max track.blockFrames packetFrames / track.blockFrames

/-- Cuts `blocks` blocks of `size` bytes into packets of `most` blocks, as far as the bytes reach.
With each packet goes the number of its blocks; the last one may hold fewer bytes than that. -/
def packets (size most blocks : Nat) (bytes : Bytes) : List (Nat × Bytes) :=
  let count := min blocks most
  if h : count * size = 0 ∨ bytes = [] then []
  else
    have : (bytes.drop (count * size)).length < bytes.length := by
      rw [List.length_drop]
      exact Nat.sub_lt (List.length_pos_iff.mpr fun empty ↦ h (.inr empty))
        (Nat.pos_of_ne_zero fun zero ↦ h (.inl zero))
    (count, bytes.take (count * size)) ::
      packets size most (blocks - count) (bytes.drop (count * size))
termination_by bytes.length
decreasing_by exact this

/-- Decodes packets, one after the other.  Blocks that end too early end the track before their
packet. -/
def Track.decode (track : Track) : List (Nat × Bytes) → Array Float32 → Except Stop (Array Float32)
  | [], done => .ok done
  | (blocks, bytes) :: rest, done =>
    match track.storage with
    | .plain coding => do
      let frames := min packetFrames (bytes.length / (track.channels * coding.width))
      let done ← bytes.readMany unknown coding.width coding.value (frames * track.channels) done
      track.decode rest done
    | .adaptive =>
      match (Adaptive.readBlocks track.channels track.blockAlign blocks).run bytes with
      | .ok (samples, _) => track.decode rest (done ++ samples.map (fraction 16))
      | .error none => .ok done
      | .error (some stop) => .error stop

/-- The samples of the first `length` bytes of a region, as far as the file reaches.  A region that
ends inside a frame ends before it. -/
def Track.samples (track : Track) (length : Nat) (region : Bytes) : Except Stop (Array Float32) :=
  do
  track.requireDecoder
  if track.blockAlign = 0 then throw (.fault .emptyBlocks)
  track.decode (packets track.blockAlign track.packetBlocks (length / track.blockAlign) region) #[]

end Scan
end WaveMill
