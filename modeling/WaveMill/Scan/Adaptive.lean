import WaveMill.Scan.Walk

/-!
# Adaptive differences

A coding in blocks that writes every sample as a step of four bits away from a guess.  The guess
weighs the two samples before it, and the size of a step follows the steps that were taken.  A block
begins with the weights, the size of a step and the first two samples of every channel; the steps
follow, the upper half of a byte first, and the channels take turns.

## What is here

* `Scan.Adaptive.Predictor` and `Scan.Adaptive.Predictor.next` — the state of a channel, and one
  step.
* `Scan.Adaptive.frames` — the number of frames in a block.
* `Scan.Adaptive.readBlock` — the samples of a block in the order of the frames.
-/

set_option autoImplicit false
namespace WaveMill
namespace Scan
namespace Adaptive

/-- Takes a value from the front of some blocks, which may end too early. -/
abbrev BlockReader (α : Type) := Reader (Option Stop) α

/-- The weights of the last sample and of the one before it, in parts of 256, that a block can
name. -/
def weights : List (Int × Int) :=
  [(256, 0), (512, -256), (0, 0), (192, 64), (240, 0), (460, -208), (392, -232)]

/-- The growth of the size of a step by the step that was taken, in parts of 256. -/
def growth : List Int :=
  [230, 230, 230, 230, 307, 409, 512, 614, 768, 614, 512, 409, 307, 230, 230, 230]

/-- The smallest size of a step. -/
def smallestStep : Int := 16

/-- The state of a channel inside a block. -/
structure Predictor where
  weights : Int × Int
  /-- The size of a step. -/
  step : Int
  /-- The last sample. -/
  last : Int
  /-- The sample before the last one. -/
  before : Int
  deriving DecidableEq, Repr

/-- The nearest sample of 16 bits. -/
def clamp (n : Int) : Int := max (-32768) (min 32767 n)

/-- The next sample becomes the last one.  The size of a step is kept in a word of 32 bits. -/
def Predictor.next (p : Predictor) (code : Nat) : Except Stop Predictor :=
  let guess := (p.last * p.weights.1 + p.before * p.weights.2).tdiv 256
  let steps : Int := if code < 8 then code else (code : Int) - 16
  let grown := growth.getD code 0 * p.step
  if 0x7fffffff < grown then .error (.abort .productOverflow)
  else .ok
    { weights := p.weights
      step := max smallestStep (grown.tdiv 256)
      last := clamp (guess + steps * p.step)
      before := p.last }

/-- The samples that some steps lead to.  The channels take turns. -/
def follow : List Predictor → List Nat → Except Stop (List Int)
  | p :: others, code :: rest => do
    let p ← p.next code
    return p.last :: (← follow (others ++ [p]) rest)
  | _, _ => .ok []

/-- The number of bytes in front of the steps of a block. -/
def headLength (channels : Nat) : Nat := 7 * channels

/-- The number of frames in a block of so many bytes.  It is counted in words of 16 bits. -/
def frames (channels size : Nat) : Walk Nat := do
  abortIf (size < headLength channels) (.stated "attempt to subtract with overflow")
  let bytes := size - headLength channels
  abortIf (UInt16.size ≤ bytes * 8) .productOverflow
  return bytes * 8 / (4 * channels) + 2

/-- The next `n` bytes. -/
def takeBytes (n : Nat) : BlockReader Bytes := Reader.take none n

/-- The weights that the next byte names. -/
def readWeights : BlockReader (Int × Int) := do
  match weights[Bytes.little (← takeBytes 1)]? with
  | some pair => return pair
  | none => throw (some (.fault .blockPredictor))

/-- A signed word of 16 bits. -/
def readWord : BlockReader Int := do return Bytes.signed (Bytes.little (← takeBytes 2)) 16

/-- One value for each of so many channels. -/
def forChannels {α : Type} (channels : Nat) (read : BlockReader α) : BlockReader (List α) :=
  (List.range channels).mapM fun _ ↦ read

/-- The steps that a byte holds. -/
def codes (b : UInt8) : List Nat := [b.toNat / 16, b.toNat % 16]

/-- The samples of a block of `size` bytes. -/
def readBlock (channels size : Nat) : BlockReader (List Int) := do
  let weights ← forChannels channels readWeights
  let steps ← forChannels channels readWord
  let last ← forChannels channels readWord
  let before ← forChannels channels readWord
  let body ← takeBytes (size - headLength channels)
  let predictors := (List.range channels).map fun k ↦
    { weights := weights.getD k (0, 0), step := steps.getD k 0
      last := last.getD k 0, before := before.getD k 0 : Predictor }
  match follow predictors (body.flatMap codes) with
  | .ok samples => return before ++ last ++ samples
  | .error stop => throw (some stop)

/-- The samples of so many blocks. -/
def readBlocks (channels size : Nat) : Nat → BlockReader (List Int)
  | 0 => pure []
  | n + 1 => do
    let block ← readBlock channels size
    return block ++ (← readBlocks channels size n)

end Adaptive
end Scan
end WaveMill
