import WaveMill.Scan.Track

/-!
# Descriptions of wave data

The `fmt ` chunk of a wave container describes its samples: a fixed part of 16 bytes, which begins
with the number of a coding, and an extension that depends on the coding.  An extension begins with
its own length.  Plain samples need nothing from it, so there the length of the chunk decides; the
other codings go by the length that the extension states.

## What is here

* `Scan.Riff.readIntegers`, `Scan.Riff.readFloats`, `Scan.Riff.readCompanded`,
  `Scan.Riff.readAdaptive`, `Scan.Riff.readExtensible` — the extensions.
* `Scan.Riff.fitSpeakers` — whether the channels have places among the speakers.
* `Scan.Riff.readFormat` — the track that a `fmt ` chunk describes.
-/

set_option autoImplicit false
namespace WaveMill
namespace Scan
namespace Riff

/-- The coding of integer samples of so many bits. -/
def integerCoding : Nat → Walk Coding
  | 8 => pure .offset8
  | 16 => pure (.signed 16 .little)
  | 24 => pure (.signed 24 .little)
  | 32 => pure (.signed 32 .little)
  | _ => throw unknown

/-- The coding of floating point samples of so many bits. -/
def floatCoding : Nat → Walk Coding
  | 32 => pure (.float32 .little)
  | 64 => pure (.float64 .little)
  | _ => throw unknown

/-- Passes over an extension that begins with its length. -/
def skipExtension : Walk Unit := do skip (← word .little 2)

/-- Integer samples of so many bits.  What is in the extension does not matter. -/
def readIntegers (length bits : Nat) : Walk Coding := do
  match length with
  | 16 => pure ()
  | 18 => skip 2
  | 40 => skip 24
  | _ => throw unknown
  integerCoding bits

/-- Floating point samples of so many bits.  A short extension has to be empty. -/
def readFloats (length bits : Nat) : Walk Coding := do
  match length with
  | 16 => pure ()
  | 18 => require ((← word .little 2) = 0)
  | 40 => skip 24
  | _ => throw unknown
  floatCoding bits

/-- Companded samples. -/
def readCompanded (length : Nat) : Walk Unit := do
  require (length = 18)
  skipExtension

/-- Adaptive differences for so many channels.  The extension repeats the weights. -/
def readAdaptive (length channels bits : Nat) : Walk Unit := do
  require (bits = 4 ∧ 20 ≤ length)
  let extra ← word .little 2
  require (32 ≤ extra)
  skip extra
  require (channels = 1 ∨ channels = 2)

/-- Stops if the channels do not find places.  The bits of `mask` are the places of channels.  If
there are too few, the places above the highest one are taken too; if there are too many, the lowest
ones are.  All is done in a word of 32 bits. -/
def fitSpeakers (channels mask : Nat) : Walk Unit := do
  let places := (List.range 32).filter fun k ↦ mask.testBit k
  if places.length < channels then
    let missing := channels - places.length
    let free := (places.getLast?.map (· + 1)).getD 0
    abortIf (32 ≤ missing ∨ 32 ≤ free) (.stated "attempt to shift left with overflow")
    require (free + missing ≤ maxChannels)
  else require (∀ k ∈ places.take channels, k < maxChannels)

/-- What the kinds of samples in an extensible description have in common. -/
def kindTail : Bytes := [0, 0, 0, 0, 0x10, 0, 0x80, 0, 0, 0xaa, 0, 0x38, 0x9b, 0x71]

/-- Samples of a kind that the extension names.  Samples of `bits` bits may use fewer of them. -/
def readExtensible (length channels bits : Nat) : Walk Coding := do
  require (40 ≤ length)
  require ((← word .little 2) = 22)
  let valid ← word .little 2
  require (bits % 8 = 0 ∧ valid ≤ bits)
  fitSpeakers channels (← word .little 4)
  let kind ← word .little 2
  require ((← take 14) = kindTail)
  match kind with
  | 1 => do
    abortIf (bits = 0) (.stated "internal error: entered unreachable code")
    integerCoding bits
  | 3 => do
    require (valid = bits)
    floatCoding bits
  | 4 => pure .muLaw
  | 6 => pure .aLaw
  | _ => throw unknown

/-- The track that a `fmt ` chunk of the given length describes, where `told` is the width of a
sample by the descriptions before. -/
def readFormat (told length : Nat) : Walk Track := do
  require (16 ≤ length)
  let tag ← word .little 2
  let channels ← word .little 2
  let rate := UInt32.ofNat (← word .little 4)
  skip 4
  let blockAlign ← word .little 2
  let bits ← word .little 2
  let plain (coding : Coding) (toldBits : Nat) : Walk Track := do
    requireRate rate
    return { channels, rate, storage := .plain coding, blockAlign, blockFrames := 1, toldBits }
  match tag with
  | 1 => do
    let coding ← readIntegers length bits
    requireChannels channels
    plain coding bits
  | 2 => do
    readAdaptive length channels bits
    let blockFrames ← Adaptive.frames channels blockAlign
    requireRate rate
    return { channels, rate, storage := .adaptive, blockAlign, blockFrames, toldBits := told }
  | 3 => do
    let coding ← readFloats length bits
    requireChannels channels
    plain coding told
  | 6 => do
    readCompanded length
    requireChannels channels
    plain .aLaw told
  | 7 => do
    readCompanded length
    requireChannels channels
    plain .muLaw told
  | 0xfffe => do
    let coding ← readExtensible length channels bits
    plain coding bits
  | _ => throw unknown

end Riff
end Scan
end WaveMill
