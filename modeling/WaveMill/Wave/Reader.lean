import WaveMill.Buffer
import WaveMill.Bytes.Reader
import WaveMill.Number.Convert

/-!
# The strict wave reader

A wave file is read chunk by chunk.  The reader insists on the rules of the format: the description
of the samples has to be consistent in itself, and the data has to consist of whole frames.  It pads
nothing: a chunk of odd length is followed directly by the next one.

## What is here

* `Wave.Format` — what a file says about its samples.
* `Wave.readFormat` — the `fmt ` chunk, in its four variants.
* `Wave.findData` — the chunks up to the data.
* `Wave.Coding` — the ways in which a sample is written that can be read.
* `Wave.contents` and `Wave.decode` — what a file holds, and the buffer of it.
-/

set_option autoImplicit false
namespace WaveMill
namespace Wave

open Reader

/-- What a file says about its samples. -/
structure Format where
  kind : SampleKind
  channels : Nat
  rate : UInt32
  /-- Significant bits of a sample. -/
  bits : Nat
  /-- Bytes that a sample takes in the file. -/
  width : Nat
  deriving DecidableEq, Repr

/-- A word of the file, least significant byte first. -/
def word (n : Nat) : Reader Fault Nat := little .endOfFile n

/-- Fails with a flaw if the condition holds. -/
def refuse (condition : Prop) [Decidable condition] (flaw : Flaw) : Reader Fault Unit :=
  if condition then throw (.illFormed flaw) else pure ()

/-- The last twelve bytes of the name of a coding in an extensible description. -/
def guidTail : Bytes :=
  [0x00, 0x00, 0x10, 0x00, 0x80, 0x00, 0x00, 0xaa, 0x00, 0x38, 0x9b, 0x71]

/-- The coding that sixteen bytes name. -/
def kindOfGuid (guid : Bytes) : Option SampleKind :=
  if guid = [1, 0, 0, 0] ++ guidTail then some .integer
  else if guid = [3, 0, 0, 0] ++ guidTail then some .float
  else none

/-- What follows the fixed part of a description of integer samples. -/
def readIntegerTail (length bits : Nat) : Reader Fault Unit := do
  if length = 16 then pure ()
  else if length = 18 ∨ length = 40 then
    let _ ← word 2
    refuse (bits ≠ 8 ∧ bits ≠ 16 ∧ bits ≠ 24) .integerWidth
    if length = 40 then skip .endOfFile 22
  else throw (.illFormed .unexpectedFormatSize)

/-- What follows the fixed part of a description of floating point samples. -/
def readFloatTail (length bits : Nat) : Reader Fault Unit := do
  if length = 18 then
    let extra ← word 2
    refuse (extra ≠ 0) .extraFormatBytes
  else refuse (length ≠ 16) .unexpectedFormatSize
  refuse (bits ≠ 32) .floatWidth

/-- What follows the fixed part of an extensible description: the coding, and the significant bits
if they are fewer than the sample has. -/
def readExtension (length bits : Nat) : Reader Fault (SampleKind × Nat) := do
  refuse (length < 40) .unexpectedFormatSize
  let size ← word 2
  refuse (size ≠ 22) .extensionSize
  let validBits ← word 2
  let _ ← word 4
  let guid ← take .endOfFile 16
  match kindOfGuid guid with
  | some kind => return (kind, if 0 < validBits then validBits else bits)
  | none => throw .unsupported

/-- A description of samples of the given length. -/
def readFormat (length : Nat) : Reader Fault Format := do
  refuse (length < 16) .shortFormat
  let tag ← word 2
  let channels ← word 2
  let rate ← word 4
  let byteRate ← word 4
  let align ← word 2
  let bits ← word 2
  refuse (channels = 0) .noChannels
  let width := align / channels
  refuse (8 * width < bits ∨ 65535 < 8 * width) .bitsExceedSample
  refuse (byteRate ≠ align * rate) .inconsistentRates
  refuse (bits % 8 ≠ 0) .bitsNotWholeBytes
  refuse (bits = 0) .zeroBits
  let (kind, bits) ← match tag with
    | 1 => do readIntegerTail length bits; pure (.integer, bits)
    | 3 => do readFloatTail length bits; pure (.float, bits)
    | 0xfffe => readExtension length bits
    | _ => throw .unsupported
  return { kind, channels, rate := UInt32.ofNat rate, bits, width }

/-- The chunks up to the data: the last description among them, and the length of the data.  The
fuel bounds the number of chunks. -/
def findData : Nat → Option Format → Reader Fault (Format × Nat)
  | 0, _ => throw .endOfFile
  | fuel + 1, format => do
    let tag ← take .endOfFile 4
    let length ← word 4
    if tag = Bytes.ofAscii "fmt " then findData fuel (some (← readFormat length))
    else if tag = Bytes.ofAscii "fact" then skipUpTo 4; findData fuel format
    else if tag = Bytes.ofAscii "data" then
      match format with
      | some format => return (format, length)
      | none => throw (.illFormed .missingFormat)
    else skip .endOfFile length; findData fuel format

/-- The headers of a file: the description of the samples and the number of samples, which are
next. -/
def readHeaders : Reader Fault (Format × Nat) := do
  let riff ← take .endOfFile 4
  refuse (riff ≠ Bytes.ofAscii "RIFF") .noRiffTag
  let _ ← word 4
  let wave ← take .endOfFile 4
  refuse (wave ≠ Bytes.ofAscii "WAVE") .noWaveTag
  let (format, length) ← findData ((← rest).length + 1) none
  refuse (length % format.width ≠ 0) .raggedSamples
  let samples := length / format.width
  refuse (samples % format.channels ≠ 0) .raggedFrames
  return (format, samples)

/-! ## Samples -/

/-- The ways in which a sample can be written. -/
inductive Coding where
  | float32
  | integer8
  | integer16
  | integer24
  | integer32
  deriving DecidableEq, Repr

/-- The coding of samples of a kind and a number of bits. -/
def Coding.of? (kind : SampleKind) (bits : Nat) : Option Coding :=
  match kind, bits with
  | .float, 32 => some .float32
  | .integer, 8 => some .integer8
  | .integer, 16 => some .integer16
  | .integer, 24 => some .integer24
  | .integer, 32 => some .integer32
  | _, _ => none

/-- A signed word of some bytes, as a fraction of its range. -/
def fraction (bits : Nat) (bytes : Bytes) : Float32 :=
  Number.ofInt32 (Bytes.signed (Bytes.little bytes) bits) /
    Number.ofInt32 (Nat.pow 2 (bits - 1) : Nat)

/-- The value that the bytes of one sample write. -/
def Coding.value : Coding → Bytes → Float32
  | float32, bytes => .ofBits (UInt32.ofNat (Bytes.little bytes))
  | integer8, bytes => Number.ofInt32 ((Bytes.little bytes : Int) - 128) / 128
  | integer16, bytes => fraction 16 bytes
  | integer24, bytes => fraction 24 (bytes.take 3)
  | integer32, bytes => fraction 32 bytes

/-- Whether a coding can be read from samples of so many bytes. -/
def Coding.checkWidth (coding : Coding) (width : Nat) : Except Fault Unit :=
  let (least, greatest) := match coding with
    | integer8 => (1, 1)
    | integer16 => (2, 2)
    | integer24 => (3, 4)
    | _ => (4, 4)
  if greatest < width then .error .tooWide
  else if width < least then .error .unsupported
  else .ok ()

/-- So many samples from the front of some bytes. -/
def readSamples (coding : Coding) (width count : Nat) (bytes : Bytes) :
    Except Fault (Array Float32) := do
  if count = 0 then return #[]
  coding.checkWidth width
  bytes.readMany .endOfFile width coding.value count #[]

/-- What a wave file holds. -/
def contents (name : String) (bytes : Bytes) : Outcome Contents :=
  match readHeaders.run bytes with
  | .error fault => .error (.decode name (.notWave fault))
  | .ok ((format, count), data) =>
    match Layout.ofCount? format.channels with
    | none => .error (.decode name (.channelCount format.channels))
    | some layout =>
      match Coding.of? format.kind format.bits with
      | none => .error (.decode name (.sampleWidth format.kind format.bits))
      | some coding =>
        match readSamples coding format.width count data with
        | .error fault => .error (.decode name (.samples fault))
        | .ok samples => .ok ⟨samples, layout, format.rate⟩

/-- The buffer that a wave file holds. -/
def decode (name : String) (bytes : Bytes) : Outcome Buffer := do
  Buffer.ofContents name (← contents name bytes)

end Wave
end WaveMill
