import WaveMill.Scan.Chunk
import WaveMill.Scan.Track

/-!
# AIFF containers

An AIFF file writes its numbers with the most significant byte first and its sample rate as a
floating point number of 80 bits.  The variant AIFC names the coding of its samples by four
characters.

## What is here

* `Scan.Aiff.extendedRate` — the sample rate of an 80-bit number.
* `Scan.Aiff.readCommon` — the `COMM` chunk.
* `Scan.Aiff.readHeaders` — the chunks up to the samples.
-/

set_option autoImplicit false
namespace WaveMill
namespace Scan
namespace Aiff

open Float.Model (Format UnpackedFloat)

/-- A `binary64` number nearest to `mantissa * 2 ^ exponent`. -/
def nearestFloat (mantissa : Nat) (exponent : Int) : Float :=
  .ofModel (.pack (.round .binary64 .positive mantissa exponent))

/-- The whole part of an 80-bit number: a sign and fifteen bits of exponent, then 64 bits of
mantissa of which the first is the whole part.  Negative numbers and NaN give zero, large numbers
and infinity, which has no mantissa, the largest word. -/
def extendedRate (bytes : Bytes) : UInt32 :=
  let head := Bytes.big (bytes.take 2)
  let mantissa := Bytes.big (bytes.drop 2)
  let exponent := head % 0x8000
  if 0x8000 ≤ head then 0
  else if exponent = 0x7fff then if mantissa = 0 then 0xffffffff else 0
  else if mantissa = 0 then 0
  else (nearestFloat mantissa ((exponent : Int) - 16383 - 63)).toUInt32

/-- The coding of integer samples of so many bits. -/
def integerCoding : Nat → Walk Coding
  | 8 => pure (.signed 8 .big)
  | 16 => pure (.signed 16 .big)
  | 24 => pure (.signed 24 .big)
  | 32 => pure (.signed 32 .big)
  | _ => throw unknown

/-- The coding of floating point samples of so many bits. -/
def floatCoding : Nat → Walk Coding
  | 32 => pure (.float32 .big)
  | 64 => pure (.float64 .big)
  | _ => throw unknown

/-- The coding of integer samples of 16 bits in the given order. -/
def wordCoding (order : ByteOrder) (bits : Nat) : Walk Coding := do
  require (bits = 16)
  return .signed 16 order

/-- What the coding of a sample says about its width. -/
inductive Family where
  | integers
  | floats
  | companded
  deriving DecidableEq, Repr

/-- The names of codings.  Those of integer and companded samples may be written in small or in
capital letters, those of floating point samples only in small ones.  Either of the latter stands
for both widths. -/
def codingNames : List (List String × Family × (Nat → Walk Coding)) :=
  [(["none", "NONE"], .integers, integerCoding), (["sowt", "SOWT"], .integers, wordCoding .little),
    (["twos", "TWOS"], .integers, wordCoding .big), (["fl32", "fl64"], .floats, floatCoding),
    (["alaw", "ALAW"], .companded, fun _ ↦ pure .aLaw),
    (["ulaw", "ULAW"], .companded, fun _ ↦ pure .muLaw)]

/-- The coding that four characters name, for samples of so many bits. -/
def namedCoding (name : Bytes) (bits : Nat) : Walk (Family × Coding) := do
  match codingNames.find? fun (names, _) ↦ names.any fun text ↦ name == Bytes.ofAscii text with
  | some (_, family, coding) => return (family, ← coding bits)
  | none => throw unknown

/-- The name of a coding in words: a length byte and so many characters, padded to an even total.
The total is counted in a byte. -/
def skipWords : Walk Unit := do
  let length ← byte
  skip length
  abortIf (length = 255) .sumOverflow
  skip ((length + 1) % 2)

/-- A signed word of 16 bits. -/
def signedWord : Walk Int := do
  return Bytes.signed (← word .big 2) 16

/-- The track that a `COMM` chunk describes, in a container of the given form, where `told` is the
width of a sample by the descriptions before. -/
def readCommon (form : Bytes) (told : Nat) : Walk Track := do
  let channels := (← signedWord).toNat
  skip 4
  let bits := (← signedWord).toNat
  let rate := extendedRate (← take 10)
  let (family, coding) ←
    if form = Bytes.ofAscii "AIFF" then Prod.mk .integers <$> integerCoding bits
    else if form = Bytes.ofAscii "AIFC" then do
      let name ← take 4
      skipWords
      namedCoding name bits
    else throw unknown
  requireChannels channels
  requireRate rate
  return {
    channels, rate
    storage := .plain coding
    blockAlign := if family = .companded then channels else channels * bits / 8
    blockFrames := 1
    toldBits := if family = .integers then bits else told }

/-- The head of an `SSND` chunk, whose samples begin right behind it. -/
def readSoundHead : Walk Unit := do
  let offset ← word .big 4
  let blockSize ← word .big 4
  require (offset = 0 ∧ blockSize = 0)

/-- The chunks up to the samples: the last track that was described, and the length of the chunk
with the samples.  The fuel bounds the number of chunks. -/
def findSound (form : Bytes) (limit : Nat) : Nat → Nat → Option Track → Walk (Option Track × Nat)
  | 0, _, _ => throw unknown
  | fuel + 1, used, track => do
    match ← nextChunk .big limit used with
    | (none, _) => throw unknown
    | (some chunk, used) =>
      if chunk.tag = Bytes.ofAscii "COMM" then do
        let told := (track.map Track.toldBits).getD 0
        findSound form limit fuel used (some (← readCommon form told))
      else if chunk.tag = Bytes.ofAscii "SSND" then do
        readSoundHead
        return (track, chunk.length)
      else do
        skip chunk.length
        findSound form limit fuel used track

/-- The headers of a container behind its first tag. -/
def readHeaders : Walk (Option Track × Nat) := do
  let limit ← word .big 4
  let form ← take 4
  findSound form limit ((← Reader.rest).length + 1) 0 none

end Aiff
end Scan
end WaveMill
