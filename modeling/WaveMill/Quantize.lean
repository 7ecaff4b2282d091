import WaveMill.Buffer
import WaveMill.Config
import WaveMill.Number.Convert

/-!
# Quantization

Samples become bytes of fixed width, frame by frame: signed words of 16 bits, least significant byte
first, or unsigned bytes.  A sample is first clamped to full scale.  Both widths truncate: a 16-bit
code is `32767` times the sample, an 8-bit code is `127` times the sample plus one.

## What is here

* `Quantize.clamp` — full scale is the interval from `-1` to `1`.
* `Quantize.code16`, `Quantize.code8` and `Quantize.encode` — the code of one sample, and its bytes.
* `Quantize.quantize` — the bytes of several channels, interleaved or mixed into one.
* `Buffer.quantize` — the bytes of a buffer.
-/

set_option autoImplicit false
namespace WaveMill
namespace Quantize

/-- The nearest sample that is not beyond full scale.  What is not a number stays so. -/
def clamp (x : Float32) : Float32 := if x < -1 then -1 else if 1 < x then 1 else x

/-- The 16-bit code of a sample. -/
def code16 (x : Float32) : Int16 := Number.truncate16 (clamp x * 32767)

/-- The 8-bit code of a sample. -/
def code8 (x : Float32) : UInt8 := ((clamp x + 1) * 127).toUInt8

/-- The bytes of a sample of the given width. -/
def encode (bytes : UInt16) (x : Float32) : Bytes :=
  if bytes = 2 then Bytes.ofWord16 (code16 x).toUInt16 else [code8 x]

/-- The sum of some samples divided by their number.  The sum starts from minus zero, which changes
nothing that is added to it. -/
def average (samples : List Float32) : Float32 :=
  samples.foldl (· + ·) (-0) / samples.length.toUInt64.toFloat32

/-- The number of frames of some channels: the length of the shortest. -/
def frames (channels : List Channel) : Nat := (channels.map Array.size).min?.getD 0

/-- Frame `i` of some channels. -/
def frame (channels : List Channel) (i : Nat) : List Float32 := channels.map fun c ↦ c.getD i 0

/-- The samples that are written for a frame: all of them, or their average alone. -/
def output (mix : Bool) (samples : List Float32) : List Float32 :=
  if mix && samples.length > 1 then [average samples] else samples

/-- The bytes of the first two of some channels, frame by frame. -/
def quantize (channels : List Channel) (bytes : UInt16) (mix : Bool) : Outcome Bytes :=
  if !Config.widthAccepted bytes then .error (.sampleWidth bytes)
  else
    let used := channels.take Buffer.maxChannels
    .ok <| (List.range (frames used)).flatMap fun i ↦
      (output mix (frame used i)).flatMap (encode bytes)

end Quantize

/-- The bytes of a buffer. -/
def Buffer.quantize (b : Buffer) (bytes : UInt16) : Outcome Bytes :=
  Quantize.quantize b.channels bytes false

end WaveMill
