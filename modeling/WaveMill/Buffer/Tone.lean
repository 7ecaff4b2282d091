import WaveMill.Buffer

/-!
# Test tones

A tone is a sine wave of a given frequency, amplitude and duration, for trying a conversion out
without a recording.  The sine itself is the one of the platform; everything else about a tone, its
length first of all, is computed here in `binary32` arithmetic.
-/

set_option autoImplicit false
namespace WaveMill
namespace Buffer

/-- A full turn, `2 * π`. -/
def turn : Float32 := .ofBits 0x40c90fdb

/-- The number of whole samples in a time. -/
def toneLength (seconds : Float32) (rate : UInt32) : Nat :=
  (seconds * rate.toFloat32).toUInt64.toNat

/-- The samples of a tone. -/
def toneSamples (frequency amplitude seconds : Float32) (rate : UInt32) : Channel :=
  let step := turn * frequency / rate.toFloat32
  .ofFn fun i : Fin (toneLength seconds rate) ↦ amplitude * (step * i.val.toUInt64.toFloat32).sin

/-- A tone on one channel. -/
def tone (frequency amplitude seconds : Float32) (rate : UInt32) : Outcome Buffer :=
  mono (toneSamples frequency amplitude seconds rate) rate

/-- Two tones of the same amplitude, one on each channel. -/
def stereoTone (left right amplitude seconds : Float32) (rate : UInt32) : Outcome Buffer :=
  stereo (toneSamples left amplitude seconds rate) (toneSamples right amplitude seconds rate) rate

end Buffer
end WaveMill
