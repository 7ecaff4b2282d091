import WaveMill.Normalize
import WaveMill.Quantize
import WaveMill.Reduce
import WaveMill.Resample
import WaveMill.Wave.Container

/-!
# Conversion

A recording is converted in a fixed order of stages: it is resampled, brought down to the channels
that are wanted, normalized, quantized and put into a container.  Normalization comes after the
channels were mixed, so that the file that is written reaches full scale.

## What is here

* `transcode` — the stages up to normalization, which a preview plays.
* `Buffer.render` — the stages from quantization on.
* `convert` — all of them, for a description that was checked first.
-/

set_option autoImplicit false
namespace WaveMill

/-- A recording as it will be written or played, still as samples. -/
def transcode (resample : Resampler) (config : Config) (raw : Buffer) : Outcome Buffer := do
  let resampled ← resample raw config.rate
  return (resampled.reduce config.mode).normalize

/-- The wave file of a buffer. -/
def Buffer.render (b : Buffer) (bytes : UInt16) : Outcome Bytes := do
  let data ← b.quantize bytes
  Wave.file data (UInt16.ofNat b.channels.length) b.rate bytes

/-- The wave file of a recording in the target format. -/
def convert (resample : Resampler) (config : Config) (raw : Buffer) : Outcome Bytes := do
  config.validate
  let ready ← transcode resample config raw
  ready.render config.bytes

end WaveMill
