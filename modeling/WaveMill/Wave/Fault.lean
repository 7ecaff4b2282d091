/-!
# What can be wrong with a wave file

A wave file is a sequence of tagged chunks of which two matter: `fmt ` describes the samples and
`data` holds them.  The strict reader of `WaveMill.Wave.Reader` refuses a file for one of the
reasons listed here.

## What is here

* `Flaw` — one way in which the description contradicts itself or the rules of the format.
* `Fault` — why reading stopped: the bytes ran out, the description has a `Flaw`, the coding is not
  one that is read, or a sample is wider than its value may be.
* `Fault.message` — the wording, in one place.
-/

set_option autoImplicit false
namespace WaveMill
namespace Wave

/-- A way in which a wave file breaks the rules of its own format. -/
inductive Flaw where
  | noRiffTag
  | noWaveTag
  | missingFormat
  | shortFormat
  | noChannels
  | bitsExceedSample
  | inconsistentRates
  | bitsNotWholeBytes
  | zeroBits
  | integerWidth
  | unexpectedFormatSize
  | extraFormatBytes
  | floatWidth
  | extensionSize
  | raggedSamples
  | raggedFrames
  deriving DecidableEq, Repr

/-- The wording of a flaw. -/
def Flaw.message : Flaw → String
  | noRiffTag => "no RIFF tag found"
  | noWaveTag => "no WAVE tag found"
  | missingFormat => "missing fmt chunk"
  | shortFormat => "invalid fmt chunk size"
  | noChannels => "file contains zero channels"
  | bitsExceedSample => "sample bits exceeds size of sample"
  | inconsistentRates => "inconsistent fmt chunk"
  | bitsNotWholeBytes => "bits per sample is not a multiple of 8"
  | zeroBits => "bits per sample is 0"
  | integerWidth => "bits per sample is not 8 or 16"
  | unexpectedFormatSize => "unexpected fmt chunk size"
  | extraFormatBytes => "unexpected WAVEFORMATEX size"
  | floatWidth => "bits per sample is not 32"
  | extensionSize => "unexpected WAVEFORMATEXTENSIBLE size"
  | raggedSamples => "data chunk length is not a multiple of sample size"
  | raggedFrames => "invalid data chunk length"

/-- Why a wave file could not be read. -/
inductive Fault where
  /-- The file ends inside a field, a chunk or a sample. -/
  | endOfFile
  /-- The file breaks the rules of the format. -/
  | illFormed (flaw : Flaw)
  /-- The file is well formed, but its coding of samples is not one that is read. -/
  | unsupported
  /-- A sample takes more bits than the value it is read into. -/
  | tooWide
  deriving DecidableEq, Repr

/-- The wording of a fault. -/
def Fault.message : Fault → String
  | endOfFile => "Failed to read enough bytes."
  | illFormed flaw => "Ill-formed WAVE file: " ++ flaw.message
  | unsupported => "The wave format of the file is not supported."
  | tooWide => "The sample has more bits than the destination type."

end Wave
end WaveMill
