import WaveMill.Rate
import WaveMill.Wave.Fault

/-!
# Failures

Every operation that can fail says why with a value of `Failure`.  A failure is a cause, not a text:
the wording is chosen in one place, by `Failure.message`, and a short fixed code for batch reports
by `Failure.code`.

## What is here

* `ShapeFault`, `ConfigFault`, `DecodeFault`, `ResampleFault`, `PersistFault`, `DiskFault` — the
  causes of each kind of failure.
* `Failure` — a cause together with what it happened to.
* `Abort` — an arithmetic overflow, or a collaborator that gave up altogether.  An aborted
  computation has no answer at all; where it runs as one task of a batch, the batch reports a failed
  task.

Decoders, resamplers, playback devices and stores are supplied from outside, so each of their kinds
of failure has a constructor `stated` for a reason in the supplier's own words.
-/

set_option autoImplicit false
namespace WaveMill

/-- Why some channel data is not a buffer. -/
inductive ShapeFault where
  /-- There are no channels, or more than two. -/
  | channelCount (count : Nat)
  /-- The channels do not all hold the same number of samples. -/
  | unequalLengths
  /-- The sample rate is zero. -/
  | zeroRate
  /-- Interleaved samples do not split into whole frames. -/
  | ragged (length channels : Nat)
  | stated (reason : String)
  deriving DecidableEq, Repr

/-- The wording of a shape fault. -/
def ShapeFault.message : ShapeFault → String
  | channelCount count => s!"{count} channels (only mono/stereo supported)"
  | unequalLengths => "channel lengths differ"
  | zeroRate => "sample rate must be positive"
  | ragged length channels =>
    s!"Interleaved data length {length} is not divisible by channel count {channels}"
  | stated reason => reason

/-- Why a description of the target format is not one. -/
inductive ConfigFault where
  /-- A channel mode by a name that none has. -/
  | unknownMode (text : String)
  /-- A sample rate outside the accepted range. -/
  | rateOutOfRange (rate : UInt32)
  /-- A number of bits that is not a whole number of bytes. -/
  | brokenByte (bits : UInt16)
  | stated (reason : String)
  deriving DecidableEq, Repr

/-- The wording of a configuration fault. -/
def ConfigFault.message : ConfigFault → String
  | unknownMode text => s!"unknown channel mode '{text}' (expected both, left, right or mix)"
  | rateOutOfRange rate => s!"sample rate {rate} Hz outside {Rate.lowest}..={Rate.highest} Hz"
  | brokenByte bits => s!"{bits} bits per sample is not a whole number of bytes"
  | stated reason => reason

/-- How the samples of a wave file are coded. -/
inductive SampleKind where
  | float
  | integer
  deriving DecidableEq, Repr

/-- The name of a coding in reports. -/
def SampleKind.name : SampleKind → String
  | float => "Float"
  | integer => "Int"

/-- Why the bytes of a file did not become a buffer. -/
inductive DecodeFault where
  /-- The strict wave reader refused the headers. -/
  | notWave (fault : Wave.Fault)
  /-- The strict wave reader stopped inside the samples. -/
  | samples (fault : Wave.Fault)
  /-- The audio has a number of channels other than one or two. -/
  | channelCount (count : Nat)
  /-- Samples of this coding and width are not read. -/
  | sampleWidth (kind : SampleKind) (bits : Nat)
  /-- The samples do not make a buffer. -/
  | shape (fault : ShapeFault)
  /-- No known container was found, or its headers are damaged. -/
  | unrecognized
  /-- The container holds no track of a known coding. -/
  | noTrack
  /-- The container names a coding for which there is no decoder. -/
  | noCodec
  /-- Neither the headers nor a packet tell the sample rate. -/
  | unknownRate
  /-- Neither the headers nor a packet tell the number of channels. -/
  | unknownChannelCount
  /-- The container says that a block of samples takes no bytes. -/
  | emptyBlocks
  /-- An adaptive coding names a predictor that does not exist. -/
  | blockPredictor
  /-- The task that decoded the file was aborted. -/
  | abortedTask
  | stated (reason : String)
  deriving DecidableEq, Repr

/-- The wording of a decoding fault. -/
def DecodeFault.message : DecodeFault → String
  | notWave fault => "not a WAV file: " ++ fault.message
  | samples fault => "failed to read samples: " ++ fault.message
  | channelCount count => s!"{count}-channel audio (only mono/stereo supported)"
  | sampleWidth kind bits => s!"unsupported {kind.name} sample width {bits}"
  | shape fault => "Invalid PCM buffer: " ++ fault.message
  | unrecognized => "unrecognized format:"
  | noTrack => "no supported audio tracks"
  | noCodec => "unsupported codec:"
  | unknownRate => "unknown sample rate"
  | unknownChannelCount => "unknown channel count"
  | emptyBlocks => "malformed stream: riff: block size is 0"
  | blockPredictor => "unsupported feature: adpcm: block predictor exceeds range"
  | abortedTask => "decoder task failed:"
  | stated reason => reason

/-- Why a buffer was not brought to another sample rate. -/
inductive ResampleFault where
  /-- The target sample rate is zero. -/
  | zeroTarget
  | stated (reason : String)
  deriving DecidableEq, Repr

/-- The wording of a resampling fault. -/
def ResampleFault.message : ResampleFault → String
  | zeroTarget => "target sample rate must be positive"
  | stated reason => reason

/-- Why the file system refused. -/
inductive DiskFault where
  | noEntry
  | alreadyThere
  | notDirectory
  | isDirectory
  | nameTooLong
  | tooManyLinks
  | nulInPath
  | notText
  | stated (reason : String)
  deriving DecidableEq, Repr

/-- The wording of a file system fault. -/
def DiskFault.message : DiskFault → String
  | noEntry => "No such file or directory (os error 2)"
  | alreadyThere => "File exists (os error 17)"
  | notDirectory => "Not a directory (os error 20)"
  | isDirectory => "Is a directory (os error 21)"
  | nameTooLong => "File name too long (os error 36)"
  | tooManyLinks => "Too many levels of symbolic links (os error 40)"
  | nulInPath => "file name contained an unexpected NUL byte"
  | notText => "stream did not contain valid UTF-8"
  | stated reason => reason

/-- Why a finished file was not stored. -/
inductive PersistFault where
  /-- The name has no last component that could name a file. -/
  | notAFileName
  | disk (fault : DiskFault)
  /-- An earlier asset of the same batch already uses the output name. -/
  | taken (output owner : String)
  /-- The task that converted the asset was aborted. -/
  | abortedTask
  | stated (reason : String)
  deriving DecidableEq, Repr

/-- The wording of a storing fault. -/
def PersistFault.message : PersistFault → String
  | notAFileName => "not a file name"
  | disk fault => fault.message
  | taken output owner => s!"output name {output} is already used by {owner}"
  | abortedTask => "conversion task failed:"
  | stated reason => reason

/-- A computation that ended without any answer. -/
inductive Abort where
  /-- A product does not fit its field. -/
  | productOverflow
  /-- A sum does not fit its field. -/
  | sumOverflow
  | stated (reason : String)
  deriving DecidableEq, Repr

/-- The wording of an abort. -/
def Abort.message : Abort → String
  | productOverflow => "attempt to multiply with overflow"
  | sumOverflow => "attempt to add with overflow"
  | stated reason => reason

/-- Why an operation failed. -/
inductive Failure where
  | decode (name : String) (fault : DecodeFault)
  | buffer (fault : ShapeFault)
  /-- A sample width other than one or two bytes. -/
  | sampleWidth (bytes : UInt16)
  | config (fault : ConfigFault)
  | resample (fault : ResampleFault)
  | playback (reason : String)
  | persist (name : String) (fault : PersistFault)
  /-- There is no asset at the index; the registry holds `count`. -/
  | assetIndex (index count : Nat)
  | disk (fault : DiskFault)
  /-- A configuration file that is not a document of the expected form. -/
  | document
  | aborted (abort : Abort)
  deriving DecidableEq, Repr

/-- The failure of a file, where what is wrong with its samples is put down to the file. -/
def Failure.inFile (name : String) : Failure → Failure
  | buffer fault => decode name (.shape fault)
  | failure => failure

/-- The code of a failure in batch reports. -/
def Failure.code : Failure → String
  | decode .. => "DECODE_FAILED"
  | buffer .. => "INVALID_BUFFER"
  | sampleWidth .. => "UNSUPPORTED_SAMPLE_WIDTH"
  | config .. => "INVALID_CONFIG"
  | resample .. => "RESAMPLE_FAILED"
  | playback .. => "PLAYBACK_FAILED"
  | persist .. => "PERSIST_FAILED"
  | assetIndex .. => "INDEX_OUT_OF_RANGE"
  | disk .. => "IO_ERROR"
  | document => "SERIALIZATION_ERROR"
  | aborted .. => "ABORTED"

/-- The wording of a failure. -/
def Failure.message : Failure → String
  | decode name fault => s!"Failed to decode '{name}': {fault.message}"
  | buffer fault => s!"Invalid PCM buffer: {fault.message}"
  | sampleWidth bytes => s!"Unsupported sample width: {bytes} bytes (only 1 or 2 supported)"
  | config fault => s!"Invalid configuration: {fault.message}"
  | resample fault => s!"Resampling failed: {fault.message}"
  | playback reason => s!"Playback failed: {reason}"
  | persist name fault => s!"Failed to save '{name}': {fault.message}"
  | assetIndex index count => s!"Asset index {index} out of range (registry holds {count})"
  | disk fault => s!"I/O error: {fault.message}"
  | document => "Serialization error: "
  | aborted abort => abort.message

/-- A file that was not processed, and why. -/
structure FailedFile where
  name : String
  failure : Failure
  deriving DecidableEq, Repr

/-- The outcome of an operation that may fail. -/
abbrev Outcome (α : Type) := Except Failure α

end WaveMill
