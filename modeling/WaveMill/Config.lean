import WaveMill.ChannelMode

/-!
# The target format

What a conversion produces is described by a sample rate, a sample width and a channel mode.  A
description may hold any numbers; `Config.validate` says which descriptions can be converted to.
-/

set_option autoImplicit false
namespace WaveMill

/-- A description of the target format. -/
structure Config where
  /-- Samples per second. -/
  rate : UInt32
  /-- Bytes per sample: one for unsigned, two for signed samples. -/
  bytes : UInt16
  /-- What becomes of the channels. -/
  mode : ChannelMode
  deriving DecidableEq, Repr

namespace Config

/-- The format of a compact disc. -/
def standard : Config := ⟨44100, 2, .both⟩

/-- Whether samples of so many bytes can be written. -/
def widthAccepted (bytes : UInt16) : Bool := bytes == 1 || bytes == 2

theorem widthAccepted_iff {bytes : UInt16} :
    widthAccepted bytes = true ↔ bytes = 1 ∨ bytes = 2 := by
  simp [widthAccepted]

/-- Refuses a description that cannot be converted to.  A bad width is reported before a bad
rate. -/
def validate (config : Config) : Outcome Unit :=
  if !widthAccepted config.bytes then .error (.sampleWidth config.bytes)
  else if !Rate.accepted config.rate then .error (.config (.rateOutOfRange config.rate))
  else .ok ()

theorem validate_eq_ok_iff {config : Config} :
    config.validate = .ok () ↔
      (config.bytes = 1 ∨ config.bytes = 2) ∧
        8000 ≤ config.rate.toNat ∧ config.rate.toNat ≤ 64000 := by
  rw [← widthAccepted_iff, ← Rate.accepted_iff, validate]
  cases widthAccepted config.bytes <;> cases Rate.accepted config.rate <;> simp

/-- Bits per sample.  A width that does not fit its field when counted in bits has no answer. -/
def bitDepth (config : Config) : Outcome UInt16 :=
  if config.bytes.toNat * 8 < UInt16.size then .ok (config.bytes * 8)
  else .error (.aborted .productOverflow)

end Config
end WaveMill
