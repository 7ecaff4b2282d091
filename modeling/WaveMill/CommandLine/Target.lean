import WaveMill.Config.File
import WaveMill.Config.Preset

/-!
# The target format of a command

A command line can describe the target format in three ways.  A configuration file gives all of it,
a preset changes it field by field, and a flag sets one field; a later way goes before an earlier
one.

## What is here

* `TargetOptions` — what a command line says about the target format.
* `TargetOptions.applyTo` — the description that the preset and the flags make of another.
* `TargetOptions.resolve` — the target format, which can be converted to.
-/

set_option autoImplicit false
namespace WaveMill

/-- What a command line says about the target format. -/
structure TargetOptions where
  /-- The path of a configuration file. -/
  config : Option String
  preset : Option String
  rate : Option UInt32
  /-- Bits per sample. -/
  bits : Option UInt16
  mode : Option ChannelMode
  deriving DecidableEq, Repr

namespace TargetOptions

/-- Nothing is said. -/
def none : TargetOptions := ⟨.none, .none, .none, .none, .none⟩

/-- Bits per sample as bytes. -/
def bytesOfBits (bits : UInt16) : Outcome UInt16 :=
  if bits % 8 = 0 then .ok (bits / 8) else .error (.config (.brokenByte bits))

/-- The description that the preset and the flags make of another. -/
def applyTo (options : TargetOptions) (base : Config) : Outcome Config := do
  let config := options.preset.elim base base.applyPreset
  let bytes ← options.bits.elim (.ok config.bytes) bytesOfBits
  let config : Config :=
    { rate := options.rate.getD config.rate, bytes, mode := options.mode.getD config.mode }
  config.validate
  return config

/-- The target format. -/
def resolve {m : Type → Type} [Monad m] (options : TargetOptions) (disk : Disk m) :
    m (Outcome Config) := do
  match options.config with
  | .none => return options.applyTo .standard
  | some path => return (← Config.load disk path) >>= options.applyTo

end TargetOptions
end WaveMill
