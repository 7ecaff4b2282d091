import WaveMill.Config.Document
import WaveMill.Disk

/-!
# Configurations on disk

Reading a configuration fails for one of four reasons, which are looked for in this order: the disk
refuses, the file is not text, the text is not a document of the expected form, and the format it
describes cannot be converted to.
-/

set_option autoImplicit false
namespace WaveMill
namespace Config

/-- The configuration that the contents of a file hold. -/
def ofFile (bytes : Bytes) : Outcome Config := do
  match bytes.toText? with
  | none => throw (.disk .notText)
  | some text =>
    match ofDocument? text with
    | none => throw .document
    | some config =>
      config.validate
      return config

variable {m : Type → Type} [Monad m]

/-- The configuration in the file at a path. -/
def load (disk : Disk m) (path : String) : m (Outcome Config) := do
  match ← disk.read path with
  | .error fault => return .error (.disk fault)
  | .ok bytes => return ofFile bytes

/-- Writes the configuration to the file at a path. -/
def save (config : Config) (disk : Disk m) (path : String) : m (Outcome Unit) := do
  match ← disk.write path (Bytes.ofText config.document) with
  | .error fault => return .error (.disk fault)
  | .ok () => return .ok ()

end Config
end WaveMill
