import WaveMill.Disk
import WaveMill.MediaType

/-!
# Source files

A file that may be converted comes with a name, a media type and its contents.
-/

set_option autoImplicit false
namespace WaveMill

/-- A file that may be converted. -/
structure Source where
  name : String
  mediaType : String
  bytes : Bytes
  deriving DecidableEq, Repr

namespace Source

/-- Whether a file claims to be audio. -/
def isAudio (source : Source) : Bool := MediaType.isAudio source.mediaType

/-- A file as it is found at a path: its name is the last one of the path, and its type that of its
extension. -/
def ofPath (path : String) (bytes : Bytes) : Source where
  name := (Path.fileName? path).getD path
  mediaType := MediaType.ofPath path
  bytes := bytes

/-- The file at a path of a disk. -/
def load {m : Type → Type} [Monad m] (disk : Disk m) (path : String) : m (Outcome Source) := do
  match ← disk.read path with
  | .error fault => return .error (.disk fault)
  | .ok bytes => return .ok (ofPath path bytes)

end Source
end WaveMill
