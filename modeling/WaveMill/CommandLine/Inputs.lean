import WaveMill.Ordered
import WaveMill.Path.Components
import WaveMill.Source

/-!
# Inputs of a command

An input is a path.  A directory stands for the regular files below it; every other path stands for
itself, whether anything is there or not.

## What is here

* `regularFiles` — the paths of the files among what a walk came to, in order.
* `collectInputs` — the paths of the files that some inputs stand for.
* `loadSources` — the files, and those that could not be read.
-/

set_option autoImplicit false
namespace WaveMill
namespace CommandLine

variable {m : Type → Type} [Monad m]

/-- The paths of the regular files among what a walk came to, in the order of their components. -/
def regularFiles (seen : List Sighting) : List String :=
  Ordered.sort Path.components ((seen.filter Sighting.isFile).map Sighting.path)

/-- The paths of the files that an input stands for. -/
def expandInput (disk : Disk m) (input : String) : m (List String) := do
  if ← disk.isDirectory input then return regularFiles (← disk.walk input) else return [input]

/-- The paths of the files that some inputs stand for. -/
def collectInputs (disk : Disk m) (inputs : List String) : m (List String) := do
  return (← inputs.mapM (expandInput disk)).flatten

/-- A file with its path, or why it could not be read. -/
abbrev Loaded := String × Outcome Source

/-- The files that some inputs stand for. -/
def loadSources (disk : Disk m) (inputs : List String) : m (List Loaded) := do
  (← collectInputs disk inputs).mapM fun path ↦ do return (path, ← Source.load disk path)

/-- The files that could be read. -/
def readable (loaded : List Loaded) : List Source :=
  loaded.filterMap fun (_, result) ↦ result.toOption

/-- The files that could not be read, by their paths. -/
def unreadable (loaded : List Loaded) : List FailedFile :=
  loaded.filterMap fun (path, result) ↦
    match result with
    | .ok _ => none
    | .error failure => some ⟨path, failure⟩

end CommandLine
end WaveMill
