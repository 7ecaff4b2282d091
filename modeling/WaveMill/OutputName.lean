import WaveMill.Text.LastOf

/-!
# Names of output files

A converted file has the name of its source with the extension replaced.  Only a dot with ASCII
letters and digits behind it, and nothing else, is an extension.

## What is here

* `OutputName.stem` — a name without its extension.
* `outputName` — the stem with the extension of a wave file.
-/

set_option autoImplicit false
namespace WaveMill
namespace OutputName

/-- Whether the characters behind a dot are an extension. -/
def isExtension (cs : List Char) : Bool := !cs.isEmpty && cs.all Char.isAlphanum

/-- A name without its extension. -/
def stem (name : List Char) : List Char :=
  match Text.splitLast '.' name with
  | some (before, behind) => if isExtension behind then before else name
  | none => name

end OutputName

/-- The name of the file that a source of the given name is converted to. -/
def outputName (name : String) : String := .ofList (OutputName.stem name.toList ++ ".wav".toList)

end WaveMill
