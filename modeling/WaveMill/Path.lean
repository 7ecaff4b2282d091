import WaveMill.Text.LastOf

/-!
# Paths

A path is a text of names separated by `/`.  Empty names and `.` say nothing, and `..` goes up.

## What is here

* `Path.steps` and `Path.names` — all that stands between the slashes, and what of it says
  something.
* `Path.isName` — which texts name an entry of a directory.
* `Path.fileName?` — the last name, if it is one; `Path.extension?` — what follows its last dot.
* `Path.join` — a path continued by a name; `Path.below` — by several.
* `Path.shorter` — the paths of the directories that a path passes through.
-/

set_option autoImplicit false
namespace WaveMill
namespace Path

/-- The texts between the slashes of a path. -/
def steps (path : String) : List String := (path.toList.splitOn '/').map String.ofList

/-- Whether a step leaves everything as it is. -/
def isIdle (step : String) : Bool := step == "" || step == "."

/-- The steps that lead anywhere. -/
def names (path : String) : List String := (steps path).filter fun step ↦ !isIdle step

/-- Whether a text can be the name of an entry of a directory. -/
def isName (name : String) : Bool := !isIdle name && name != ".." && !name.toList.contains '/'

/-- Whether a path begins at the root. -/
def isAbsolute (path : String) : Bool := path.toList.head? == some '/'

/-- The last name of a path, unless the path ends by going up. -/
def fileName? (path : String) : Option String := (names path).getLast?.filter (· ≠ "..")

/-- What follows the last dot of the file name.  A dot at its very beginning does not count. -/
def extension? (path : String) : Option String := do
  let name ← fileName? path
  let (before, behind) ← Text.splitLast '.' name.toList
  if before = [] then none else some (.ofList behind)

/-- The path continued by a name; no slash is written twice. -/
def join (path name : String) : String :=
  if path.toList.getLast?.all (· == '/') then path ++ name else path ++ "/" ++ name

/-- Several names as a path. -/
def ofNames (names : List String) : String := "/".intercalate names

/-- The path of what is reached from a directory by way of names. -/
def below (path : String) (names : List String) : String := join path (ofNames names)

/-- The paths of the directories that a path passes through before its last name, the longest
first. -/
def shorter (path : String) : List String :=
  let names := names path
  let root := if isAbsolute path then "/" else ""
  ((List.range names.length).drop 1).reverse.map fun n ↦ root ++ ofNames (names.take n)

end Path
end WaveMill
