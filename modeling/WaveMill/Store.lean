import WaveMill.Disk
import WaveMill.Path

/-!
# Stores

A store takes finished files, each under an output name.  One store keeps them in memory in the
order in which they came, another one writes them into a directory.

## What is here

* `Store` — anything that takes a named file, or says why not.
* `Shelf` and `Shelf.store` — the store in memory; `Shelf.storeIf` and `Shelf.storeUnless` refuse
  some names.
* `Store.inDirectory` — the store on a disk.  Of an output name only the last component is used, so
  that nothing is written outside of the directory.
-/

set_option autoImplicit false
namespace WaveMill

/-- A place for finished files. -/
abbrev Store (m : Type → Type) := String → Bytes → m (Outcome Unit)

/-- The files that a store in memory holds, in the order in which they came. -/
structure Shelf where
  blobs : List (String × Bytes)
  deriving DecidableEq, Repr

namespace Shelf

/-- A shelf with nothing on it. -/
def empty : Shelf := ⟨[]⟩

/-- The shelf with one more file. -/
def push (shelf : Shelf) (name : String) (bytes : Bytes) : Shelf := ⟨shelf.blobs ++ [(name, bytes)]⟩

/-- The file that came last under a name. -/
def get? (shelf : Shelf) (name : String) : Option Bytes :=
  (shelf.blobs.reverse.find? fun (n, _) ↦ n == name).map Prod.snd

/-- The store that puts files on a shelf. -/
def store : Store (StateM Shelf) := fun name bytes ↦ do
  modify fun shelf ↦ shelf.push name bytes
  return .ok ()

/-- The store that puts files on a shelf if nothing speaks against their names. -/
def storeIf (verdict : String → Outcome Unit) : Store (StateM Shelf) := fun name bytes ↦
  match verdict name with
  | .error failure => return .error failure
  | .ok () => store name bytes

/-- The store that puts files on a shelf, except those whose names are refused. -/
def storeUnless (refused : String → Option PersistFault) : Store (StateM Shelf) :=
  storeIf fun name ↦
    match refused name with
    | some fault => .error (.persist name fault)
    | none => .ok ()

theorem get?_push (shelf : Shelf) (name other : String) (bytes : Bytes) :
    (shelf.push name bytes).get? other = if name = other then some bytes else shelf.get? other := by
  by_cases h : name = other <;> simp [push, get?, h]

end Shelf

/-- The store that writes files into a directory of a disk, which is made when it is needed. -/
def Store.inDirectory {m : Type → Type} [Monad m] (disk : Disk m) (directory : String) : Store m :=
  fun name bytes ↦ do
    match Path.fileName? name with
    | none => return .error (.persist name .notAFileName)
    | some file =>
      match ← disk.makeDirectories directory with
      | .error fault => return .error (.persist name (.disk fault))
      | .ok () =>
        match ← disk.write (Path.join directory file) bytes with
        | .error fault => return .error (.persist name (.disk fault))
        | .ok () => return .ok ()

end WaveMill
