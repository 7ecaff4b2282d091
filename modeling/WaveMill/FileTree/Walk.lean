import WaveMill.Failure
import WaveMill.FileTree
import WaveMill.Path

/-!
# Walking along a path

A path leads step by step from one place of a file tree to another.  Links on the way are followed,
at most forty of them; a link at the very end is followed unless a directory is to be made there.

## What is here

* `FileTree.Purpose` — why a path is walked, which decides what its end may be.
* `FileTree.Spot` — where a path leads: to an entry, or to a free name in a directory.
* `FileTree.walk` — the walk.
-/

set_option autoImplicit false
namespace WaveMill
namespace FileTree

/-- Why a path is walked. -/
inductive Purpose where
  /-- To see what is there. -/
  | look
  /-- To write a file there.  A path that ends in a slash names no file. -/
  | write
  /-- To make a directory there. -/
  | make
  deriving DecidableEq, Repr

/-- Where a path leads. -/
inductive Spot where
  | found (place : Place) (entry : Entry)
  /-- A name that no entry of a directory has. -/
  | free (place : Place) (name : String)
  deriving DecidableEq, Repr

/-- The number of links that a walk follows. -/
def maxLinks : Nat := 40

/-- The number of bytes that a name may have. -/
def maxName : Nat := 255

/-- The number of bytes that a path may have. -/
def maxPath : Nat := 4095

/-- Where the first step of a path is taken, for a walk that is at a place. -/
def origin (place : Place) (path : String) : Place := if Path.isAbsolute path then [] else place

/-- Follows steps from a directory; `follow` continues the walk behind a link. -/
def walkBy (tree : FileTree) (purpose : Purpose)
    (follow : Place → List String → Except DiskFault Spot) :
    Place → List String → Except DiskFault Spot
  | place, [] => .ok (.found place .directory)
  | place, step :: rest =>
    if Path.isIdle step then walkBy tree purpose follow place rest
    else if step = ".." then walkBy tree purpose follow place.dropLast rest
    else
      let last := rest.all (· == "")
      let there := place ++ [step]
      if last ∧ rest ≠ [] ∧ purpose = .write then .error .isDirectory
      else if maxName < step.utf8ByteSize then .error .nameTooLong
      else match tree.entry? there with
        | none => if last then .ok (.free place step) else .error .noEntry
        | some .directory => walkBy tree purpose follow there rest
        | some (.file bytes) =>
          if rest = [] ∨ last ∧ purpose = .make then .ok (.found there (.file bytes))
          else .error .notDirectory
        | some (.link target) =>
          if last ∧ purpose = .make then .ok (.found there (.link target))
          else follow (origin place target) (Path.steps target ++ rest)

/-- Follows steps from a directory, and so many links. -/
def walkLinks (tree : FileTree) (purpose : Purpose) :
    Nat → Place → List String → Except DiskFault Spot
  | 0 => walkBy tree purpose fun _ _ ↦ .error .tooManyLinks
  | links + 1 => walkBy tree purpose (walkLinks tree purpose links)

/-- Where a path leads. -/
def walk (tree : FileTree) (purpose : Purpose) (path : String) : Except DiskFault Spot :=
  if path.toList.contains '\x00' then .error .nulInPath
  else if path = "" then .error .noEntry
  else if maxPath < path.utf8ByteSize then .error .nameTooLong
  else walkLinks tree purpose maxLinks (origin tree.workplace path) (Path.steps path)

end FileTree
end WaveMill
