import WaveMill.Disk
import WaveMill.FileTree.Walk

/-!
# A file tree as a disk

The operations of a disk on a file tree.  Those that fail leave the tree as far as they came: a
directory that was made on the way to one that cannot be made stays.

## What is here

* `FileTree.fileAt`, `FileTree.isDirectory`, `FileTree.sightings` — looking at a tree.
* `FileTree.makeDirectory`, `FileTree.makeDirectories`, `FileTree.putFile`, `FileTree.makeLink` —
  changing it.
* `FileTree.disk` — the disk that they make.
-/

set_option autoImplicit false
namespace WaveMill
namespace FileTree

/-- A change of a tree that may fail on its way. -/
abbrev Change := ExceptT DiskFault (StateM FileTree)

/-- The contents of the file at a path. -/
def fileAt (tree : FileTree) (path : String) : Except DiskFault Bytes := do
  match ← tree.walk .look path with
  | .found _ (.file bytes) => return bytes
  | .found _ _ => throw .isDirectory
  | .free _ _ => throw .noEntry

/-- Whether a path leads to a directory. -/
def isDirectory (tree : FileTree) (path : String) : Bool :=
  match tree.walk .look path with
  | .ok (.found _ .directory) => true
  | _ => false

/-- An entry below a directory, as it is seen by way of the path of the directory. -/
def sighting (path : String) (found : Place × Entry) : Sighting where
  path := Path.below path found.1
  isFile := found.2.isFile

/-- All that is below a directory. -/
def sightings (tree : FileTree) (path : String) : List Sighting :=
  match tree.walk .look path with
  | .ok (.found place .directory) => (tree.below place).map (sighting path)
  | _ => []

/-- Makes a directory in one that is there. -/
def makeDirectory (path : String) : Change Unit := do
  match (← get).walk .make path with
  | .ok (.free place name) => modify fun tree ↦ tree.put place name .directory
  | .ok (.found _ _) => throw .alreadyThere
  | .error fault => throw fault

/-- Makes a directory, unless there is one. -/
def ensureDirectory (path : String) : Change Unit := do
  try makeDirectory path
  catch fault => if (← get).isDirectory path then return () else throw fault

/-- Makes the first of some directories.  Those that it lies in follow it in the list, and are made
where they are missing. -/
def ensureFirst : List String → Change Unit
  | [] => return ()
  | path :: shorter => do
    try ensureDirectory path
    catch
      | .noEntry => do
        ensureFirst shorter
        ensureDirectory path
      | fault => throw fault

/-- Makes a directory, and those that its path passes through, where they are missing. -/
def makeDirectories (path : String) : Change Unit :=
  if path = "" then return () else ensureFirst (path :: Path.shorter path)

/-- Makes a file of the given contents, in place of one that is there. -/
def putFile (path : String) (bytes : Bytes) : Change Unit := do
  match (← get).walk .write path with
  | .ok (.free place name) => modify fun tree ↦ tree.put place name (.file bytes)
  | .ok (.found place (.file _)) =>
    match place.getLast? with
    | some name => modify fun tree ↦ tree.put place.dropLast name (.file bytes)
    | none => throw .isDirectory
  | .ok (.found _ _) => throw .isDirectory
  | .error fault => throw fault

/-- Makes a symbolic link in a directory that is there. -/
def makeLink (path target : String) : Change Unit := do
  match (← get).walk .make path with
  | .ok (.free place name) => modify fun tree ↦ tree.put place name (.link target)
  | .ok (.found _ _) => throw .alreadyThere
  | .error fault => throw fault

/-- A file tree as a disk. -/
def disk : Disk (StateM FileTree) where
  isDirectory path := do return (← get).isDirectory path
  walk path := do return (← get).sightings path
  read path := do return (← get).fileAt path
  makeDirectories path := (makeDirectories path).run
  write path bytes := (putFile path bytes).run

end FileTree
end WaveMill
