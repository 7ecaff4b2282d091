import WaveMill.Bytes
import WaveMill.Failure

/-!
# Disks

Configuration files, sources and converted files live on a disk.  What the library needs of one is a
record of five operations, so that the same command runs on the disk of the machine and on a disk
that is a plain value.  The effects of the operations are those of a monad.
-/

set_option autoImplicit false
namespace WaveMill

/-- A path that a walk through a directory comes to. -/
structure Sighting where
  path : String
  /-- Whether there is a regular file, and not a directory, a link, or anything else. -/
  isFile : Bool
  deriving DecidableEq, Repr

/-- What can be done with a disk.  Files are named by paths. -/
structure Disk (m : Type → Type) where
  /-- Whether a path leads to a directory, by way of links too. -/
  isDirectory : String → m Bool
  /-- What a walk comes to below a directory, in an order that is left to the disk.  Links in the
  directory are not followed, and what cannot be read is left out. -/
  walk : String → m (List Sighting)
  /-- The contents of a file. -/
  read : String → m (Except DiskFault Bytes)
  /-- Makes a directory, and those that its path passes through, where they are missing. -/
  makeDirectories : String → m (Except DiskFault Unit)
  /-- Makes a file of the given contents, in place of one that is there. -/
  write : String → Bytes → m (Except DiskFault Unit)

end WaveMill
