import WaveMill.CommandLine.Commands

/-!
# The program

Reads the command line, carries out the command on the disk of the machine, and prints what the
command has to say.  The program ends with `0` if all went well, with `1` if a file or the command
failed, and with `2` if the command line could not be read.
-/

set_option autoImplicit false
namespace WaveMill
namespace Machine

/-- The number of a fault of the operating system. -/
def faultNumber? : IO.Error → Option UInt32
  | .alreadyExists _ n _ => some n
  | .inappropriateType _ n _ => some n
  | .invalidArgument _ n _ => some n
  | .noFileOrDirectory _ n _ => some n
  | .noSuchThing _ n _ => some n
  | .resourceExhausted _ n _ => some n
  | .otherError n _ => some n
  | _ => none

/-- A fault of the operating system as one of a disk.  Some faults come with their number
negated. -/
def diskFault (error : IO.Error) : DiskFault :=
  match (faultNumber? error).map fun n ↦ min n (0 - n) with
  | some 2 => .noEntry
  | some 17 => .alreadyThere
  | some 20 => .notDirectory
  | some 21 => .isDirectory
  | some 36 => .nameTooLong
  | some 40 => .tooManyLinks
  | _ => .stated (toString error)

/-- The result of an action, or why the disk refused. -/
def attempt {α : Type} (action : IO α) : IO (Except DiskFault α) := do
  try return .ok (← action)
  catch error => return .error (diskFault error)

/-- The result of an action, or another one if it fails. -/
def orElse {α : Type} (default : α) (action : IO α) : IO α := do
  try action catch _ => return default

/-- What is at a path, as an entry of a directory. -/
def entryAt (path : String) : IO.FS.DirEntry := { root := path, fileName := "." }

/-- What a walk comes to below a directory: names on the way down, and whether there is a regular
file.  What cannot be read is left out. -/
partial def walk (directory : IO.FS.DirEntry) : IO (List (List String × Bool)) := do
  let entries ← orElse #[] directory.path.readDir
  let seen ← entries.toList.mapM fun entry ↦ orElse [] do
    let below ← match (← entry.path.symlinkMetadata).type with
      | .file => return [([entry.fileName], true)]
      | .dir => walk entry
      | _ => pure []
    return ([entry.fileName], false) :: below.map fun (names, isFile) ↦
      (entry.fileName :: names, isFile)
  return seen.flatten

/-- The disk of the machine. -/
def disk : Disk IO where
  isDirectory path := orElse false do (← IO.FS.realPath path).isDir
  walk path := do
    return (← walk (entryAt path)).map fun (names, isFile) ↦ ⟨Path.below path names, isFile⟩
  read path := attempt do return (← IO.FS.readBinFile path).toList
  makeDirectories path := attempt (if path = "" then return () else IO.FS.createDirAll path)
  write path bytes := attempt (IO.FS.writeBinFile path bytes.toByteArray)

/-- Carries out a command and prints its report; gives the number that the program ends with. -/
def run (invocation : CommandLine.Invocation) : IO UInt32 := do
  match ← invocation.command.run disk with
  | .error failure =>
    IO.eprintln s!"Error: {failure.message}"
    return 1
  | .ok report =>
    report.lines.forM fun line ↦ IO.println line
    if report.complete then return 0
    IO.eprintln "Error: one or more files could not be processed"
    return 1

end Machine
end WaveMill

/-- The program. -/
def main (arguments : List String) : IO UInt32 := do
  match WaveMill.CommandLine.Invocation.ofWords arguments with
  | .ok invocation => WaveMill.Machine.run invocation
  | .error .helpWanted =>
    IO.println WaveMill.CommandLine.UsageFault.helpWanted.message
    return 0
  | .error .versionWanted =>
    IO.println WaveMill.CommandLine.UsageFault.versionWanted.message
    return 0
  | .error fault =>
    IO.eprintln fault.message
    return 2
