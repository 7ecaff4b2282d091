import WaveMill.CommandLine.Arguments
import WaveMill.CommandLine.Inputs
import WaveMill.CommandLine.Report

/-!
# The commands

`convert` converts all inputs and writes the files into a directory; `inspect` only says how long
they are and how large they would become.  A command goes on when a file fails, and says at the end
whether all went well.  It leaves it to a decoder which formats there are.

## What is here

* `Report` — what a command has to say.
* `convertFiles`, `inspectFiles` — the commands, for a target format that can be converted to.
* `Command.runWith` — a command with its options, and `Command.run` — the same with the decoder of
  audio that is not compressed.
-/

set_option autoImplicit false
namespace WaveMill
namespace CommandLine

/-- The lines of a command, and whether all went well. -/
structure Report where
  lines : List String
  complete : Bool
  deriving DecidableEq, Repr

variable {m : Type → Type} [Monad m]

/-- Converts all inputs and writes the files into the output directory. -/
def convertFiles (decode : Decoder) (disk : Disk m) (inputs : List String) (output : String)
    (config : Config) : m (Outcome Report) := do
  let loaded ← loadSources disk inputs
  match Session.new (.new .timed) config with
  | .error failure => return .error failure
  | .ok session =>
    let (added, session) := session.add decode (readable loaded)
    let (saved, _) ← session.saveAll Resample.linear (.inDirectory disk output)
    return .ok
      { lines := (unreadable loaded).map failureLine ++ addLines added ++ savedLines saved output
        complete := (unreadable loaded).isEmpty && added.isComplete && saved.isComplete }

/-- Says how long all inputs are and how large they would become. -/
def inspectFiles (decode : Decoder) (disk : Disk m) (inputs : List String) (config : Config) :
    m (Outcome Report) := do
  let loaded ← loadSources disk inputs
  return do
    let session ← Session.new (.new .timed) config
    let (added, session) := session.add decode (readable loaded)
    let bits ← config.bitDepth
    return {
      lines := (unreadable loaded).map failureLine ++ addLines added ++ targetLine config bits ::
        session.summaries.1.map summaryLine
      complete := (unreadable loaded).isEmpty && added.isComplete }

/-- Carries out a command with a decoder for the inputs. -/
def Command.runWith (decode : Decoder) (disk : Disk m) : Command → m (Outcome Report)
  | .convert inputs output target => do
    match ← target.resolve disk with
    | .error failure => return .error failure
    | .ok config => convertFiles decode disk inputs output config
  | .inspect inputs target => do
    match ← target.resolve disk with
    | .error failure => return .error failure
    | .ok config => inspectFiles decode disk inputs config

/-- Carries out a command with the decoder of audio that is not compressed. -/
def Command.run (disk : Disk m) : Command → m (Outcome Report) := Command.runWith decodeAudio disk

end CommandLine
end WaveMill
