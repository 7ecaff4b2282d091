import WaveMill.CommandLine.Options

/-!
# Reading a command line

A command line is read word by word.  A word that begins with `-` is an option, or several letters
of options in one; the value of a setting is the rest of its word, or the next word.  Other words
are inputs.  Behind `--` all words are inputs.

A value is not looked at when it is read but when the next known option begins, or at the end.  So a
word that is no option is reported before a bad value in front of it.

## What is here

* `Command` and `Invocation` — what a command line asks for.
* `Given` — what was read so far, and `Given.settle`, which looks at the value that was read last.
* `Invocation.ofWords` — reads a command line.
-/

set_option autoImplicit false
namespace WaveMill
namespace CommandLine

/-- What is to be done. -/
inductive Command where
  | convert (inputs : List String) (output : String) (target : TargetOptions)
  | inspect (inputs : List String) (target : TargetOptions)
  deriving DecidableEq, Repr

/-- What a command line asks for. -/
structure Invocation where
  verbose : Bool
  command : Command
  deriving DecidableEq, Repr

/-- What was read last and not looked at. -/
inductive Open where
  | nothing
  /-- A setting that waits for its value. -/
  | setting (setting : Setting)
  /-- A setting with its value. -/
  | value (setting : Setting) (text : String)
  | inputs (texts : List String)
  deriving DecidableEq, Repr

/-- What was read at one level of a command line. -/
structure Given where
  verbose : Bool
  inputs : List String
  output : Option String
  target : TargetOptions
  pending : Open
  deriving DecidableEq, Repr

namespace Given

/-- Nothing was read. -/
def nothing : Given := ⟨false, [], none, .none, .nothing⟩

/-- The number below `bound` that a value writes.  A sign may stand in front, but only zero is its
own negative. -/
def word? (bound : Nat) (text : String) : Option Nat :=
  match text.toList with
  | '-' :: digits => (Text.readDigits bound digits).filter (· == 0)
  | cs => Text.readNat bound cs

/-- A value, or the fault that it is none. -/
def valueOr {α : Type} (fault : UsageFault) (value : Option α) : Except UsageFault α :=
  value.elim (.error fault) .ok

/-- A path, which must not be empty. -/
def path (text : String) : Except UsageFault String :=
  if text = "" then .error .noValue else .ok text

/-- Fails if an option was given before. -/
def once {α : Type} (before : Option α) : Except UsageFault Unit :=
  if before.isSome then .error .repeated else .ok ()

/-- Gives a setting its value. -/
def assign (given : Given) (setting : Setting) (text : String) : Except UsageFault Given := do
  let target := given.target
  match setting with
  | .output =>
    once given.output
    return { given with output := some (← path text) }
  | .config =>
    once target.config
    return { given with target := { target with config := some (← path text) } }
  | .preset =>
    once target.preset
    return { given with target := { target with preset := some text } }
  | .rate =>
    once target.rate
    let n ← valueOr .badValue (word? UInt32.size text)
    return { given with target := { target with rate := some (UInt32.ofNat n) } }
  | .bits =>
    once target.bits
    let n ← valueOr .badValue (word? UInt16.size text)
    return { given with target := { target with bits := some (UInt16.ofNat n) } }
  | .mode =>
    once target.mode
    let mode ← valueOr .badValue (ChannelMode.ofName? text)
    return { given with target := { target with mode := some mode } }

/-- Looks at what was read last. -/
def settle (given : Given) : Except UsageFault Given := do
  let settled := { given with pending := .nothing }
  match given.pending with
  | .nothing => return settled
  | .setting _ => throw .noValue
  | .value setting text => settled.assign setting text
  | .inputs texts => return { settled with inputs := given.inputs ++ (← texts.mapM path) }

/-- A flag was read. -/
def raise (given : Given) (flag : Flag) : Except UsageFault Given := do
  let given ← given.settle
  match flag with
  | .verbose => if given.verbose then throw .repeated else return { given with verbose := true }
  | .help => throw .helpWanted
  | .version => throw .versionWanted

/-- A setting was read, whose value is the next word. -/
def await (given : Given) (setting : Setting) : Except UsageFault Given := do
  return { ← given.settle with pending := .setting setting }

/-- A setting was read with its value in the same word. -/
def attach (given : Given) (setting : Setting) (text : List Char) : Except UsageFault Given := do
  (← given.settle).assign setting (.ofList text)

/-- The letters of a word were read. -/
def letters (level : Level) : List Char → Given → Except UsageFault Given
  | [], given => return given
  | letter :: rest, given =>
    match level.ofLetter? letter with
    | none => throw .unknownOption
    | some (.flag flag) => do letters level rest (← given.raise flag)
    | some (.setting setting) =>
      match rest with
      | [] => given.await setting
      | '=' :: text => given.attach setting text
      | text => given.attach setting text

/-- A long name was read, with a value behind `=` if there is one. -/
def long (level : Level) (word : List Char) (given : Given) : Except UsageFault Given :=
  let name := word.takeWhile (· ≠ '=')
  match level.ofLong? (.ofList name), word.drop name.length with
  | none, _ => throw .unknownOption
  | some (.flag flag), [] => given.raise flag
  | some (.flag _), _ => throw .unwantedValue
  | some (.setting setting), [] => given.await setting
  | some (.setting setting), _ :: text => given.attach setting text

/-- An input was read. -/
def input (text : String) (given : Given) : Except UsageFault Given := do
  match given.pending with
  | .inputs texts => return { given with pending := .inputs (texts ++ [text]) }
  | _ => return { ← given.settle with pending := .inputs [text] }

/-- A word was read that is neither a command nor `--`. -/
def word (level : Level) (text : String) (given : Given) : Except UsageFault Given :=
  match text.toList with
  | '-' :: '-' :: name => long level name given
  | '-' :: c :: cs => letters level (c :: cs) given
  | _ =>
    match given.pending with
    | .setting setting => return { given with pending := .value setting text }
    | _ => given.input text

/-- The words behind a command were read. -/
def words (level : Level) : List String → Given → Except UsageFault Given
  | [], given => given.settle
  | text :: rest, given =>
    if text = "--" then do (← rest.foldlM (fun given text ↦ given.input text) given).settle
    else do words level rest (← given.word level text)

end Given

/-- The output directory that is meant where none is named. -/
def standardOutput : String := "."

/-- The command that was read at a level. -/
def Level.command (level : Level) (given : Given) : Command :=
  match level with
  | .inspect => .inspect given.inputs given.target
  | _ => .convert given.inputs (given.output.getD standardOutput) given.target

/-- The level behind a command. -/
def Level.ofName? (name : String) : Option Level :=
  if name = "convert" then some .convert else if name = "inspect" then some .inspect else none

/-- Why the words behind `help` are not carried out: they name commands that have no help, or help
was asked for. -/
def helpOn : List String → UsageFault
  | [] => .helpWanted
  | [name] => if name = "help" ∨ (Level.ofName? name).isSome then .helpWanted else .unknownCommand
  | _ => .unknownCommand

/-- What the words behind a command ask for. -/
def Level.invocation (level : Level) (verbose : Bool) (rest : List String) :
    Except UsageFault Invocation := do
  let given ← Given.words level rest .nothing
  if given.inputs = [] then throw .noInputs
  return { verbose := verbose || given.verbose, command := level.command given }

/-- Why there is no command when all words were read. -/
def withoutCommand (given : Given) : UsageFault :=
  if given.verbose then .noCommand else .nothingGiven

/-- What the words of a command line ask for, where `given` was read in front of them. -/
def Invocation.ofWordsFrom : List String → Given → Except UsageFault Invocation
  | [], given => throw (withoutCommand given)
  | text :: rest, given =>
    match Level.ofName? text with
    | some level => level.invocation given.verbose rest
    | none =>
      if text = "help" then throw (helpOn rest)
      else if text = "--" then
        match rest with
        | [] => throw (withoutCommand given)
        | name :: _ =>
          throw <|
            if name = "help" ∨ (Level.ofName? name).isSome then .unknownOption else .unknownCommand
      else if text.toList.head? = some '-' ∧ text ≠ "-" then do
        ofWordsFrom rest (← given.word .top text)
      else throw .unknownCommand

/-- What a command line asks for. -/
def Invocation.ofWords (words : List String) : Except UsageFault Invocation :=
  Invocation.ofWordsFrom words .nothing

end CommandLine
end WaveMill
