import WaveMill.CommandLine.Target

/-!
# Options of the command line

An option has a long name, and some have a letter too.  Flags stand alone, settings have a value.
Which options are known depends on how far the command line has come: before the command, or behind
one.

## What is here

* `Level` — how far the command line has come.
* `Setting` and `Flag` — the options.
* `Level.ofLong?`, `Level.ofLetter?` — the option of a name or a letter.
* `UsageFault` — why a command line is not carried out.
-/

set_option autoImplicit false
namespace WaveMill
namespace CommandLine

/-- How far a command line has come. -/
inductive Level where
  /-- No command was named yet. -/
  | top
  | convert
  | inspect
  deriving DecidableEq, Repr

/-- The options that have a value. -/
inductive Setting where
  | output
  | config
  | preset
  | rate
  | bits
  | mode
  deriving DecidableEq, Repr

/-- The options that stand alone. -/
inductive Flag where
  | verbose
  | help
  | version
  deriving DecidableEq, Repr

/-- An option. -/
inductive CommandOption where
  | flag (flag : Flag)
  | setting (setting : Setting)
  deriving DecidableEq, Repr

/-- The long name of a setting. -/
def Setting.long : Setting → String
  | output => "output"
  | config => "config"
  | preset => "preset"
  | rate => "sample-rate"
  | bits => "bits"
  | mode => "channels"

/-- The letter of a setting. -/
def Setting.letter? : Setting → Option Char
  | output => some 'o'
  | config => none
  | preset => none
  | rate => some 'r'
  | bits => some 'b'
  | mode => some 'c'

/-- The long name of a flag. -/
def Flag.long : Flag → String
  | verbose => "verbose"
  | help => "help"
  | version => "version"

/-- The letter of a flag. -/
def Flag.letter : Flag → Char
  | verbose => 'v'
  | help => 'h'
  | version => 'V'

/-- The settings that are known.  Only a conversion has an output. -/
def Level.settings : Level → List Setting
  | top => []
  | convert => [.output, .config, .preset, .rate, .bits, .mode]
  | inspect => [.config, .preset, .rate, .bits, .mode]

/-- The flags that are known. -/
def Level.flags : Level → List Flag
  | top => [.verbose, .help, .version]
  | _ => [.verbose, .help]

/-- The option of a long name. -/
def Level.ofLong? (level : Level) (name : String) : Option CommandOption :=
  ((level.flags.find? (·.long == name)).map .flag).or
    ((level.settings.find? (·.long == name)).map .setting)

/-- The option of a letter. -/
def Level.ofLetter? (level : Level) (letter : Char) : Option CommandOption :=
  ((level.flags.find? (·.letter == letter)).map .flag).or
    ((level.settings.find? (·.letter? == some letter)).map .setting)

/-- Why a command line is not carried out. -/
inductive UsageFault where
  /-- Help was asked for. -/
  | helpWanted
  /-- The version was asked for. -/
  | versionWanted
  /-- There is nothing on the command line. -/
  | nothingGiven
  /-- There are options, but no command. -/
  | noCommand
  /-- The command is not known. -/
  | unknownCommand
  /-- The command has no inputs. -/
  | noInputs
  /-- An option is not known. -/
  | unknownOption
  /-- A value is missing, or it is a path and empty. -/
  | noValue
  /-- A value is no number, too large a number, or no channel mode. -/
  | badValue
  /-- An option is there twice. -/
  | repeated
  /-- A flag has a value. -/
  | unwantedValue
  deriving DecidableEq, Repr

/-- The wording of a fault. -/
def UsageFault.message : UsageFault → String
  | helpWanted => "usage: wavemill [-v] convert|inspect [OPTIONS] INPUTS..."
  | versionWanted => "wavemill"
  | nothingGiven => "usage: wavemill [-v] convert|inspect [OPTIONS] INPUTS..."
  | noCommand => "error: a command is required"
  | unknownCommand => "error: unknown command"
  | noInputs => "error: inputs are required"
  | unknownOption => "error: unknown option"
  | noValue => "error: a value is required"
  | badValue => "error: invalid value"
  | repeated => "error: an option cannot be used more than once"
  | unwantedValue => "error: unexpected value for a flag"

end CommandLine
end WaveMill
