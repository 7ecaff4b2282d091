import WaveMill.Number.Decimal
import WaveMill.Session.Batch

/-!
# Reports of a command

What a command has to say is a list of lines.

## What is here

* `formatDuration`, `formatMegabytes` — durations in minutes and seconds, sizes in megabytes.
* `failureLine`, `skipLine`, `targetLine`, `summaryLine`, `savedLines` — the lines.
-/

set_option autoImplicit false
namespace WaveMill
namespace CommandLine

/-- Seconds as minutes and seconds, to the nearest second. -/
def formatDuration (seconds : Float) : String :=
  let total := Number.nearest seconds
  s!"{total / 60}:{total / 10 % 6}{total % 10}"

/-- Bytes as megabytes with one decimal. -/
def formatMegabytes (bytes : Nat) : String :=
  Number.oneDecimal (bytes.toUInt64.toFloat / 1024 / 1024) ++ "MB"

/-- So many blanks as are missing from a width. -/
def fill (width : Nat) (text : String) : String :=
  .ofList (List.replicate (width - text.length) ' ')

/-- A text at the end of a column. -/
def atEnd (width : Nat) (text : String) : String := fill width text ++ text

/-- A text at the beginning of a column. -/
def atStart (width : Nat) (text : String) : String := text ++ fill width text

/-- The line on a file that was not processed. -/
def failureLine (failed : FailedFile) : String :=
  s!"Failed: {failed.name} [{failed.failure.code}]: {failed.failure.message}"

/-- The line on a file that was skipped. -/
def skipLine : String × SkipReason → String
  | (name, reason) => s!"Skipped: {name} ({reason.message})"

/-- The lines on a batch of files. -/
def addLines (report : AddReport) : List String :=
  report.skipped.map skipLine ++ report.failed.map failureLine

/-- The lines on what was saved, and where. -/
def savedLines (report : SaveReport) (output : String) : List String :=
  report.failed.map failureLine ++
    s!"Converted {report.saved.length} file(s) to {output}" :: report.saved.map ("  " ++ ·)

/-- The line on the target format. -/
def targetLine (config : Config) (bits : UInt16) : String :=
  s!"Target: {config.rate} Hz, {bits}-bit, channels {config.mode.name}"

/-- The line on an asset. -/
def summaryLine (summary : AssetSummary) : String :=
  atEnd 3 (toString summary.index) ++ "  " ++ atStart 40 summary.name ++ " " ++
    atEnd 6 (formatDuration summary.duration) ++ "  " ++
    atEnd 8 (formatMegabytes summary.sourceSize) ++ " -> " ++
    atEnd 8 (formatMegabytes summary.estimate)

end CommandLine
end WaveMill
