import WaveMill.Failure

/-!
# Channel modes

A stereo recording can be converted as it is, or be brought down to one channel by keeping its left
or its right half or by mixing both.  A mode goes by a name of one word, in presets, in
configuration files and on the command line.

## What is here

* `ChannelMode.name` and `ChannelMode.ofName?` — the names, and that each names one mode
  (`ofName?_eq_some_iff`).
* `ChannelMode.outputChannels` — how many channels a mode leaves.
-/

set_option autoImplicit false
namespace WaveMill

/-- What becomes of the channels of a recording. -/
inductive ChannelMode where
  /-- Every channel is kept. -/
  | both
  /-- The first of two channels is kept. -/
  | left
  /-- The second of two channels is kept. -/
  | right
  /-- Two channels are averaged. -/
  | mix
  deriving DecidableEq, Repr

namespace ChannelMode

/-- The name of a mode. -/
def name : ChannelMode → String
  | both => "both"
  | left => "left"
  | right => "right"
  | mix => "mix"

/-- The mode of a name. -/
def ofName? (text : String) : Option ChannelMode :=
  if text = "both" then some both
  else if text = "left" then some left
  else if text = "right" then some right
  else if text = "mix" then some mix
  else none

theorem ofName?_name (mode : ChannelMode) : ofName? mode.name = some mode := by
  cases mode <;> decide

theorem ofName?_eq_some_iff {text : String} {mode : ChannelMode} :
    ofName? text = some mode ↔ text = mode.name := by
  constructor
  · intro h
    simp only [ofName?] at h
    split at h
    case isTrue heq => cases h; exact heq
    case isFalse =>
      split at h
      case isTrue heq => cases h; exact heq
      case isFalse =>
        split at h
        case isTrue heq => cases h; exact heq
        case isFalse =>
          split at h
          case isTrue heq => cases h; exact heq
          case isFalse => cases h
  · rintro rfl
    exact ofName?_name mode

/-- The mode of a name, or the reason why there is none. -/
def parse (text : String) : Outcome ChannelMode :=
  match ofName? text with
  | some mode => .ok mode
  | none => .error (.config (.unknownMode text))

/-- How many channels a recording of `channels` channels keeps. -/
def outputChannels (mode : ChannelMode) (channels : Nat) : Nat :=
  match mode with
  | both => channels
  | _ => min channels 1

end ChannelMode
end WaveMill
