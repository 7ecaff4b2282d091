import WaveMill.Config
import WaveMill.Json

/-!
# Configuration files

A description of the target format is kept in a file as a JSON object with three members.  The
reader also accepts the three values alone, in an array, and a mode as an object with one empty
member; it ignores members that it does not know, and refuses a known one that is missing or
repeated.

## What is here

* `Config.document` — the text of a description.
* `Config.ofDocument?` — the description that a text holds, whether it can be converted to or not.
-/

set_option autoImplicit false
namespace WaveMill
namespace Config

/-- A description as a JSON document. -/
def document (config : Config) : String :=
  .ofList ("\x7b\n  \"sampleRate\": ".toList ++ Text.writeNat config.rate.toNat ++
    ",\n  \"bytesPerSample\": ".toList ++ Text.writeNat config.bytes.toNat ++
    ",\n  \"channelMode\": \"".toList ++ config.mode.name.toList ++ "\"\n\x7d".toList)

/-- A number that fits a word of 32 bits. -/
def word32? : Json → Option UInt32
  | .number (some n) => if n < UInt32.size then some (UInt32.ofNat n) else none
  | _ => none

/-- A number that fits a word of 16 bits. -/
def word16? : Json → Option UInt16
  | .number (some n) => if n < UInt16.size then some (UInt16.ofNat n) else none
  | _ => none

/-- A mode by its name, or as an object whose only member has that name and is empty. -/
def mode? : Json → Option ChannelMode
  | .string (some text) => ChannelMode.ofName? text
  | .object [(some text, .null)] => ChannelMode.ofName? text
  | _ => none

/-- The only member of the given name. -/
def onlyMember? (name : String) (members : List (Option String × Json)) : Option Json :=
  match members.filter fun (key, _) ↦ key == some name with
  | [(_, v)] => some v
  | _ => none

/-- The description that three values make. -/
def ofValues? (rate bytes mode : Json) : Option Config := do
  return { rate := ← word32? rate, bytes := ← word16? bytes, mode := ← mode? mode }

/-- The description that a JSON value holds. -/
def ofJson? : Json → Option Config
  | .array [rate, bytes, mode] => ofValues? rate bytes mode
  | .object members =>
    if members.all fun (key, _) ↦ key.isSome then do
      ofValues? (← onlyMember? "sampleRate" members) (← onlyMember? "bytesPerSample" members)
        (← onlyMember? "channelMode" members)
    else none
  | _ => none

/-- The description that a text holds. -/
def ofDocument? (text : String) : Option Config := Json.ofText? text >>= ofJson?

end Config
end WaveMill
