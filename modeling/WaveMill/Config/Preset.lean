import WaveMill.Config
import WaveMill.Text.Blank
import WaveMill.Text.Numeral

/-!
# Presets

A preset is a short text such as `8&mix&32000`: bits per sample, channel mode and sample rate,
separated by `&`, with an optional `#` in front.  It changes a description field by field.  A field
that is missing, malformed or out of range leaves what was there, and says nothing about the other
fields.

## What is here

* `Preset.bytes?`, `Preset.mode?`, `Preset.rate?` — what one field asks for.
* `Preset.fields` — the three fields of a text.
* `Config.applyPreset` — a description changed by a preset.
* `Preset.write` — the preset that asks for a given description.
-/

set_option autoImplicit false
namespace WaveMill
namespace Preset

/-- The sample width that a field asks for: 8 or 16 bits. -/
def bytes? (field : List Char) : Option UInt16 :=
  match Text.readNat UInt16.size (Text.trim field) with
  | some 8 => some 1
  | some 16 => some 2
  | _ => none

/-- The channel mode that a field asks for. -/
def mode? (field : List Char) : Option ChannelMode :=
  ChannelMode.ofName? (.ofList (Text.trim field))

/-- The sample rate that a field asks for, if a conversion may ask for it. -/
def rate? (field : List Char) : Option UInt32 := do
  let n ← Text.readNat UInt32.size (Text.trim field)
  let rate := UInt32.ofNat n
  if Rate.accepted rate then some rate else none

/-- A text without one `#` at its beginning. -/
def withoutMark : List Char → List Char
  | '#' :: cs => cs
  | cs => cs

/-- The fields of a preset, in order. -/
def fields (text : String) : List (List Char) := (withoutMark text.toList).splitOn '&'

/-- The preset that asks for the given bits, mode and rate. -/
def write (bits : Nat) (mode : ChannelMode) (rate : UInt32) : String :=
  .ofList (Text.writeNat bits ++ '&' :: mode.name.toList ++ '&' :: Text.writeNat rate.toNat)

end Preset

/-- The description that a preset makes of another. -/
def Config.applyPreset (config : Config) (text : String) : Config :=
  let fields := Preset.fields text
  { rate := (fields[2]?.bind Preset.rate?).getD config.rate
    bytes := (fields[0]?.bind Preset.bytes?).getD config.bytes
    mode := (fields[1]?.bind Preset.mode?).getD config.mode }

end WaveMill
