import WaveMill.Proofs.Config.Load
import WaveMill.Proofs.FileTree.Written
import WaveMill.Proofs.Json
import WaveMill.Proofs.Text.Encoding

/-!
# A configuration that was saved is read back

Saving does not ask whether a description can be converted to, reading does.  So a description that
was saved comes back if it can be converted to, and otherwise the reader gives the reason why it
cannot: of the four doors of `Proofs.Config.Load` the first three are open for every file that was
saved.

The argument goes from the outside to the inside.  The disk gives back the bytes that were written;
the bytes are a text, which they write in UTF-8; the text is a document of three members, of which
the numbers are small enough for their words.

## What is here

* `Config.members` and `Config.ofText?_document` — what stands in a document.
* `Config.ofDocument?_document` — a description is read back from its document, whether it can be
  converted to or not.
* `Config.load_save` — what is read after saving.
-/

set_option autoImplicit false
namespace WaveMill

namespace Config

open Json Stateful

/-! ## The document -/

/-- The members of a document. -/
def members (config : Config) : List (Option String × Json) :=
  [(some "sampleRate", .number (some config.rate.toNat)),
    (some "bytesPerSample", .number (some config.bytes.toNat)),
    (some "channelMode", .string (some config.mode.name))]

/-- What stands between two members of a document: each has a line of its own. -/
def indent : List Char := ['\n', ' ', ' ']

theorem spaces_indent : Spaces indent := rfl

theorem spaces_blank : Spaces [' '] := rfl

theorem toList_document (config : Config) :
    config.document.toList =
      '\x7b' :: memberText indent "sampleRate" ([' '] ++ (Text.writeNat config.rate.toNat ++ ',' ::
        memberText indent "bytesPerSample" ([' '] ++ (Text.writeNat config.bytes.toNat ++ ',' ::
          memberText indent "channelMode" ([' '] ++ '"' :: (config.mode.name.toList ++ '"' ::
            ['\n', '\x7d'])))))) := by
  -- the defining equation of `document` is out of reach of `rw`
  delta document
  rw [String.toList_ofList]
  simp [memberText, indent]

theorem ends_comma (cs : List Char) : Ends (',' :: cs) := by
  rintro c ⟨⟩
  decide

theorem plain_name (mode : ChannelMode) : Plain mode.name.toList := by
  cases mode <;> rfl

/-- Five steps are enough to read a document. -/
theorem readValue_document (config : Config) (fuel : Nat) :
    readValue (fuel + 5) config.document.toList = some (.object config.members, []) := by
  rw [toList_document]
  refine readValue_object spaces_indent (readMembers_more rfl rfl
    (readValue_number spaces_blank _ (ends_comma _) _) ?_)
  refine readMembers_more spaces_indent rfl (readValue_number spaces_blank _ (ends_comma _) _) ?_
  exact readMembers_last spaces_indent rfl
    (readValue_string spaces_blank (plain_name config.mode) _ _)

theorem ofText?_document (config : Config) :
    Json.ofText? config.document = some (.object config.members) := by
  have hlength : 2 ≤ config.document.toList.length := by
    rw [toList_document, memberText, indent]
    simp
  obtain ⟨fuel, hfuel⟩ : ∃ fuel, 2 * config.document.toList.length + 2 = fuel + 5 :=
    ⟨2 * config.document.toList.length - 3, by omega⟩
  rw [Json.ofText?]
  show readValue (2 * config.document.toList.length + 2) config.document.toList >>= _ = _
  rw [hfuel, readValue_document]
  rfl

theorem ofDocument?_document (config : Config) : ofDocument? config.document = some config := by
  have hrate : word32? (.number (some config.rate.toNat)) = some config.rate := by
    rw [word32?, if_pos config.rate.toNat_lt, UInt32.ofNat_toNat]
  have hbytes : word16? (.number (some config.bytes.toNat)) = some config.bytes := by
    rw [word16?, if_pos config.bytes.toNat_lt, UInt16.ofNat_toNat]
  have hmode : mode? (.string (some config.mode.name)) = some config.mode :=
    ChannelMode.ofName?_name config.mode
  rw [ofDocument?, ofText?_document]
  show ofValues? _ _ _ = _
  rw [ofValues?, hrate, hbytes, hmode]
  rfl

/-! ## Saving and reading -/

theorem save_of_write {σ : Type} {disk : Disk (StateM σ)} {s : σ} {path : String} {config : Config}
    (h : (disk.write path (Bytes.ofText config.document) s).1 = .ok ()) :
    config.save disk path s = (.ok (), (disk.write path (Bytes.ofText config.document) s).2) := by
  rw [save, bind_apply, h]
  rfl

/-- **A description that was saved comes back, or the reason why it cannot be converted to.**  It is
never the file that is at fault: what was saved is a document. -/
theorem load_save (config : Config) {tree : FileTree} {path : String} (h : tree.Writable path) :
    (config.save FileTree.disk path tree).1 = .ok () ∧
      (load FileTree.disk path (config.save FileTree.disk path tree).2).1 =
        (config.validate.map fun _ ↦ config) ∧
      (load FileTree.disk path (config.save FileTree.disk path tree).2).1 ≠ .error .document := by
  obtain ⟨hwrite, hread⟩ := FileTree.read_of_write h (Bytes.ofText config.document)
  have hload : (load FileTree.disk path (config.save FileTree.disk path tree).2).1 =
      config.validate.map fun _ ↦ config := by
    rw [save_of_write hwrite, load_of_read hread]
    exact ofFile_of_document (Bytes.toText?_ofText _) (ofDocument?_document config)
  refine ⟨by rw [save_of_write hwrite], hload, ?_⟩
  rw [hload, Ne, Outcome.map_eq_error_iff, validate_eq_error_iff]
  exact nofun

/-- A tree with a directory for configurations. -/
def shelf : FileTree := FileTree.empty.put [] "formats" .directory

/-- A description that can be converted to, and one that cannot because of its width. -/
theorem load_save_shelf :
    shelf.Writable "formats/target.json" ∧
      (load FileTree.disk "formats/target.json"
        (save ⟨22050, 1, .right⟩ FileTree.disk "formats/target.json" shelf).2).1 =
          .ok ⟨22050, 1, .right⟩ ∧
      (load FileTree.disk "formats/target.json"
        (save ⟨8000, 4, .both⟩ FileTree.disk "formats/target.json" shelf).2).1 =
          .error (.sampleWidth 4) := by
  have h : shelf.Writable "formats/target.json" := ⟨by decide, [], by rfl⟩
  exact ⟨h, (load_save ⟨22050, 1, .right⟩ h).2.1, (load_save ⟨8000, 4, .both⟩ h).2.1⟩

end Config
end WaveMill
