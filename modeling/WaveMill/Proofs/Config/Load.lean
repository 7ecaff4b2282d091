import WaveMill.Config.File
import WaveMill.Proofs.Outcome
import WaveMill.Proofs.Stateful

/-!
# Reading a configuration

A configuration comes out of a file through four doors, one behind the other: the disk gives the
bytes, the bytes are a text, the text is a document of the expected form, and what it describes can
be converted to.  Every door has its own failure, so the failure says which door was shut.

## What is here

* `Config.Unfit` and `Config.validate_eq_error_iff` — why a description cannot be converted to.
* `Config.Unloadable` — the shut door.
* `Config.load_eq_ok_iff`, `Config.load_eq_error_iff` — what reading a configuration comes to.
-/

set_option autoImplicit false
namespace WaveMill
namespace Config

open Stateful Outcome

/-! ## Descriptions that cannot be converted to -/

/-- Why a description cannot be converted to. -/
inductive Unfit (config : Config) : Failure → Prop where
  | width (h : ¬ (config.bytes = 1 ∨ config.bytes = 2)) : Unfit config (.sampleWidth config.bytes)
  | rate (h : config.bytes = 1 ∨ config.bytes = 2)
      (hrate : ¬ (8000 ≤ config.rate.toNat ∧ config.rate.toNat ≤ 64000)) :
      Unfit config (.config (.rateOutOfRange config.rate))

theorem validate_eq_error_iff {config : Config} {failure : Failure} :
    config.validate = .error failure ↔ config.Unfit failure := by
  constructor
  · intro h
    rw [validate] at h
    split at h
    case isTrue hwidth =>
      obtain rfl := Except.error.inj h
      rw [Bool.not_eq_true', ← Bool.not_eq_true, widthAccepted_iff] at hwidth
      exact .width hwidth
    case isFalse hwidth =>
      rw [Bool.not_eq_true', Bool.not_eq_false, widthAccepted_iff] at hwidth
      split at h
      case isTrue hrate =>
        obtain rfl := Except.error.inj h
        rw [Bool.not_eq_true', ← Bool.not_eq_true, Rate.accepted_iff] at hrate
        exact .rate hwidth hrate
      case isFalse => cases h
  · rintro (hwidth | ⟨hwidth, hrate⟩)
    · rw [← widthAccepted_iff, Bool.not_eq_true] at hwidth
      rw [validate, hwidth]
      rfl
    · rw [← widthAccepted_iff] at hwidth
      rw [← Rate.accepted_iff, Bool.not_eq_true] at hrate
      rw [validate, hwidth, hrate]
      rfl

/-! ## The four doors -/

theorem ofFile_of_notText {bytes : Bytes} (htext : bytes.toText? = none) :
    ofFile bytes = .error (.disk .notText) := by
  rw [ofFile, htext]
  rfl

theorem ofFile_of_noDocument {bytes : Bytes} {text : String} (htext : bytes.toText? = some text)
    (hconfig : ofDocument? text = none) : ofFile bytes = .error .document := by
  simp only [ofFile, htext, hconfig]
  rfl

theorem ofFile_of_document {bytes : Bytes} {text : String} {config : Config}
    (htext : bytes.toText? = some text) (hconfig : ofDocument? text = some config) :
    ofFile bytes = config.validate.map fun _ ↦ config := by
  simp only [ofFile, htext, hconfig]
  cases config.validate <;> rfl

section Load

variable {σ : Type} (disk : Disk (StateM σ)) (s : σ) (path : String)

/-- Why there is no configuration in the file at a path. -/
inductive Unloadable : Failure → Prop where
  | disk {fault : DiskFault} (hread : (disk.read path s).1 = .error fault) :
      Unloadable (.disk fault)
  | notText {bytes : Bytes} (hread : (disk.read path s).1 = .ok bytes)
      (htext : bytes.toText? = none) : Unloadable (.disk .notText)
  | document {bytes : Bytes} {text : String} (hread : (disk.read path s).1 = .ok bytes)
      (htext : bytes.toText? = some text) (hconfig : ofDocument? text = none) :
      Unloadable .document
  | unfit {bytes : Bytes} {text : String} {config : Config} {failure : Failure}
      (hread : (disk.read path s).1 = .ok bytes) (htext : bytes.toText? = some text)
      (hconfig : ofDocument? text = some config) (hunfit : config.Unfit failure) :
      Unloadable failure

variable {disk s path}

theorem load_of_fault {fault : DiskFault} (hread : (disk.read path s).1 = .error fault) :
    (load disk path s).1 = .error (.disk fault) := by
  rw [load, bind_apply, hread]
  rfl

theorem load_of_read {bytes : Bytes} (hread : (disk.read path s).1 = .ok bytes) :
    (load disk path s).1 = ofFile bytes := by
  rw [load, bind_apply, hread]
  rfl

theorem load_eq_error_iff {failure : Failure} :
    (load disk path s).1 = .error failure ↔ Unloadable disk s path failure := by
  constructor
  · intro h
    cases hread : (disk.read path s).1 with
    | error fault =>
      rw [load_of_fault hread] at h
      obtain rfl := Except.error.inj h
      exact .disk hread
    | ok bytes =>
      rw [load_of_read hread] at h
      cases htext : bytes.toText? with
      | none =>
        rw [ofFile_of_notText htext] at h
        obtain rfl := Except.error.inj h
        exact .notText hread htext
      | some text =>
        cases hconfig : ofDocument? text with
        | none =>
          rw [ofFile_of_noDocument htext hconfig] at h
          obtain rfl := Except.error.inj h
          exact .document hread htext hconfig
        | some config =>
          rw [ofFile_of_document htext hconfig] at h
          exact .unfit hread htext hconfig (validate_eq_error_iff.1 (map_eq_error_iff.1 h))
  · rintro (hread | ⟨hread, htext⟩ | ⟨hread, htext, hconfig⟩ | ⟨hread, htext, hconfig, hunfit⟩)
    · exact load_of_fault hread
    · rw [load_of_read hread, ofFile_of_notText htext]
    · rw [load_of_read hread, ofFile_of_noDocument htext hconfig]
    · rw [load_of_read hread, ofFile_of_document htext hconfig, validate_eq_error_iff.2 hunfit]
      rfl

theorem load_eq_ok_iff {config : Config} :
    (load disk path s).1 = .ok config ↔ ∃ bytes text, (disk.read path s).1 = .ok bytes ∧
      bytes.toText? = some text ∧ ofDocument? text = some config ∧ config.validate = .ok () := by
  constructor
  · intro h
    cases hread : (disk.read path s).1 with
    | error fault => cases (load_of_fault hread).symm.trans h
    | ok bytes =>
      rw [load_of_read hread] at h
      cases htext : bytes.toText? with
      | none => cases (ofFile_of_notText htext).symm.trans h
      | some text =>
        cases hconfig : ofDocument? text with
        | none => cases (ofFile_of_noDocument htext hconfig).symm.trans h
        | some found =>
          rw [ofFile_of_document htext hconfig] at h
          obtain ⟨⟨⟩, hvalid, rfl⟩ := map_eq_ok_iff.1 h
          exact ⟨bytes, text, rfl, htext, hconfig, hvalid⟩
  · rintro ⟨bytes, text, hread, htext, hconfig, hvalid⟩
    rw [load_of_read hread, ofFile_of_document htext hconfig, hvalid]
    rfl

end Load

end Config
end WaveMill
