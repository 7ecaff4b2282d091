import WaveMill.Proofs.Config.Preset

/-!
# A preset changes field by field

Each setting of a description has a field of its own in a preset, the first, second and third.  What
a preset makes of a setting is a relation between its old and its new value, `Preset.Makes`, in
which no other field and no other setting occurs: the new value is the one that the field asks for,
and the old one if the field is missing or asks for nothing that can be had.

Everything else follows from the relation.  A value asked for is one that a conversion accepts, so a
description that could be converted to stays one; and a setting that has been made is made the same
way once more, so a second application changes nothing.

## What is here

* `Preset.Agree` — two texts with the same field at a place.
* `Preset.Makes` — what a preset makes of one setting.
* `Config.makes_bytes`, `Config.makes_mode`, `Config.makes_rate` — the settings of a description.
* `Config.applyPreset_fieldwise` — what a preset makes of a description.
-/

set_option autoImplicit false
namespace WaveMill
namespace Preset

variable {α : Type} {text other : String} {k : Nat} {asks : List Char → α → Prop} {old new : α}

/-- Two texts have the same field `k`, or neither has one. -/
def Agree (k : Nat) (text other : String) : Prop :=
  ∀ field, Field text k field ↔ Field other k field

theorem agree_iff : Agree k text other ↔ (fields text)[k]? = (fields other)[k]? := by
  rw [Option.ext_iff]
  refine forall_congr' fun field ↦ ?_
  rw [fields_getElem?_eq_some_iff, fields_getElem?_eq_some_iff]

/-- What becomes of a setting whose field is field `k`: the value that the field asks for, and the
old value if it asks for none. -/
inductive Makes (text : String) (k : Nat) (asks : List Char → α → Prop) (old : α) : α → Prop where
  | asked {field : List Char} {value : α} (hfield : Field text k field)
      (hasks : asks field value) : Makes text k asks old value
  | kept (h : ∀ field value, Field text k field → ¬ asks field value) : Makes text k asks old old

/-- A reader that finds what the fields ask for makes of a setting what it should. -/
theorem makes_iff {read : List Char → Option α}
    (hread : ∀ field value, read field = some value ↔ asks field value) :
    Makes text k asks old new ↔ ((fields text)[k]?.bind read).getD old = new := by
  constructor
  · rintro (⟨hfield, hasks⟩ | hnone)
    · rw [fields_getElem?_eq_some_iff.2 hfield, Option.bind_some, (hread _ _).2 hasks,
        Option.getD_some]
    · have hbind : (fields text)[k]?.bind read = none := by
        rw [Option.bind_eq_none_iff]
        intro field hfield
        rw [Option.eq_none_iff_forall_ne_some]
        exact fun value hvalue ↦
          hnone field value (fields_getElem?_eq_some_iff.1 hfield) ((hread field value).1 hvalue)
      rw [hbind, Option.getD_none]
  · rintro rfl
    cases hfound : (fields text)[k]?.bind read with
    | some value =>
      obtain ⟨field, hfield, hvalue⟩ := Option.bind_eq_some_iff.1 hfound
      exact .asked (fields_getElem?_eq_some_iff.1 hfield) ((hread field value).1 hvalue)
    | none =>
      refine .kept fun field value hfield hasks ↦ ?_
      rw [fields_getElem?_eq_some_iff.2 hfield, Option.bind_some, (hread field value).2 hasks]
        at hfound
      cases hfound

/-- What a text has made of a setting it makes of it again. -/
theorem Makes.again (h : Makes text k asks old new) : Makes text k asks new new := by
  rcases h with ⟨hfield, hasks⟩ | hnone
  · exact .asked hfield hasks
  · exact .kept hnone

/-- A setting stays acceptable if nothing unacceptable can be asked for. -/
theorem Makes.acceptable (accepted : α → Prop) (h : Makes text k asks old new)
    (hasks : ∀ field value, asks field value → accepted value) (hold : accepted old) :
    accepted new := by
  rcases h with ⟨-, hvalue⟩ | -
  · exact hasks _ _ hvalue
  · exact hold

end Preset

namespace Config

open Preset

variable {text other : String} {config config' : Config}

theorem makes_bytes (config : Config) (text : String) :
    Makes text 0 AsksBytes config.bytes (config.applyPreset text).bytes :=
  (makes_iff fun _ _ ↦ bytes?_eq_some_iff).2 rfl

theorem makes_mode (config : Config) (text : String) :
    Makes text 1 AsksMode config.mode (config.applyPreset text).mode :=
  (makes_iff fun _ _ ↦ mode?_eq_some_iff).2 rfl

theorem makes_rate (config : Config) (text : String) :
    Makes text 2 AsksRate config.rate (config.applyPreset text).rate :=
  (makes_iff fun _ _ ↦ rate?_eq_some_iff).2 rfl

theorem bytes_applyPreset_congr (htext : Agree 0 text other)
    (hold : config.bytes = config'.bytes) :
    (config.applyPreset text).bytes = (config'.applyPreset other).bytes := by
  simp only [applyPreset, agree_iff.1 htext, hold]

theorem mode_applyPreset_congr (htext : Agree 1 text other) (hold : config.mode = config'.mode) :
    (config.applyPreset text).mode = (config'.applyPreset other).mode := by
  simp only [applyPreset, agree_iff.1 htext, hold]

theorem rate_applyPreset_congr (htext : Agree 2 text other) (hold : config.rate = config'.rate) :
    (config.applyPreset text).rate = (config'.applyPreset other).rate := by
  simp only [applyPreset, agree_iff.1 htext, hold]

/-- A description that can be converted to stays one. -/
theorem validate_applyPreset (h : config.validate = .ok ()) :
    (config.applyPreset text).validate = .ok () := by
  rw [validate_eq_ok_iff] at h ⊢
  obtain ⟨hbytes, hrate⟩ := h
  constructor
  · refine (makes_bytes config text).acceptable (fun bytes ↦ bytes = 1 ∨ bytes = 2) ?_ hbytes
    rintro field value ⟨word, -, ⟨hvalue, -⟩ | ⟨hvalue, -⟩⟩
    · exact .inl hvalue
    · exact .inr hvalue
  · refine (makes_rate config text).acceptable
      (fun rate ↦ 8000 ≤ rate.toNat ∧ rate.toNat ≤ 64000) ?_ hrate
    rintro field value ⟨word, -, -, hvalue⟩
    exact hvalue

theorem applyPreset_applyPreset (config : Config) (text : String) :
    (config.applyPreset text).applyPreset text = config.applyPreset text := by
  have hbytes := (makes_iff fun _ _ ↦ bytes?_eq_some_iff).1 (makes_bytes config text).again
  have hmode := (makes_iff fun _ _ ↦ mode?_eq_some_iff).1 (makes_mode config text).again
  have hrate := (makes_iff fun _ _ ↦ rate?_eq_some_iff).1 (makes_rate config text).again
  rw [applyPreset, hbytes, hmode, hrate]

/-- **A preset works field by field.**  The width, the mode and the rate become what the first, the
second and the third field ask for, and stay what they are where a field asks for nothing; so each
depends on its own field and its own old value only.  A description that can be converted to stays
one, and a second application changes nothing. -/
theorem applyPreset_fieldwise (config : Config) (text : String) :
    (Makes text 0 AsksBytes config.bytes (config.applyPreset text).bytes ∧
      Makes text 1 AsksMode config.mode (config.applyPreset text).mode ∧
      Makes text 2 AsksRate config.rate (config.applyPreset text).rate) ∧
    (∀ (config' : Config) (other : String),
      (Agree 0 text other → config.bytes = config'.bytes →
        (config.applyPreset text).bytes = (config'.applyPreset other).bytes) ∧
      (Agree 1 text other → config.mode = config'.mode →
        (config.applyPreset text).mode = (config'.applyPreset other).mode) ∧
      (Agree 2 text other → config.rate = config'.rate →
        (config.applyPreset text).rate = (config'.applyPreset other).rate)) ∧
    (config.validate = .ok () → (config.applyPreset text).validate = .ok ()) ∧
    (config.applyPreset text).applyPreset text = config.applyPreset text :=
  ⟨⟨makes_bytes config text, makes_mode config text, makes_rate config text⟩,
    fun _ _ ↦ ⟨bytes_applyPreset_congr, mode_applyPreset_congr, rate_applyPreset_congr⟩,
    validate_applyPreset, applyPreset_applyPreset config text⟩

/-- A width that cannot be had and a rate out of range leave the mode to be asked for, and the mode
is that of another preset with the same second field. -/
theorem applyPreset_fieldwise_mix :
    standard.validate = .ok () ∧ Agree 1 "#12&mix&99999" "&mix" ∧
    (standard.applyPreset "#12&mix&99999").validate = .ok () ∧
    (standard.applyPreset "#12&mix&99999").mode = (standard.applyPreset "&mix").mode ∧
    standard.applyPreset "#12&mix&99999" = { standard with mode := .mix } := by
  have hagree : Agree 1 "#12&mix&99999" "&mix" := agree_iff.2 (by decide)
  obtain ⟨-, hlocal, hvalid, -⟩ := applyPreset_fieldwise standard "#12&mix&99999"
  exact ⟨by decide, hagree, hvalid (by decide), (hlocal standard "&mix").2.1 hagree rfl,
    by decide +kernel⟩

end Config
end WaveMill
