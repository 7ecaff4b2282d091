import WaveMill.Path.Components
import WaveMill.Proofs.Path
import WaveMill.Proofs.Text.ByteOrder

/-!
# Paths in order

Whoever goes down from a directory continues its path by names.  Each of them is one more component,
whatever the path of the directory looks like, so paths below one directory are in the order of the
names on the way down.

## What is here

* The order of components is linear; `Path.Component.name_lt_iff` — the order of the names.
* `Path.steps_append` — a path that is continued has the steps of both its parts.
* `Path.components_below` — each name on the way down is one more component.
-/

set_option autoImplicit false
namespace WaveMill
namespace Path

/-! ## The order of components -/

namespace Component

variable {a b c : Component}

theorem lt_iff : a < b ↔ a.rank < b.rank ∨ a.rank = b.rank ∧ a.text < b.text := .rfl

/-- Names are in the order of their bytes. -/
theorem name_lt_iff {x y : String} : name x < name y ↔ Bytes.ofText x < Bytes.ofText y := by
  rw [Bytes.ofText_lt_iff, lt_iff]
  exact or_iff_right (Nat.lt_irrefl _) |>.trans (and_iff_right rfl)

theorem not_lt_iff : ¬a < b ↔ b.rank < a.rank ∨ b.rank = a.rank ∧ b.text ≤ a.text := by
  rw [lt_iff, not_or, not_and, Nat.not_lt, ← String.not_lt, Nat.le_iff_lt_or_eq]
  constructor
  · rintro ⟨hlt | heq, htext⟩
    · exact .inl hlt
    · exact .inr ⟨heq, htext heq.symm⟩
  · rintro (hlt | ⟨heq, htext⟩)
    · exact ⟨.inl hlt, fun heq ↦ absurd heq (Nat.ne_of_gt hlt)⟩
    · exact ⟨.inr heq, fun _ ↦ htext⟩

theorem eq_of_rank_of_text (hrank : a.rank = b.rank) (htext : a.text = b.text) : a = b := by
  cases a <;> cases b <;> first | rfl | exact congrArg name htext | cases hrank

instance : LE Component := .ofLT Component

instance : Std.Asymm (· < · : Component → Component → Prop) where
  asymm a b hab := by
    rw [not_lt_iff]
    rcases hab with hrank | ⟨hrank, htext⟩
    · exact .inl hrank
    · exact .inr ⟨hrank, Std.le_of_lt htext⟩

instance : Std.LawfulOrderLT Component := .of_lt

instance : Std.IsLinearOrder Component := by
  refine .of_lt inferInstance ⟨fun {a b c} hab hbc ↦ ?_⟩ ⟨fun a b hab hba ↦ ?_⟩
  · rw [not_lt_iff] at hab hbc ⊢
    rcases hab with hab | ⟨hab, htext⟩
    · exact .inl (by omega)
    · rcases hbc with hbc | ⟨hbc, htext'⟩
      · exact .inl (by omega)
      · exact .inr ⟨hbc.trans hab, Std.le_trans htext' htext⟩
  · rw [not_lt_iff] at hab hba
    rcases hab with hab | ⟨hab, htext⟩
    · omega
    · rcases hba with hba | ⟨-, htext'⟩
      · omega
      · exact eq_of_rank_of_text hab.symm (Std.le_antisymm htext' htext)

end Component

/-! ## Paths below a directory -/

theorem names_join (path rest : String) : names (join path rest) = names path ++ names rest := by
  obtain ⟨base, hjoin, hpath | hpath⟩ := steps_join_append path rest
  · rw [names, hjoin, List.filter_append, ← hpath]
    rfl
  · simp only [names, hjoin, hpath, List.filter_append]
    simp [isIdle]

/-- A path that is continued begins with a dot if it did so before. -/
theorem head?_steps_join {rest : String} (h : (steps rest).head? ≠ some ".") (path : String) :
    (steps (join path rest)).head? = some "." ↔ (steps path).head? = some "." := by
  obtain ⟨base, hjoin, hpath⟩ := steps_join_append path rest
  cases base with
  | nil =>
    have hempty : steps path = [""] ∨ steps path = [] := hpath.symm
    rw [hjoin, List.nil_append]
    rcases hempty with hempty | hempty <;> simp [hempty, h]
  | cons step base => rcases hpath with hpath | hpath <;> simp [hjoin, hpath]

/-- A path that is continued has the components of both its parts. -/
theorem components_join {rest : String} (hrelative : isAbsolute rest = false)
    (hhead : (steps rest).head? ≠ some ".") (path : String) :
    components (join path rest) = components path ++ components rest := by
  simp [components, isAbsolute_join_of_relative hrelative, names_join, head?_steps_join hhead,
    hrelative, hhead]

theorem head?_steps_of_isAbsolute {path : String} (h : isAbsolute path = true) :
    (steps path).head? = some "" := by
  obtain ⟨cs, hcs⟩ : ∃ cs, path.toList = '/' :: cs := by
    rw [isAbsolute, beq_iff_eq, List.head?_eq_some_iff] at h
    exact h
  have hpath : path = "" ++ "/" ++ .ofList cs := by
    rw [String.ext_iff, hcs, String.toList_append, String.toList_ofList]
    rfl
  rw [hpath, steps_append]
  rfl

section

variable {names : List String} (h : ∀ name ∈ names, isName name = true)

include h

theorem steps_ofNames (hne : names ≠ []) : steps (ofNames names) = names := by
  induction names with
  | nil => exact absurd rfl hne
  | cons name rest ih =>
    have hname := steps_eq_singleton (isName_iff.1 (h name List.mem_cons_self)).2.2.2
    by_cases hrest : rest = []
    · rw [hrest, ofNames, String.intercalate_singleton, hname]
    · rw [ofNames, String.intercalate_cons_of_ne_nil hrest, steps_append, hname,
        ← ofNames, ih (fun n hn ↦ h n (List.mem_cons_of_mem _ hn)) hrest]
      rfl

theorem head?_steps_ofNames (hne : names ≠ []) {step : String} (hstep : isName step = false) :
    (steps (ofNames names)).head? ≠ some step := by
  rw [steps_ofNames h hne]
  intro hhead
  rw [h step (List.mem_of_head? hhead)] at hstep
  cases hstep

theorem isAbsolute_ofNames : isAbsolute (ofNames names) = false := by
  by_cases hne : names = []
  · rw [hne]
    rfl
  · refine Bool.eq_false_iff.2 fun habsolute ↦ ?_
    exact head?_steps_ofNames h hne (by decide) (head?_steps_of_isAbsolute habsolute)

theorem components_ofNames (hne : names ≠ []) :
    components (ofNames names) = names.map .name := by
  have hfilter : names.filter (fun step ↦ !isIdle step) = names := by
    refine List.filter_eq_self.2 fun name hname ↦ ?_
    obtain ⟨hempty, hdot, -⟩ := isName_iff.1 (h name hname)
    simp [isIdle, hempty, hdot]
  have hsteps : names.map Component.ofStep = names.map .name := by
    refine List.map_congr_left fun name hname ↦ ?_
    rw [Component.ofStep, if_neg (isName_iff.1 (h name hname)).2.2.1]
  rw [components, isAbsolute_ofNames h, if_neg (head?_steps_ofNames h hne (by decide)), Path.names,
    steps_ofNames h hne, hfilter, hsteps]
  rfl

/-- **Each name on the way down is one more component.** -/
theorem components_below (hne : names ≠ []) (path : String) :
    components (below path names) = components path ++ names.map .name := by
  rw [below, components_join (isAbsolute_ofNames h) (head?_steps_ofNames h hne (by decide)),
    components_ofNames h hne]

end

example : components "in/a/x.wav" < components "in/a-b" ∧ "in/a-b" < "in/a/x.wav" := by decide

end Path
end WaveMill
