/-!
# Splitting at the last of a character

The extension of a file name is what follows its last dot.

## What is here

* `Text.splitLast` — the text before and behind the last of a character, with the law that fixes it
  (`splitLast_eq_some_iff`).
-/

set_option autoImplicit false
namespace WaveMill
namespace Text

/-- The text before the last `mark` and the text behind it. -/
def splitLast (mark : Char) : List Char → Option (List Char × List Char)
  | [] => none
  | c :: cs =>
    match splitLast mark cs with
    | some (before, behind) => some (c :: before, behind)
    | none => if c = mark then some ([], cs) else none

theorem splitLast_eq_none_iff {mark : Char} {cs : List Char} :
    splitLast mark cs = none ↔ mark ∉ cs := by
  induction cs with
  | nil => simp [splitLast]
  | cons c cs ih =>
    rw [splitLast]
    cases h : splitLast mark cs with
    | some split =>
      have : mark ∈ cs := by simpa [h] using mt ih.2
      simp [this]
    | none =>
      have hcs := ih.1 h
      by_cases hc : c = mark
      · simp [hc]
      · simp [hc, hcs, Ne.symm hc]

theorem splitLast_eq_some_iff {mark : Char} {cs before behind : List Char} :
    splitLast mark cs = some (before, behind) ↔ cs = before ++ mark :: behind ∧ mark ∉ behind := by
  induction cs generalizing before behind with
  | nil => simp [splitLast]
  | cons c cs ih =>
    rw [splitLast]
    cases h : splitLast mark cs with
    | some split =>
      obtain ⟨first, last⟩ := split
      have hsplit := ih.1 h
      constructor
      · rintro ⟨⟩
        exact ⟨by rw [hsplit.1]; rfl, hsplit.2⟩
      · rintro ⟨heq, hlast⟩
        cases before with
        | nil =>
          have : mark ∈ cs := by rw [hsplit.1]; simp
          rw [List.nil_append, List.cons.injEq] at heq
          exact absurd (heq.2 ▸ this) hlast
        | cons b before =>
          rw [List.cons_append, List.cons.injEq] at heq
          have := ih.2 ⟨heq.2, hlast⟩
          rw [h] at this
          cases this
          rw [heq.1]
    | none =>
      have hcs := splitLast_eq_none_iff.1 h
      by_cases hc : c = mark
      · subst hc
        simp only [if_pos, Option.some.injEq, Prod.mk.injEq]
        constructor
        · rintro ⟨rfl, rfl⟩
          exact ⟨rfl, hcs⟩
        · rintro ⟨heq, hlast⟩
          cases before with
          | nil => simpa using heq
          | cons b before =>
            rw [List.cons_append, List.cons.injEq] at heq
            exact absurd (by rw [heq.2]; simp) hcs
      · simp only [if_neg hc, reduceCtorEq, false_iff, not_and]
        intro heq
        cases before with
        | nil => exact absurd (List.cons.inj heq).1 hc
        | cons b before =>
          rw [List.cons_append, List.cons.injEq] at heq
          exact absurd (by rw [heq.2]; simp) hcs

end Text
end WaveMill
