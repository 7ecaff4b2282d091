import Mathlib.Data.List.Pairwise
import WaveMill.Ordered

/-!
# Lists in one order only

The elements of a list whose keys ascend are told apart by their keys, and there is no other list of
the same elements whose keys ascend.  So it does not matter in which order elements come that are
sorted by keys of their own.

## What is here

* `Ordered.By.eq_of_key_eq` and `Ordered.By.ext` — no two elements have the same key, and no two
  lists the same elements.
* `Ordered.perm_sort` and `Ordered.by_sort` — what sorting comes to.
-/

set_option autoImplicit false
namespace WaveMill
namespace Ordered

variable {κ α : Type} [LT κ] {key : α → κ} {xs ys : List α} {a b : α}

section

variable [DecidableLT κ]

theorem perm_insertBefore (key : α → κ) (a : α) (xs : List α) :
    (insertBefore key a xs).Perm (a :: xs) := by
  induction xs with
  | nil => exact .refl _
  | cons b rest ih =>
    rw [insertBefore]
    split
    · exact (ih.cons b).trans (.swap a b rest)
    · exact .refl _

/-- Sorting neither adds nor loses an element. -/
theorem perm_sort (key : α → κ) (xs : List α) : (sort key xs).Perm xs := by
  induction xs with
  | nil => exact .refl _
  | cons a rest ih => exact (perm_insertBefore key a _).trans (ih.cons a)

/-- Elements are sorted by what they stand for just as what they stand for is. -/
theorem sort_map {β : Type} (key : α → κ) (f : β → α) (xs : List β) :
    sort key (xs.map f) = (sort (fun b ↦ key (f b)) xs).map f := by
  have hinsert (b : β) (xs : List β) : insertBefore key (f b) (xs.map f) =
      (insertBefore (fun b ↦ key (f b)) b xs).map f := by
    induction xs with
    | nil => rfl
    | cons first rest ih =>
      rw [List.map_cons, insertBefore, insertBefore, ih]
      split <;> rfl
  induction xs with
  | nil => rfl
  | cons b rest ih =>
    have hsort : sort key (rest.map f) = _ := ih
    rw [List.map_cons, sort, List.foldr_cons, ← sort, hsort, hinsert]
    rfl

end

variable [LE κ] [Std.LawfulOrderLT κ]

theorem By.pairwise_ne (h : By key xs) : xs.Pairwise fun a b ↦ key a ≠ key b :=
  h.imp fun hab ↦ Std.ne_of_lt hab

/-- Elements of an ordered list are told apart by their keys. -/
theorem By.eq_of_key_eq (h : By key xs) (ha : a ∈ xs) (hb : b ∈ xs) (hkey : key a = key b) :
    a = b := by
  have hsymm : Std.Symm fun a b ↦ key a ≠ key b := ⟨fun _ _ ↦ Ne.symm⟩
  by_contra hne
  exact h.pairwise_ne.forall ha hb hne hkey

variable [Std.IsLinearOrder κ]

/-- There is only one order in which the keys of some elements ascend. -/
theorem By.ext (hxs : By key xs) (hys : By key ys) (hmem : ∀ a, a ∈ xs ↔ a ∈ ys) : xs = ys := by
  have hnodup {xs : List α} (h : By key xs) : xs.Nodup :=
    h.pairwise_ne.imp fun hne heq ↦ hne (congrArg key heq)
  have hperm := (List.perm_ext_iff_of_nodup (hnodup hxs) (hnodup hys)).2 hmem
  exact hperm.eq_of_pairwise
    (fun _ _ _ _ hab hba ↦ absurd (Std.lt_trans hab hba) Std.lt_irrefl) hxs hys

variable [DecidableLT κ]

theorem By.insertBefore (h : By key xs) (hne : ∀ x ∈ xs, key x ≠ key a) :
    By key (insertBefore key a xs) := by
  induction xs with
  | nil => exact List.pairwise_singleton ..
  | cons b rest ih =>
    obtain ⟨hb, hrest⟩ := List.pairwise_cons.1 h
    obtain ⟨hba, hnext⟩ := List.forall_mem_cons.1 hne
    rw [Ordered.insertBefore]
    split
    case isTrue hlt =>
      refine List.pairwise_cons.2 ⟨fun x hx ↦ ?_, ih hrest hnext⟩
      rcases List.mem_cons.1 ((perm_insertBefore key a rest).mem_iff.1 hx) with rfl | hx
      · exact hlt
      · exact hb x hx
    case isFalse hlt =>
      have hab : key a < key b := by
        by_contra hab
        exact hba (eq_of_not_lt hlt hab)
      refine List.pairwise_cons.2 ⟨List.forall_mem_cons.2 ⟨hab, fun x hx ↦ ?_⟩, h⟩
      exact Std.lt_trans hab (hb x hx)

/-- The keys of a sorted list ascend, if no two elements have the same key. -/
theorem by_sort (h : (xs.map key).Nodup) : By key (sort key xs) := by
  induction xs with
  | nil => exact List.Pairwise.nil
  | cons a rest ih =>
    obtain ⟨ha, hrest⟩ := List.nodup_cons.1 h
    refine (ih hrest).insertBefore fun x hx heq ↦ ha ?_
    exact heq ▸ List.mem_map_of_mem ((perm_sort key rest).mem_iff.1 hx)

end Ordered
end WaveMill
