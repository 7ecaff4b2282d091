/-!
# Lists in order of a key

Some tables are lists in which every element has a key of its own, and the keys ascend.  Such a
table shows its elements in one order only, whatever order they came in.

## What is here

* `Ordered.By` — the keys ascend, so that no two are equal.
* `Ordered.insert` — puts an element at its place, with the laws that it is there afterwards
  (`mem_insert_iff`) and that the order is kept (`By.insert`).
* `Ordered.sort` — puts a list in order.  Elements of the same key stay as they are.
-/

set_option autoImplicit false
namespace WaveMill
namespace Ordered

variable {κ α : Type} [LT κ]

/-- The keys of a list ascend. -/
def By (key : α → κ) (xs : List α) : Prop := xs.Pairwise fun a b ↦ key a < key b

/-- Puts an element at its place.  An element that has the same key gives way. -/
def insert [DecidableLT κ] (key : α → κ) (a : α) : List α → List α
  | [] => [a]
  | b :: rest =>
    if key a < key b then a :: b :: rest
    else if key b < key a then b :: insert key a rest
    else a :: rest

/-- Puts an element in front of the first one that has no lesser key. -/
def insertBefore [DecidableLT κ] (key : α → κ) (a : α) : List α → List α
  | [] => [a]
  | b :: rest => if key b < key a then b :: insertBefore key a rest else a :: b :: rest

/-- The elements of a list in the order of their keys. -/
def sort [DecidableLT κ] (key : α → κ) (xs : List α) : List α := xs.foldr (insertBefore key) []

theorem mem_of_mem_insert [DecidableLT κ] {key : α → κ} {a x : α} {xs : List α}
    (h : x ∈ insert key a xs) :
    x = a ∨ x ∈ xs := by
  induction xs with
  | nil => exact .inl (by simpa [insert] using h)
  | cons b rest ih =>
    rw [insert] at h
    split at h
    · exact (List.mem_cons.1 h).imp_right id
    · split at h
      · rcases List.mem_cons.1 h with rfl | h
        · exact .inr (by simp)
        · exact (ih h).imp_right (List.mem_cons_of_mem b)
      · exact (List.mem_cons.1 h).imp_right (List.mem_cons_of_mem b)

variable [LE κ] [Std.IsLinearOrder κ] [Std.LawfulOrderLT κ]

theorem eq_of_not_lt {a b : κ} (hab : ¬ a < b) (hba : ¬ b < a) : a = b :=
  Std.le_antisymm (Std.not_lt.1 hba) (Std.not_lt.1 hab)

variable [DecidableLT κ]

/-- An element keeps its place among the others: the order is kept. -/
theorem By.insert {key : α → κ} {xs : List α} (h : By key xs) (a : α) :
    By key (insert key a xs) := by
  induction xs with
  | nil => exact List.pairwise_singleton ..
  | cons b rest ih =>
    have hrest := (List.pairwise_cons.1 h).2
    have hb := (List.pairwise_cons.1 h).1
    rw [Ordered.insert]
    split
    case isTrue hab =>
      refine List.pairwise_cons.2 ⟨fun x hx ↦ ?_, h⟩
      rcases List.mem_cons.1 hx with rfl | hx
      · exact hab
      · exact Std.lt_trans hab (hb x hx)
    case isFalse hab =>
      split
      case isTrue hba =>
        refine List.pairwise_cons.2 ⟨fun x hx ↦ ?_, ih hrest⟩
        rcases mem_of_mem_insert hx with rfl | hx
        · exact hba
        · exact hb x hx
      case isFalse hba =>
        have hkey : key a = key b := eq_of_not_lt hab hba
        exact List.pairwise_cons.2 ⟨fun x hx ↦ hkey ▸ hb x hx, hrest⟩

/-- What is in a list after an insertion: the new element, and the others with other keys. -/
theorem mem_insert_iff {key : α → κ} {a x : α} {xs : List α} (h : By key xs) :
    x ∈ Ordered.insert key a xs ↔ x = a ∨ (x ∈ xs ∧ key x ≠ key a) := by
  induction xs with
  | nil => simp [Ordered.insert]
  | cons b rest ih =>
    have hrest := (List.pairwise_cons.1 h).2
    have hb := (List.pairwise_cons.1 h).1
    have hne : ∀ {c d : κ}, c < d → d ≠ c := fun hcd he ↦ Std.lt_irrefl (he ▸ hcd)
    rw [Ordered.insert]
    split
    case isTrue hab =>
      have : ∀ y ∈ b :: rest, key y ≠ key a := by
        intro y hy
        rcases List.mem_cons.1 hy with rfl | hy
        · exact hne hab
        · exact hne (Std.lt_trans hab (hb y hy))
      rw [List.mem_cons]
      exact or_congr_right ⟨fun hx ↦ ⟨hx, this x hx⟩, And.left⟩
    case isFalse hab =>
      split
      case isTrue hba =>
        rw [List.mem_cons, ih hrest, List.mem_cons]
        constructor
        · rintro (rfl | rfl | ⟨hx, hk⟩)
          · exact .inr ⟨.inl rfl, (hne hba).symm⟩
          · exact .inl rfl
          · exact .inr ⟨.inr hx, hk⟩
        · rintro (rfl | ⟨rfl | hx, hk⟩)
          · exact .inr (.inl rfl)
          · exact .inl rfl
          · exact .inr (.inr ⟨hx, hk⟩)
      case isFalse hba =>
        have hkey : key a = key b := eq_of_not_lt hab hba
        rw [List.mem_cons, List.mem_cons]
        refine or_congr_right ⟨fun hx ↦ ⟨.inr hx, ?_⟩, ?_⟩
        · exact hkey ▸ hne (hb x hx)
        · rintro ⟨rfl | hx, hk⟩
          · exact absurd hkey.symm hk
          · exact hx

end Ordered
end WaveMill
