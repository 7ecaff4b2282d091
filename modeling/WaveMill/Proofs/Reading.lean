import Mathlib.Data.List.Forall2

/-!
# Reading reports off lists

The report on a batch is read off the list of what became of every member: to each part of the
report a member adds one entry or none, so that a part is a `filterMap` of the list.

## What is here

* `Reading.filterMap_cons`, `Reading.length_filterMap_cons` — what the first member adds.
* `Reading.filterMap_range` — a list read by its places.
* `Reading.lookup_map_self` — looking up a place among the places that have been worked off.
* `Reading.exists_of_forall₂` — the partner of a member, where two lists go side by side.
-/

set_option autoImplicit false
namespace WaveMill
namespace Reading

variable {α β : Type}

theorem filterMap_cons (read : α → Option β) (a : α) (rest : List α) :
    (a :: rest).filterMap read = (read a).toList ++ rest.filterMap read := by
  rw [List.filterMap_cons]
  cases read a <;> rfl

theorem length_filterMap_cons (read : α → Option β) (a : α) (rest : List α) :
    ((a :: rest).filterMap read).length =
      (read a).toList.length + (rest.filterMap read).length := by
  rw [filterMap_cons, List.length_append]

/-- A list may be read place by place. -/
theorem filterMap_range (read : α → Option β) (xs : List α) :
    ((List.range xs.length).filterMap fun k ↦ xs[k]?.bind read) = xs.filterMap read := by
  induction xs with
  | nil => rfl
  | cons a rest ih =>
    rw [List.length_cons, List.range_succ_eq_map, filterMap_cons, List.filterMap_map,
      filterMap_cons, ← ih]
    rfl

/-- A place that has been worked off, perhaps more than once, is found with its result. -/
theorem lookup_map_self (f : Nat → β) (order : List Nat) (k : Nat) :
    (order.map fun n ↦ (n, f n)).lookup k = if k ∈ order then some (f k) else none := by
  induction order with
  | nil => rfl
  | cons n rest ih =>
    rw [List.map_cons, List.lookup_cons, ih]
    by_cases hk : k = n
    · simp [hk]
    · have hne : (k == n) = false := beq_eq_false_iff_ne.2 hk
      rw [hne]
      simp [hk]

theorem exists_of_forall₂ {related : α → β → Prop} {xs : List α} {ys : List β}
    (h : List.Forall₂ related xs ys) {a : α} (ha : a ∈ xs) : ∃ b ∈ ys, related a b := by
  induction h with
  | nil => cases ha
  | cons hab _ ih =>
    rcases List.mem_cons.1 ha with rfl | ha
    · exact ⟨_, List.mem_cons_self, hab⟩
    · obtain ⟨b, hb, hrelated⟩ := ih ha
      exact ⟨b, List.mem_cons_of_mem _ hb, hrelated⟩

end Reading
end WaveMill
