import WaveMill.Proofs.Text.ByteOrder
import WaveMill.Registry

/-!
# The assets of a registry

The order of the assets is a field of a registry.  Read off here is what it means for their names,
and that an insertion under a new name adds an asset to the others and changes none of them.

## What is here

* `Registry.require_eq_ok_iff` — an asset is asked for by its index.
* `Registry.names_ascend` — the names ascend byte by byte.
* `Registry.perm_foldl_insert` — assets of new names are added to the others.
-/

set_option autoImplicit false
namespace WaveMill

/-- An element that has a key of its own is added to the others. -/
theorem Ordered.perm_insert {κ α : Type} [LT κ] [LE κ] [Std.IsLinearOrder κ] [Std.LawfulOrderLT κ]
    [DecidableLT κ] {key : α → κ} {a : α} {xs : List α} (h : ∀ b ∈ xs, key b ≠ key a) :
    (Ordered.insert key a xs).Perm (a :: xs) := by
  induction xs with
  | nil => exact .refl _
  | cons b rest ih =>
    rw [Ordered.insert]
    split
    · exact .refl _
    · rename_i hab
      split
      · have hrest := ih fun c hc ↦ h c (List.mem_cons_of_mem b hc)
        exact (hrest.cons b).trans (.swap a b rest)
      · rename_i hba
        exact absurd (Ordered.eq_of_not_lt hba hab) (h b List.mem_cons_self)

namespace Registry

variable {registry : Registry} {asset : Asset}

theorem require_eq_ok_iff {index : Nat} :
    registry.require index = .ok asset ↔ registry.assets[index]? = some asset := by
  unfold require
  cases registry.assets[index]? with
  | none => simp
  | some found => simp

/-- The names of the assets ascend in the order of their bytes. -/
theorem names_ascend (registry : Registry) :
    registry.names.Pairwise fun a b ↦ Bytes.ofText a < Bytes.ofText b := by
  refine List.pairwise_map.2 (registry.ordered.imp fun hlt ↦ ?_)
  exact Bytes.ofText_lt_iff.2 hlt

/-- Assets that all have names of their own are added to the others, and nothing else changes. -/
theorem perm_foldl_insert {assets : List Asset} (hassets : (assets.map Asset.name).Nodup)
    (hnew : ∀ asset ∈ assets, asset.name ∉ registry.names) :
    (assets.foldl insert registry).assets.Perm (registry.assets ++ assets) := by
  induction assets generalizing registry with
  | nil => simp
  | cons asset rest ih =>
    rw [List.map_cons, List.nodup_cons] at hassets
    have hinsert : (registry.insert asset).assets.Perm (asset :: registry.assets) := by
      refine Ordered.perm_insert fun other hother hname ↦ ?_
      exact hnew asset List.mem_cons_self (hname ▸ List.mem_map_of_mem hother)
    rw [List.foldl_cons]
    have hrest : ∀ other ∈ rest, other.name ∉ (registry.insert asset).names := by
      intro other hother hname
      rcases List.mem_cons.1 (((hinsert.map Asset.name).mem_iff).1 hname) with heq | hold
      · exact hassets.1 (heq ▸ List.mem_map_of_mem hother)
      · exact hnew other (List.mem_cons_of_mem asset hother) hold
    have hboth : (asset :: registry.assets ++ rest).Perm (registry.assets ++ asset :: rest) :=
      List.perm_middle.symm
    exact (ih hassets.2 hrest).trans ((hinsert.append_right rest).trans hboth)

/-- Two registries with the same assets have them in the same order. -/
theorem assets_eq_of_perm {first second : List Asset} (h : first.Perm second)
    (hfirst : Ordered.By Asset.name first) (hsecond : Ordered.By Asset.name second) :
    first = second := by
  refine h.eq_of_pairwise (fun a b _ _ hab hba ↦ ?_) hfirst hsecond
  exact absurd (Std.lt_trans hab hba) Std.lt_irrefl

end Registry
end WaveMill
