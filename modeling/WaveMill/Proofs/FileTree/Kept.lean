import WaveMill.Proofs.Disk
import WaveMill.Proofs.FileTree.Written
import WaveMill.Proofs.Outcome

/-!
# What becomes of the files of a tree

An action that makes directories and writes files leaves all that it did not write to.  Which file
is written to depends on where a path leads at that moment, and a path can lead to a place under
many names: by way of links, of `..`, or of a directory that was made just before.  But directories
and links never go away, so a path that led to a file once leads there ever after.  Hence it is
enough to look at the tree at the end: a file that has not its old contents any more is one that a
path leads to under which something was written, and it has the contents that were written there.

## What is here

* `FileTree.Spot.Seen` and `FileTree.seen_walk` — what a walk says about free names and files is so,
  wherever it began.
* `FileTree.Became` — what a tree has become after some files were written, one action after the
  other (`FileTree.Became.trans`).
* `FileTree.Grown` — what a tree has become after directories were made.
* `FileTree.became_write`, `FileTree.grown_makeDirectories` — the operations of the disk.
* `Recorded` — an action that notes all that it writes; how such actions are put together.
-/

set_option autoImplicit false
namespace WaveMill

open Stateful

namespace FileTree

variable {tree tree₁ tree₂ : FileTree} {purpose : Purpose} {place target : Place} {name : String}
  {entry : Entry} {bytes : Bytes} {steps : List String} {spot : Spot} {path : String}
  {files files₁ files₂ : List (String × Bytes)}

/-! ## What a walk sees -/

/-- What the spot says about a free name, a file or a link is so.  A walk that begins at a place
where there is no directory can be wrong about directories. -/
inductive Spot.Seen (tree : FileTree) : Spot → Prop where
  | free {place : Place} {name : String} (h : tree.entry? (place ++ [name]) = none) :
      Seen tree (.free place name)
  | found {place : Place} {entry : Entry} (h : tree.entry? place = some entry) :
      Seen tree (.found place entry)
  | directory (place : Place) : Seen tree (.found place .directory)

theorem seen_walkBy {follow : Place → List String → Except DiskFault Spot}
    (hfollow : ∀ place steps, follow place steps = .ok spot → spot.Seen tree)
    (h : walkBy tree purpose follow place steps = .ok spot) : spot.Seen tree := by
  induction steps generalizing place with
  | nil =>
    obtain rfl := Except.ok.inj h
    exact .directory place
  | cons step rest ih =>
    cases turn_of_walkBy h with
    | idle _ h => exact ih h
    | up _ _ h => exact ih h
    | enter _ _ h => exact ih h
    | follow _ _ h => exact hfollow _ _ h
    | arrive _ hentry _ => exact .found hentry
    | free _ hentry _ => exact .free hentry

theorem seen_walk (h : tree.walk purpose path = .ok spot) : spot.Seen tree := by
  have hlinks (links : Nat) (place : Place) (steps : List String)
      (h : walkLinks tree purpose links place steps = .ok spot) : spot.Seen tree := by
    induction links generalizing place steps with
    | zero =>
      refine seen_walkBy (fun _ _ h ↦ ?_) h
      cases h
    | succ links ih => exact seen_walkBy ih h
  exact hlinks _ _ _ ((walk_eq_walkLinks h tree purpose).symm.trans h)

theorem Spot.Seen.entry?_of_file (h : Seen tree (.found place (.file bytes))) :
    tree.entry? place = some (.file bytes) := by
  cases h with
  | found h => exact h

theorem Spot.Seen.yields (h : spot.Seen tree) (hlands : spot.Lands target) :
    tree.Yields target := by
  cases hlands with
  | free place name =>
    cases h with
    | free h => exact fun entry hentry ↦ nomatch h.symm.trans hentry
  | found place old =>
    exact fun entry hentry ↦
      ⟨old, Option.some.inj (hentry.symm.trans h.entry?_of_file)⟩

/-- The root is a directory, so no file is written there. -/
theorem Spot.Seen.exists_concat (h : spot.Seen tree) (hlands : spot.Lands target) :
    ∃ place name, target = place ++ [name] := by
  rcases target.eq_nil_or_concat with rfl | ⟨place, name, rfl⟩
  · obtain ⟨_, hroot⟩ := h.yields hlands .directory rfl
    cases hroot
  · exact ⟨place, name, List.concat_eq_append⟩

/-- The contents of a file are read at the place that its path leads to. -/
theorem fileAt_eq_ok_iff : tree.fileAt path = .ok bytes ↔
    ∃ place, tree.walk .look path = .ok (.found place (.file bytes)) := by
  rw [fileAt, Outcome.bind_eq_ok_iff]
  constructor
  · rintro ⟨⟨place, old | - | link⟩ | ⟨place, name⟩, hwalk, h⟩
    · obtain rfl := Except.ok.inj h
      exact ⟨place, hwalk⟩
    · cases h
    · cases h
    · cases h
  · rintro ⟨place, hwalk⟩
    exact ⟨_, hwalk, rfl⟩

/-! ## What a tree becomes -/

/-- What a tree has become after some files were written under their paths: all its directories and
links are there, and so are its files, except that the paths may have led to some of them. -/
structure Became (tree : FileTree) (files : List (String × Bytes)) (tree' : FileTree) : Prop where
  workplace : tree'.workplace = tree.workplace
  ways : KeepsWays tree tree'
  kept : ∀ place bytes, tree.entry? place = some (.file bytes) →
    tree'.entry? place = some (.file bytes) ∨
      ∃ file ∈ files, tree'.walk .look file.1 = .ok (.found place (.file file.2))

namespace Became

theorem refl (tree : FileTree) (files : List (String × Bytes)) : Became tree files tree :=
  ⟨rfl, .refl tree, fun _ _ h ↦ .inl h⟩

/-- A path that led to a file still does. -/
theorem walk_look (h : Became tree files tree₁) {old : Bytes}
    (hwalk : tree.walk .look path = .ok (.found place (.file old)))
    (hnow : tree₁.entry? place = some (.file bytes)) :
    tree₁.walk .look path = .ok (.found place (.file bytes)) :=
  walk_changed h.ways h.workplace hnow (.found place old) (.inr ⟨rfl, place, old, rfl⟩) hwalk

theorem trans (h₁ : Became tree files₁ tree₁) (h₂ : Became tree₁ files₂ tree₂) :
    Became tree (files₁ ++ files₂) tree₂ where
  workplace := h₂.workplace.trans h₁.workplace
  ways :=
    { directory := fun p hp ↦ h₂.ways.directory p (h₁.ways.directory p hp)
      link := fun p link hp ↦ h₂.ways.link p link (h₁.ways.link p link hp) }
  kept place bytes hentry := by
    rcases h₁.kept place bytes hentry with hsame | ⟨file, hfile, hwalk⟩
    · refine (h₂.kept place bytes hsame).imp_right fun ⟨file, hfile, hwalk⟩ ↦ ?_
      exact ⟨file, List.mem_append_right _ hfile, hwalk⟩
    · right
      have hnow := (seen_walk hwalk).entry?_of_file
      rcases h₂.kept place file.2 hnow with hsame | ⟨later, hlater, hlast⟩
      · exact ⟨file, List.mem_append_left _ hfile, h₂.walk_look hwalk hsame⟩
      · exact ⟨later, List.mem_append_right _ hlater, hlast⟩

/-- One place has changed, to which files may come, and a path leads to the file that was there. -/
theorem of_changed (hyields : tree.Yields target) (hworkplace : tree₁.workplace = tree.workplace)
    (hchanged : ∀ p, tree₁.entry? p = if p = target then some entry else tree.entry? p)
    (hwritten : ∀ bytes, tree.entry? target = some (.file bytes) →
      ∃ file ∈ files, tree₁.walk .look file.1 = .ok (.found target (.file file.2))) :
    Became tree files tree₁ where
  workplace := hworkplace
  ways := hyields.keepsWays hchanged
  kept p bytes hentry := by
    by_cases hp : p = target
    · subst hp
      exact .inr (hwritten bytes hentry)
    · exact .inl (by rw [hchanged, if_neg hp, hentry])

end Became

/-- What a tree has become after directories were made: there are some where nothing was before. -/
structure Grown (tree tree' : FileTree) : Prop where
  workplace : tree'.workplace = tree.workplace
  entry : ∀ place, tree'.entry? place = tree.entry? place ∨
    tree.entry? place = none ∧ tree'.entry? place = some .directory

namespace Grown

theorem refl (tree : FileTree) : Grown tree tree := ⟨rfl, fun _ ↦ .inl rfl⟩

/-- All that was there is there. -/
theorem kept (h : Grown tree tree₁) (hentry : tree.entry? place = some entry) :
    tree₁.entry? place = some entry := by
  rcases h.entry place with hsame | ⟨hnone, -⟩
  · exact hsame.trans hentry
  · exact nomatch hnone.symm.trans hentry

theorem trans (h₁ : Grown tree tree₁) (h₂ : Grown tree₁ tree₂) : Grown tree tree₂ where
  workplace := h₂.workplace.trans h₁.workplace
  entry place := by
    rcases h₁.entry place with hsame | ⟨hnone, hmade⟩
    · rw [← hsame]
      exact h₂.entry place
    · exact .inr ⟨hnone, h₂.kept hmade⟩

theorem became (h : Grown tree tree₁) : Became tree [] tree₁ where
  workplace := h.workplace
  ways := ⟨fun _ ↦ h.kept, fun _ _ ↦ h.kept⟩
  kept _ _ hentry := .inl (h.kept hentry)

end Grown

/-! ## The operations of the disk -/

/-- An entry is put in its place, or nothing happens. -/
theorem put_eq_or_changed (tree : FileTree) (place : Place) (name : String) (entry : Entry) :
    tree.put place name entry = tree ∨
      ∀ p, FileTree.entry? (tree.put place name entry) p =
        if p = place ++ [name] then some entry else tree.entry? p := by
  by_cases hput : tree.isDirectoryAt place = true ∧ Path.isName name = true ∧
      tree.isDirectoryAt (place ++ [name]) = false
  · exact .inr (entry?_put hput.1 hput.2.1 hput.2.2 entry)
  · exact .inl (by rw [put, dif_neg hput])

theorem became_write (h : (disk.write path bytes tree).1 = .ok ()) :
    Became tree [(path, bytes)] (disk.write path bytes tree).2 := by
  obtain ⟨spot, target, hwalk, hlands⟩ := lands_of_write h
  have hyields := (seen_walk hwalk).yields hlands
  obtain ⟨place, name, rfl⟩ := (seen_walk hwalk).exists_concat hlands
  rw [write_of_lands hwalk hlands]
  rcases put_eq_or_changed tree place name (.file bytes) with hsame | hchanged
  · rw [hsame]
    exact .refl tree _
  · refine .of_changed hyields (workplace_put ..) hchanged fun _ _ ↦
      ⟨(path, bytes), List.mem_singleton_self _, ?_⟩
    exact walk_changed (hyields.keepsWays hchanged) (workplace_put ..)
      (by rw [hchanged, if_pos rfl]) hlands (.inl rfl) hwalk

theorem write_of_error {fault : DiskFault} (h : (disk.write path bytes tree).1 = .error fault) :
    (disk.write path bytes tree).2 = tree := by
  change ((putFile path bytes).run tree).1 = _ at h
  show ((putFile path bytes).run tree).2 = tree
  rw [putFile, run_get_bind] at h ⊢
  generalize tree.walk .write path = outcome at h ⊢
  rcases outcome with _ | (⟨place, old | - | link⟩ | ⟨place, name⟩)
  · rfl
  · dsimp only at h ⊢
    cases hlast : place.getLast? with
    | none => rfl
    | some name =>
      rw [hlast] at h
      cases h
  · rfl
  · rfl
  · cases h

/-- A change that makes directories, if anything. -/
def Change.Keeping {α : Type} (change : Change α) : Prop :=
  ∀ tree, Grown tree (change.run tree).2

namespace Change.Keeping

variable {α β : Type}

theorem pure (a : α) : Keeping (Pure.pure a : Change α) := fun tree ↦ .refl tree

theorem throw (fault : DiskFault) : Keeping (throw fault : Change α) := fun tree ↦ .refl tree

theorem bind {x : Change α} {f : α → Change β} (hx : Keeping x) (hf : ∀ a, Keeping (f a)) :
    Keeping (x >>= f) := by
  intro tree
  have hfirst := hx tree
  rw [ExceptT.run_bind, bind_apply]
  generalize x.run tree = outcome at hfirst ⊢
  rcases outcome with ⟨fault | a, tree₁⟩
  · exact hfirst
  · exact hfirst.trans (hf a tree₁)

theorem tryCatch {x : Change α} {handle : DiskFault → Change α} (hx : Keeping x)
    (hhandle : ∀ fault, Keeping (handle fault)) : Keeping (MonadExcept.tryCatch x handle) := by
  intro tree
  have hfirst := hx tree
  rw [ExceptT.run_tryCatch, bind_apply]
  generalize x.run tree = outcome at hfirst ⊢
  rcases outcome with ⟨fault | a, tree₁⟩
  · exact hfirst.trans (hhandle fault tree₁)
  · exact hfirst

theorem makeDirectory (path : String) : Keeping (makeDirectory path) := by
  intro tree
  rw [FileTree.makeDirectory, run_get_bind]
  rcases hwalk : tree.walk .make path with fault | (⟨place, entry⟩ | ⟨place, name⟩)
  · exact .refl tree
  · exact .refl tree
  · cases seen_walk hwalk with
    | free hfree =>
      show Grown tree (tree.put place name .directory)
      rcases put_eq_or_changed tree place name .directory with hsame | hchanged
      · rw [hsame]
        exact .refl tree
      · refine ⟨workplace_put .., fun p ↦ ?_⟩
        by_cases hp : p = place ++ [name]
        · subst hp
          exact .inr ⟨hfree, by rw [hchanged, if_pos rfl]⟩
        · exact .inl (by rw [hchanged, if_neg hp])

theorem ensureDirectory (path : String) : Keeping (ensureDirectory path) := by
  -- The way out by `return` is a result of its own in the block.
  refine .bind (.tryCatch (.bind (.makeDirectory path) fun _ ↦ .pure _) fun fault ↦ ?_)
    fun early ↦ ?_
  · intro tree
    rw [run_get_bind]
    split
    · exact .refl tree
    · exact .refl tree
  · cases early with
    | error _ => exact .pure _
    | ok _ => exact .pure _

theorem ensureFirst (paths : List String) : Keeping (ensureFirst paths) := by
  induction paths with
  | nil => exact .pure ()
  | cons path shorter ih =>
    refine .tryCatch (.ensureDirectory path) fun fault ↦ ?_
    cases fault with
    | noEntry => exact .bind ih fun _ ↦ .ensureDirectory path
    | _ => exact .throw _

end Change.Keeping

theorem grown_makeDirectories (path : String) (tree : FileTree) :
    Grown tree (disk.makeDirectories path tree).2 := by
  show Grown tree ((makeDirectories path).run tree).2
  rw [makeDirectories]
  split
  · exact .refl tree
  · exact Change.Keeping.ensureFirst _ tree

end FileTree

/-! ## Actions that note what they write -/

variable {α β : Type}

/-- An action that notes all the files that it writes into a tree. -/
def Recorded (action : StateM (List (String × Bytes) × FileTree) α) : Prop :=
  ∀ written tree, ∃ files, (action (written, tree)).2.1 = written ++ files ∧
    tree.Became files (action (written, tree)).2.2

namespace Recorded

theorem pure (a : α) : Recorded (Pure.pure a) := fun written tree ↦
  ⟨[], (List.append_nil written).symm, .refl tree []⟩

theorem bind {x : StateM (List (String × Bytes) × FileTree) α}
    {f : α → StateM (List (String × Bytes) × FileTree) β} (hx : Recorded x)
    (hf : ∀ a, Recorded (f a)) : Recorded (x >>= f) := by
  intro written tree
  obtain ⟨files₁, hwritten₁, hbecame₁⟩ := hx written tree
  obtain ⟨files₂, hwritten₂, hbecame₂⟩ :=
    hf (x (written, tree)).1 (x (written, tree)).2.1 (x (written, tree)).2.2
  refine ⟨files₁ ++ files₂, ?_, hbecame₁.trans hbecame₂⟩
  rw [bind_apply, ← List.append_assoc, ← hwritten₁]
  exact hwritten₂

theorem mapM {f : α → StateM (List (String × Bytes) × FileTree) β} (hf : ∀ a, Recorded (f a))
    (xs : List α) : Recorded (xs.mapM f) := by
  induction xs with
  | nil => exact .pure []
  | cons a rest ih =>
    rw [List.mapM_cons]
    exact .bind (hf a) fun b ↦ .bind ih fun bs ↦ .pure (b :: bs)

theorem makeDirectories (path : String) :
    Recorded (FileTree.disk.traced.makeDirectories path) := fun written tree ↦
  ⟨[], (List.append_nil written).symm, (FileTree.grown_makeDirectories path tree).became⟩

theorem write (path : String) (bytes : Bytes) :
    Recorded (FileTree.disk.traced.write path bytes) := by
  intro written tree
  simp only [Disk.traced]
  rcases hwrite : FileTree.disk.write path bytes tree with ⟨fault | _, tree₁⟩
  · have hsame := FileTree.write_of_error (congrArg Prod.fst hwrite)
    rw [hwrite] at hsame
    exact ⟨[], (List.append_nil written).symm, hsame ▸ .refl tree []⟩
  · have hbecame := FileTree.became_write (congrArg Prod.fst hwrite)
    rw [hwrite] at hbecame
    exact ⟨[(path, bytes)], rfl, hbecame⟩

theorem inDirectory (directory output : String) (bytes : Bytes) :
    Recorded (Store.inDirectory FileTree.disk.traced directory output bytes) := by
  unfold Store.inDirectory
  cases Path.fileName? output with
  | none => exact .pure _
  | some file =>
    refine .bind (.makeDirectories directory) fun made ↦ ?_
    cases made with
    | error fault => exact .pure _
    | ok _ =>
      refine .bind (.write _ bytes) fun stored ↦ ?_
      cases stored with
      | error fault => exact .pure _
      | ok _ => exact .pure _

end Recorded
end WaveMill
