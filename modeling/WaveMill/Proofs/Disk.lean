import WaveMill.Proofs.Stateful
import WaveMill.Store

/-!
# Disks that note what is written

A command reports on files by their names.  Under which paths they were written cannot be read off a
disk afterwards, because a later file may have taken the place of an earlier one.  So a disk is
asked to note every file that it wrote, in the order of the writing.  The notes are for the theory
alone: an action on a disk does the same on one that takes notes.

## What is here

* `Disk.traced` — a disk that notes what it has written.
* `Noting` — an action that does what another one does, and takes notes; how such actions are put
  together.
* `Store.inDirectory_traced_apply` — what is noted when a file is stored.
-/

set_option autoImplicit false
namespace WaveMill

open Stateful

variable {σ α β : Type}

/-- An action that leaves the notes about the files that were written alone. -/
def beside (action : StateM σ α) : StateM (List (String × Bytes) × σ) α :=
  fun (written, s) ↦
    let (a, s) := action s
    (a, written, s)

/-- A disk that also notes every file that it has written. -/
def Disk.traced (disk : Disk (StateM σ)) : Disk (StateM (List (String × Bytes) × σ)) where
  isDirectory path := beside (disk.isDirectory path)
  walk path := beside (disk.walk path)
  read path := beside (disk.read path)
  makeDirectories path := beside (disk.makeDirectories path)
  write path bytes := fun (written, s) ↦
    match disk.write path bytes s with
    | (.error fault, s) => (.error fault, written, s)
    | (.ok (), s) => (.ok (), written ++ [(path, bytes)], s)

/-! ## Notes change nothing -/

/-- An action that does what another one does, whatever it notes. -/
def Noting (noting : StateM (List (String × Bytes) × σ) α) (action : StateM σ α) : Prop :=
  ∀ written s, ∃ written', noting (written, s) = ((action s).1, written', (action s).2)

namespace Noting

theorem eq {noting : StateM (List (String × Bytes) × σ) α} {action : StateM σ α}
    (h : Noting noting action) (written : List (String × Bytes)) (s : σ) :
    action s = ((noting (written, s)).1, (noting (written, s)).2.2) := by
  obtain ⟨written', h⟩ := h written s
  rw [h]
  rfl

theorem pure (a : α) : Noting (σ := σ) (Pure.pure a) (Pure.pure a) := fun written _ ↦ ⟨written, rfl⟩

theorem beside (action : StateM σ α) : Noting (beside action) action := fun written _ ↦
  ⟨written, rfl⟩

theorem bind {x' : StateM (List (String × Bytes) × σ) α} {x : StateM σ α}
    {f' : α → StateM (List (String × Bytes) × σ) β} {f : α → StateM σ β} (hx : Noting x' x)
    (hf : ∀ a, Noting (f' a) (f a)) : Noting (x' >>= f') (x >>= f) := by
  intro written s
  obtain ⟨written₁, hx⟩ := hx written s
  obtain ⟨written₂, hf⟩ := hf (x s).1 written₁ (x s).2
  exact ⟨written₂, by rw [bind_apply, bind_apply, hx, hf]⟩

theorem mapM {f' : α → StateM (List (String × Bytes) × σ) β} {f : α → StateM σ β}
    (hf : ∀ a, Noting (f' a) (f a)) (xs : List α) : Noting (xs.mapM f') (xs.mapM f) := by
  induction xs with
  | nil => exact .pure []
  | cons a rest ih =>
    rw [List.mapM_cons, List.mapM_cons]
    exact .bind (hf a) fun b ↦ .bind ih fun bs ↦ .pure (b :: bs)

theorem write (disk : Disk (StateM σ)) (path : String) (bytes : Bytes) :
    Noting (disk.traced.write path bytes) (disk.write path bytes) := by
  intro written s
  rcases hwrite : disk.write path bytes s with ⟨_ | _, s'⟩
  · exact ⟨written, by simp only [Disk.traced, hwrite]⟩
  · exact ⟨written ++ [(path, bytes)], by simp only [Disk.traced, hwrite]⟩

theorem inDirectory (disk : Disk (StateM σ)) (directory output : String) (bytes : Bytes) :
    Noting (Store.inDirectory disk.traced directory output bytes)
      (Store.inDirectory disk directory output bytes) := by
  unfold Store.inDirectory
  cases Path.fileName? output with
  | none => exact .pure _
  | some file =>
    refine .bind (.beside _) fun made ↦ ?_
    cases made with
    | error fault => exact .pure _
    | ok _ =>
      refine .bind (.write disk _ bytes) fun stored ↦ ?_
      cases stored with
      | error fault => exact .pure _
      | ok _ => exact .pure _

end Noting

/-! ## What is noted -/

/-- Storing a file in a directory that the disk makes when it is needed. -/
theorem Store.inDirectory_apply {disk : Disk (StateM σ)} {output file : String}
    (hfile : Path.fileName? output = some file) (directory : String) (bytes : Bytes) (s : σ) :
    Store.inDirectory disk directory output bytes s =
      match disk.makeDirectories directory s with
      | (.error fault, s) => (.error (.persist output (.disk fault)), s)
      | (.ok (), s) =>
        match disk.write (Path.join directory file) bytes s with
        | (.error fault, s) => (.error (.persist output (.disk fault)), s)
        | (.ok (), s) => (.ok (), s) := by
  rw [Store.inDirectory, hfile]
  simp only [bind_apply]
  rcases disk.makeDirectories directory s with ⟨_ | _, s₁⟩
  · rfl
  · simp only [bind_apply]
    rcases disk.write (Path.join directory file) bytes s₁ with ⟨_ | _, s₂⟩
    · rfl
    · rfl

/-- A file that is stored in a directory is written under its last name, or nothing is written. -/
theorem Store.inDirectory_traced_apply (disk : Disk (StateM σ)) (directory output : String)
    (bytes : Bytes) (written : List (String × Bytes)) (s : σ) :
    (∃ failure s', Store.inDirectory disk.traced directory output bytes (written, s) =
      (.error failure, written, s')) ∨
    ∃ file s', Path.fileName? output = some file ∧
      Store.inDirectory disk.traced directory output bytes (written, s) =
        (.ok (), written ++ [(Path.join directory file, bytes)], s') := by
  cases hfile : Path.fileName? output with
  | none => exact .inl ⟨_, s, by rw [Store.inDirectory, hfile]; rfl⟩
  | some file =>
    rw [Store.inDirectory_apply hfile]
    simp only [Disk.traced, WaveMill.beside]
    rcases disk.makeDirectories directory s with ⟨_ | _, s₁⟩
    · exact .inl ⟨_, s₁, rfl⟩
    · simp only
      rcases disk.write (Path.join directory file) bytes s₁ with ⟨_ | _, s₂⟩
      · exact .inl ⟨_, s₂, rfl⟩
      · exact .inr ⟨file, s₂, rfl, rfl⟩

end WaveMill
