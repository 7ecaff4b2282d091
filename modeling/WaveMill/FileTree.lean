import WaveMill.Bytes
import WaveMill.Ordered
import WaveMill.Path

/-!
# File trees

A tree of directories, files and symbolic links is a table from places to what is there.  A place is
the list of names on the way down from the root.  The table is in the order of its places, name by
name, so a directory stands right before all that is below it; and every place but the root lies in
a directory.

## What is here

* `FileTree` — a table with these properties, and a working directory.
* `FileTree.entry?`, `FileTree.isDirectoryAt`, `FileTree.below` — what is at a place, and below it.
* `FileTree.put` — puts an entry into a directory.  A directory never gives way to another entry.
-/

set_option autoImplicit false
namespace WaveMill

/-- The names on the way down from the root. -/
abbrev Place := List String

/-- What can be at a place. -/
inductive Entry where
  | file (bytes : Bytes)
  | directory
  /-- A symbolic link to a path. -/
  | link (target : String)
  deriving DecidableEq, Repr

/-- Whether an entry is a regular file. -/
def Entry.isFile : Entry → Bool
  | file _ => true
  | _ => false

/-- Directories, files and links by their places. -/
structure FileTree where
  entries : List (Place × Entry)
  /-- Where paths begin that do not begin at the root. -/
  workplace : Place
  /-- The places ascend. -/
  ordered : Ordered.By Prod.fst entries
  /-- Every place has a last name, and all its names are names. -/
  named : ∀ place entry, (place, entry) ∈ entries →
    place ≠ [] ∧ ∀ name ∈ place, Path.isName name = true
  /-- Every place lies in a directory. -/
  rooted : ∀ place name entry, (place ++ [name], entry) ∈ entries →
    place = [] ∨ (place, .directory) ∈ entries

namespace FileTree

/-- A tree with a root, and no entries. -/
def empty : FileTree where
  entries := []
  workplace := []
  ordered := List.Pairwise.nil
  named := by simp
  rooted := by simp

/-- What is at a place.  The root is a directory. -/
def entry? (tree : FileTree) (place : Place) : Option Entry :=
  if place = [] then some .directory else (tree.entries.find? fun (p, _) ↦ p == place).map Prod.snd

/-- Whether there is a directory at a place. -/
def isDirectoryAt (tree : FileTree) (place : Place) : Bool :=
  place = [] || decide ((place, Entry.directory) ∈ tree.entries)

/-- The entries below a place, by their places seen from there. -/
def below (tree : FileTree) (place : Place) : List (Place × Entry) :=
  tree.entries.filterMap fun (p, entry) ↦
    if place <+: p ∧ p ≠ place then some (p.drop place.length, entry) else none

/-- The regular files and their contents. -/
def files (tree : FileTree) : List (Place × Bytes) :=
  tree.entries.filterMap fun
    | (p, .file bytes) => some (p, bytes)
    | _ => none

theorem isDirectoryAt_iff {tree : FileTree} {place : Place} :
    tree.isDirectoryAt place = true ↔ place = [] ∨ (place, .directory) ∈ tree.entries := by
  simp [isDirectoryAt]

theorem isName_of_isDirectoryAt {tree : FileTree} {place : Place}
    (h : tree.isDirectoryAt place = true) :
    ∀ name ∈ place, Path.isName name = true := by
  rcases isDirectoryAt_iff.1 h with rfl | hmem
  · simp
  · exact (tree.named _ _ hmem).2

/-- Puts an entry into the directory at a place.  Nothing happens if there is no directory, if the
name is none, or if the entry would take the place of a directory. -/
def put (tree : FileTree) (place : Place) (name : String) (entry : Entry) : FileTree :=
  if h : tree.isDirectoryAt place = true ∧ Path.isName name = true ∧
      tree.isDirectoryAt (place ++ [name]) = false then
    { tree with
      entries := Ordered.insert Prod.fst (place ++ [name], entry) tree.entries
      ordered := tree.ordered.insert _
      named := by
        intro p e hmem
        rcases (Ordered.mem_insert_iff tree.ordered).1 hmem with heq | ⟨hold, _⟩
        · obtain ⟨rfl, -⟩ := Prod.ext_iff.1 heq
          refine ⟨by simp, fun n hn ↦ ?_⟩
          rcases List.mem_append.1 hn with hn | hn
          · exact isName_of_isDirectoryAt h.1 n hn
          · exact List.mem_singleton.1 hn ▸ h.2.1
        · exact tree.named p e hold
      rooted := by
        have hfree : (place ++ [name], Entry.directory) ∉ tree.entries := fun hmem ↦ by
          simp [isDirectoryAt_iff.2 (.inr hmem)] at h
        have hkeep : ∀ p, p = [] ∨ (p, Entry.directory) ∈ tree.entries →
            p = [] ∨ (p, Entry.directory) ∈
              Ordered.insert Prod.fst (place ++ [name], entry) tree.entries := by
          refine fun p hp ↦ hp.imp_right fun hmem ↦
            (Ordered.mem_insert_iff tree.ordered).2 (.inr ⟨hmem, ?_⟩)
          intro heq
          simp only at heq
          exact hfree (heq ▸ hmem)
        intro p n e hmem
        rcases (Ordered.mem_insert_iff tree.ordered).1 hmem with heq | ⟨hold, _⟩
        · obtain ⟨rfl, -⟩ := List.append_inj' (Prod.ext_iff.1 heq).1 rfl
          exact hkeep _ (isDirectoryAt_iff.1 h.1)
        · exact hkeep _ (tree.rooted p n e hold) }
  else tree

end FileTree
end WaveMill
