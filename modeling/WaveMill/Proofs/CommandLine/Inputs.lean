import WaveMill.CommandLine.Inputs
import WaveMill.Proofs.FileTree.Below
import WaveMill.Proofs.Path.Components

/-!
# What the inputs of a command stand for

A directory is walked through in whatever order the disk has its entries.  What a command works on
is in an order of its own, that of the components of the paths.  It is not the order of the texts,
and not the one in which a walk comes to the files either: a walk that comes to `a-b` before `a`
comes to all that is in `a` too late.  The components of a path below a directory are those of the
directory and one for each name, so different files below one directory are never at the same place
in the order.  Hence the walk leaves no trace in what it is sorted to.

## What is here

* `FileTree.StandsFor` — the paths that an input stands for; `FileTree.StandsFor.unique` — there is
  one way only to put them.
* `FileTree.ShownBy` — a disk that shows a tree, and walks through its directories in some order.
* `CommandLine.collectInputs_blocks` — the files that some inputs stand for, input by input.
* `CommandLine.collectInputs_congr` — the same, whatever the order of the walks.
-/

set_option autoImplicit false
namespace WaveMill

open Stateful

namespace FileTree

variable {tree : FileTree} {input : String} {place : Place} {names : List String}
  {seen : List (Place × Entry)} {block other : List String}

/-- The paths of the files that an input stands for.  They are all different, as no two of them have
the same components. -/
inductive StandsFor (tree : FileTree) (input : String) : List String → Prop where
  /-- What is no directory stands for itself, whether anything is there or not. -/
  | itself (h : tree.isDirectory input = false) : StandsFor tree input [input]
  /-- A directory stands for all regular files that can be reached through real directories, in the
  order of their components. -/
  | below {place : Place} {found : List (List String)}
      (hplace : tree.walk .look input = .ok (.found place .directory))
      (hall : ∀ names, names ∈ found ↔ ∃ bytes, tree.Below place names (.file bytes))
      (hascend : (found.map (Path.below input)).Pairwise fun p q ↦
        Path.components p < Path.components q) :
      StandsFor tree input (found.map (Path.below input))

/-- What is below a directory can be told by its path. -/
theorem eq_of_components_below {other : List String} {entry entry' : Entry}
    (h : tree.Below place names entry) (h' : tree.Below place other entry')
    (heq : Path.components (Path.below input names) = Path.components (Path.below input other)) :
    names = other := by
  rw [Path.components_below h.isName h.ne_nil, Path.components_below h'.isName h'.ne_nil,
    List.append_cancel_left_eq] at heq
  exact List.map_injective_iff.2 (fun _ _ ↦ Path.Component.name.inj) heq

theorem isDirectory_iff : tree.isDirectory input = true ↔
    ∃ place, tree.walk .look input = .ok (.found place .directory) := by
  rw [isDirectory]
  split
  · rename_i place hplace
    exact iff_of_true rfl ⟨place, hplace⟩
  · rename_i hnone
    exact iff_of_false Bool.false_ne_true fun ⟨place, hplace⟩ ↦ hnone place hplace

theorem walk_ne_of_not_isDirectory (h : tree.isDirectory input = false) :
    tree.walk .look input ≠ .ok (.found place .directory) := fun hplace ↦
  Bool.false_ne_true (h.symm.trans (isDirectory_iff.2 ⟨place, hplace⟩))

/-- An input stands for the same paths in the same order, however they were found. -/
theorem StandsFor.unique (h : tree.StandsFor input block) (h' : tree.StandsFor input other) :
    block = other := by
  cases h with
  | itself h =>
    cases h' with
    | itself => rfl
    | below hplace _ _ => exact absurd hplace (walk_ne_of_not_isDirectory h)
  | below hplace hall hascend =>
    cases h' with
    | itself h => exact absurd hplace (walk_ne_of_not_isDirectory h)
    | below hplace' hall' hascend' =>
      obtain ⟨rfl, -⟩ := Spot.found.inj (Except.ok.inj (hplace.symm.trans hplace'))
      refine Ordered.By.ext hascend hascend' fun path ↦ ?_
      simp only [List.mem_map, hall, hall']

/-! ## Sorting what a walk came to -/

/-- The files among what a walk came to. -/
def filesAmong (seen : List (Place × Entry)) : List Place :=
  (seen.filter fun found ↦ found.2.isFile).map Prod.fst

theorem mem_filesAmong : names ∈ filesAmong seen ↔ ∃ bytes, (names, .file bytes) ∈ seen := by
  rw [filesAmong, List.mem_map]
  constructor
  · rintro ⟨⟨names, entry⟩, hmem, rfl⟩
    obtain ⟨hseen, hfile⟩ := List.mem_filter.1 hmem
    cases entry with
    | file bytes => exact ⟨bytes, hseen⟩
    | directory => cases hfile
    | link target => cases hfile
  · rintro ⟨bytes, hseen⟩
    exact ⟨_, List.mem_filter.2 ⟨hseen, rfl⟩, rfl⟩

theorem regularFiles_sightings (input : String) (seen : List (Place × Entry)) :
    CommandLine.regularFiles (seen.map (sighting input)) =
      Ordered.sort Path.components ((filesAmong seen).map (Path.below input)) := by
  rw [CommandLine.regularFiles, List.filter_map, filesAmong, List.map_map, List.map_map]
  rfl

/-- **What a walk through a directory came to is sorted to what the directory stands for.** -/
theorem standsFor_of_walked (hplace : tree.walk .look input = .ok (.found place .directory))
    (h : tree.Walked place seen) :
    tree.StandsFor input (CommandLine.regularFiles (seen.map (sighting input))) := by
  have hmem (names : List String) :
      names ∈ filesAmong seen ↔ ∃ bytes, tree.Below place names (.file bytes) := by
    simp only [mem_filesAmong, h.mem_iff]
  have hnodup : (filesAmong seen).Nodup :=
    List.Nodup.sublist ((List.filter_sublist ..).map _) h.nodup
  have hkeys : ((filesAmong seen).map fun names ↦
      Path.components (Path.below input names)).Nodup := by
    refine hnodup.map_on fun names hnames other hother heq ↦ ?_
    obtain ⟨_, hbelow⟩ := (hmem names).1 hnames
    obtain ⟨_, hbelow'⟩ := (hmem other).1 hother
    exact eq_of_components_below hbelow hbelow' heq
  rw [regularFiles_sightings, Ordered.sort_map]
  refine .below hplace (fun names ↦ ?_) (List.pairwise_map.2 (Ordered.by_sort hkeys))
  rw [(Ordered.perm_sort _ _).mem_iff, hmem]

/-! ## Disks -/

/-- A disk shows a tree, and looking at it changes nothing.  The order in which it walks through a
directory is its own. -/
structure ShownBy {σ : Type} (tree : FileTree) (disk : Disk (StateM σ)) (s : σ) : Prop where
  isDirectory : ∀ path, disk.isDirectory path s = (tree.isDirectory path, s)
  walk : ∀ path place, tree.walk .look path = .ok (.found place .directory) →
    ∃ seen, tree.Walked place seen ∧ disk.walk path s = (seen.map (sighting path), s)

/-- A file tree shows itself. -/
theorem shownBy_disk (tree : FileTree) : tree.ShownBy disk tree where
  isDirectory _ := rfl
  walk path place h := by
    refine ⟨tree.below place, tree.walked_below place, ?_⟩
    have hwalk : disk.walk path tree = (tree.sightings path, tree) := rfl
    rw [hwalk, sightings, h]

end FileTree

namespace CommandLine

variable {σ : Type} {tree : FileTree} {disk : Disk (StateM σ)} {s : σ}

theorem exists_expandInput (h : tree.ShownBy disk s) (input : String) :
    ∃ block, expandInput disk input s = (block, s) ∧ tree.StandsFor input block := by
  rw [expandInput, bind_apply, h.isDirectory]
  cases hdirectory : tree.isDirectory input with
  | false => exact ⟨[input], rfl, .itself hdirectory⟩
  | true =>
    obtain ⟨place, hplace⟩ := FileTree.isDirectory_iff.1 hdirectory
    obtain ⟨seen, hseen, hwalk⟩ := h.walk input place hplace
    refine ⟨_, ?_, FileTree.standsFor_of_walked hplace hseen⟩
    rw [if_pos rfl, bind_apply, hwalk, pure_apply]

/-- Each input is replaced by what it stands for. -/
theorem collectInputs_apply_of_unchanged {g : String → List String}
    (h : ∀ input, expandInput disk input s = (g input, s)) (inputs : List String) :
    collectInputs disk inputs s = ((inputs.map g).flatten, s) := by
  rw [collectInputs, bind_apply, mapM_apply_of_unchanged h, pure_apply]

/-- **The files are those that the inputs stand for, one input after the other.** -/
theorem collectInputs_blocks (h : tree.ShownBy disk s) (inputs : List String) :
    ∃ blocks, collectInputs disk inputs s = (blocks.flatten, s) ∧
      List.Forall₂ tree.StandsFor inputs blocks := by
  choose g hexpand hg using exists_expandInput h
  refine ⟨inputs.map g, collectInputs_apply_of_unchanged hexpand inputs, ?_⟩
  rw [List.forall₂_map_right_iff, List.forall₂_same]
  exact fun input _ ↦ hg input

/-- A tree in which the name of a directory begins the names of two files.  There are links in it,
and a link to it. -/
def nested : FileTree :=
  let root := FileTree.empty.put [] "in" .directory
  let siblings := (root.put ["in"] "a-b" (.file [])).put ["in"] "a.wav" (.file [])
  let inside := (siblings.put ["in"] "a" .directory).put ["in", "a"] "x.wav" (.file [])
  let links := (inside.put ["in"] "back" (.link "..")).put ["in", "a"] "y.wav" (.link "x.wav")
  links.put [] "alias" (.link "in/a")

/-- A walk through it that comes to the names in no order. -/
def disorderly : List (Place × Entry) :=
  [(["a.wav"], .file []), (["back"], .link ".."), (["a"], .directory),
    (["a", "y.wav"], .link "x.wav"), (["a", "x.wav"], .file []), (["a-b"], .file [])]

/-- A disk that walks through one directory like this. -/
def roaming : Disk (StateM FileTree) :=
  { FileTree.disk with
    walk := fun path ↦
      if path = "in" then return disorderly.map (FileTree.sighting "in")
      else FileTree.disk.walk path }

theorem walked_disorderly : nested.Walked ["in"] disorderly := by
  have hlists : nested.Lists ["in"] ["a.wav", "back", "a", "a-b"] :=
    FileTree.lists_of_perm (by decide +kernel)
  have hinside : nested.Lists ["in", "a"] ["y.wav", "x.wav"] :=
    FileTree.lists_of_perm (by decide +kernel)
  have hdeeper : nested.Walks ["in", "a"] ["y.wav", "x.wav"]
      [(["y.wav"], .link "x.wav"), (["x.wav"], .file [])] :=
    .pass (by decide +kernel) (by decide) (.pass (by decide +kernel) (by decide) .done)
  have hlast : nested.Walks ["in"] ["a-b"] [(["a-b"], .file [])] :=
    .pass (by decide +kernel) (by decide) .done
  exact ⟨_, hlists, .pass (by decide +kernel) (by decide) (.pass (by decide +kernel) (by decide)
    (.enter (by decide +kernel) hinside hdeeper hlast))⟩

theorem shownBy_roaming : nested.ShownBy roaming nested where
  isDirectory _ := rfl
  walk path place h := by
    by_cases hpath : path = "in"
    · subst hpath
      have hplace : nested.walk .look "in" = .ok (.found ["in"] .directory) := by decide +kernel
      obtain ⟨rfl, -⟩ := FileTree.Spot.found.inj (Except.ok.inj (hplace.symm.trans h))
      exact ⟨disorderly, walked_disorderly, rfl⟩
    · have hwalk : roaming.walk path = FileTree.disk.walk path := if_neg hpath
      rw [hwalk]
      exact nested.shownBy_disk.walk path place h

theorem collectInputs_blocks_nested :
    nested.ShownBy roaming nested ∧ ∃ blocks,
      collectInputs roaming ["in", "gone", "alias", "in"] nested = (blocks.flatten, nested) ∧
      List.Forall₂ nested.StandsFor ["in", "gone", "alias", "in"] blocks ∧
      blocks.flatten = ["in/a/x.wav", "in/a-b", "in/a.wav", "gone", "alias/x.wav",
        "in/a/x.wav", "in/a-b", "in/a.wav"] := by
  obtain ⟨blocks, hrun, hblocks⟩ :=
    collectInputs_blocks shownBy_roaming ["in", "gone", "alias", "in"]
  have hfiles : (collectInputs roaming ["in", "gone", "alias", "in"] nested).1 =
      ["in/a/x.wav", "in/a-b", "in/a.wav", "gone", "alias/x.wav",
        "in/a/x.wav", "in/a-b", "in/a.wav"] := by
    decide +kernel
  rw [hrun] at hfiles
  exact ⟨shownBy_roaming, blocks, hrun, hblocks, hfiles⟩

/-- Two disks that show the same tree agree on the files that some inputs stand for, even if they do
not walk through the directories in the same order. -/
theorem collectInputs_congr {τ : Type} {disk' : Disk (StateM τ)} {t : τ} (h : tree.ShownBy disk s)
    (h' : tree.ShownBy disk' t) (inputs : List String) :
    (collectInputs disk inputs s).1 = (collectInputs disk' inputs t).1 := by
  choose g hexpand hg using exists_expandInput h
  choose g' hexpand' hg' using exists_expandInput h'
  obtain rfl : g = g' := funext fun input ↦ (hg input).unique (hg' input)
  rw [collectInputs_apply_of_unchanged hexpand, collectInputs_apply_of_unchanged hexpand']

end CommandLine
end WaveMill
