import Mathlib.Data.List.Pairwise
import WaveMill.FileTree.Disk
import WaveMill.Proofs.Ordered
import WaveMill.Proofs.Path
import WaveMill.Proofs.Stateful

/-!
# A file that was written is read back

Writing and reading a file walk the same path, but not through the same tree and not for the same
purpose: the reader comes when the tree has changed.  The walk passes directories and links only,
and neither of them gives way to a file.  So the reader follows the steps of the writer up to the
very last one, where the writer saw a free name or a file, and where the new file is now.

## What is here

* `FileTree.entry?_eq_some_iff` and `FileTree.entry?_put` — what is at a place, also after a change.
* `FileTree.Turn` — what one step of a walk does, for every purpose.
* `FileTree.Spot.Honest` and `FileTree.truthful_walkLinks` — what a walk says about a place is so.
* `FileTree.KeepsWays`, `FileTree.Spot.Lands` and `FileTree.walk_changed` — the walk of the reader.
* `FileTree.walk_of_write` — a file is found where it was written.
* `FileTree.Writable` and `FileTree.read_of_write` — a path that a file can be written to gives back
  whatever is written to it.
-/

set_option autoImplicit false
namespace WaveMill

namespace FileTree

variable {tree changed : FileTree} {purpose : Purpose} {place target : Place} {name : String}
  {entry : Entry} {bytes : Bytes} {steps : List String} {spot : Spot} {path : String}

/-! ## What is at a place -/

theorem entry?_eq_some_iff :
    tree.entry? place = some entry ↔
      place = [] ∧ entry = .directory ∨ (place, entry) ∈ tree.entries := by
  unfold entry?
  split
  case isTrue hroot =>
    subst hroot
    constructor
    · intro h
      exact .inl ⟨rfl, (Option.some.inj h).symm⟩
    · rintro (⟨-, rfl⟩ | hmem)
      · rfl
      · exact absurd rfl (tree.named _ _ hmem).1
  case isFalse hroot =>
    rw [Option.map_eq_some_iff]
    constructor
    · rintro ⟨⟨p, e⟩, hfind, rfl⟩
      have hp : p = place := by simpa using List.find?_some hfind
      exact .inr (hp ▸ List.mem_of_find?_eq_some hfind)
    · rintro (⟨hplace, -⟩ | hmem)
      · exact absurd hplace hroot
      · generalize hfind : tree.entries.find? _ = result
        cases result with
        | none => exact absurd (beq_self_eq_true place) (List.find?_eq_none.1 hfind _ hmem)
        | some found =>
          have hp : found.1 = place := by simpa using List.find?_some hfind
          have hfound : found = (place, entry) :=
            tree.ordered.eq_of_key_eq (List.mem_of_find?_eq_some hfind) hmem hp
          exact ⟨found, rfl, congrArg Prod.snd hfound⟩

theorem entry?_eq_directory_iff :
    tree.entry? place = some .directory ↔ tree.isDirectoryAt place = true := by
  rw [entry?_eq_some_iff, isDirectoryAt_iff, and_iff_left rfl]

/-- Whatever is somewhere, is in a directory. -/
theorem isDirectoryAt_of_entry?_eq_some (h : tree.entry? (place ++ [name]) = some entry) :
    tree.isDirectoryAt place = true := by
  rcases entry?_eq_some_iff.1 h with ⟨hnil, -⟩ | hmem
  · exact absurd hnil (by simp)
  · exact isDirectoryAt_iff.2 (tree.rooted _ _ _ hmem)

theorem isDirectoryAt_dropLast (h : tree.isDirectoryAt place = true) :
    tree.isDirectoryAt place.dropLast = true := by
  rcases place.eq_nil_or_concat with rfl | ⟨above, name, rfl⟩
  · rfl
  · rw [List.concat_eq_append, List.dropLast_concat]
    rw [List.concat_eq_append] at h
    exact isDirectoryAt_of_entry?_eq_some (entry?_eq_directory_iff.2 h)

theorem entry?_put (hplace : tree.isDirectoryAt place = true) (hname : Path.isName name = true)
    (hfree : tree.isDirectoryAt (place ++ [name]) = false) (entry : Entry) (p : Place) :
    FileTree.entry? (tree.put place name entry) p =
      if p = place ++ [name] then some entry else tree.entry? p := by
  have hentries : (tree.put place name entry).entries =
      Ordered.insert Prod.fst (place ++ [name], entry) tree.entries := by
    rw [put, dif_pos ⟨hplace, hname, hfree⟩]
  refine Option.ext fun e ↦ ?_
  rw [entry?_eq_some_iff, hentries, Ordered.mem_insert_iff tree.ordered]
  split
  case isTrue hp =>
    subst hp
    constructor
    · rintro (⟨hnil, -⟩ | hsame | ⟨-, hne⟩)
      · exact absurd hnil (by simp)
      · exact congrArg some (Prod.ext_iff.1 hsame).2.symm
      · exact absurd rfl hne
    · intro h
      obtain rfl := Option.some.inj h
      exact .inr (.inl rfl)
  case isFalse hp =>
    rw [entry?_eq_some_iff]
    simp [hp]

theorem workplace_put (tree : FileTree) (place : Place) (name : String) (entry : Entry) :
    (tree.put place name entry).workplace = tree.workplace := by
  rw [put]
  split <;> rfl

/-! ## One step of a walk -/

/-- The step is a name that is not too long. -/
structure Passable (step : String) : Prop where
  idle : Path.isIdle step = false
  up : step ≠ ".."
  short : step.utf8ByteSize ≤ maxName

/-- What the first of some steps does in a walk that comes to a spot. -/
inductive Turn (tree : FileTree) (purpose : Purpose)
    (follow : Place → List String → Except DiskFault Spot) (place : Place) (step : String)
    (rest : List String) : Spot → Prop where
  | idle {spot : Spot} (hidle : Path.isIdle step = true)
      (h : walkBy tree purpose follow place rest = .ok spot) :
      Turn tree purpose follow place step rest spot
  | up {spot : Spot} (hidle : Path.isIdle step = false) (hup : step = "..")
      (h : walkBy tree purpose follow place.dropLast rest = .ok spot) :
      Turn tree purpose follow place step rest spot
  | enter {spot : Spot} (hstep : Passable step)
      (hentry : tree.entry? (place ++ [step]) = some .directory)
      (h : walkBy tree purpose follow (place ++ [step]) rest = .ok spot) :
      Turn tree purpose follow place step rest spot
  | follow {spot : Spot} {link : String} (hstep : Passable step)
      (hentry : tree.entry? (place ++ [step]) = some (.link link))
      (h : follow (origin place link) (Path.steps link ++ rest) = .ok spot) :
      Turn tree purpose follow place step rest spot
  /-- Unless a directory is to be made, that is to arrive at a file, not before the last step. -/
  | arrive {entry : Entry} (hstep : Passable step)
      (hentry : tree.entry? (place ++ [step]) = some entry)
      (hlast : purpose ≠ .make → rest = [] ∧ ∃ bytes, entry = .file bytes) :
      Turn tree purpose follow place step rest (.found (place ++ [step]) entry)
  | free (hstep : Passable step) (hentry : tree.entry? (place ++ [step]) = none)
      (hwrite : purpose = .write → rest = []) :
      Turn tree purpose follow place step rest (.free place step)

theorem turn_of_walkBy {follow : Place → List String → Except DiskFault Spot} {step : String}
    {rest : List String} (h : walkBy tree purpose follow place (step :: rest) = .ok spot) :
    Turn tree purpose follow place step rest spot := by
  -- the cases stand in the order in which the walk looks at the step
  rw [walkBy] at h
  split at h
  case isTrue hidle => exact .idle hidle h
  rename_i hidle
  rw [Bool.not_eq_true] at hidle
  split at h
  case isTrue hup => exact .up hidle hup h
  rename_i hup
  dsimp only at h
  split at h
  case isTrue => cases h
  rename_i hlast
  split at h
  case isTrue => cases h
  rename_i hlong
  have hstep : Passable step := ⟨hidle, hup, Nat.not_lt.1 hlong⟩
  have hwrite (hall : rest.all (· == "") = true) (hpurpose : purpose = .write) : rest = [] := by
    by_contra hrest
    exact hlast ⟨hall, hrest, hpurpose⟩
  split at h
  case h_1 hentry =>
    split at h
    case isTrue hall =>
      obtain rfl := Except.ok.inj h
      exact .free hstep hentry (hwrite hall)
    case isFalse => cases h
  case h_2 hentry => exact .enter hstep hentry h
  case h_3 bytes hentry =>
    split at h
    case isTrue hend =>
      obtain rfl := Except.ok.inj h
      refine .arrive hstep hentry fun hpurpose ↦ ⟨?_, bytes, rfl⟩
      exact hend.elim id fun hend ↦ absurd hend.2 hpurpose
    case isFalse => cases h
  case h_4 link hentry =>
    split at h
    case isTrue hend =>
      obtain rfl := Except.ok.inj h
      exact .arrive hstep hentry fun hpurpose ↦ absurd hend.2 hpurpose
    case isFalse => exact .follow hstep hentry h

/-- A step of a reader, where there is a name that is not too long. -/
theorem walkBy_look {follow : Place → List String → Except DiskFault Spot} {step : String}
    (hstep : Passable step) (rest : List String) :
    walkBy tree .look follow place (step :: rest) =
      match tree.entry? (place ++ [step]) with
      | none => if rest.all (· == "") then .ok (.free place step) else .error .noEntry
      | some .directory => walkBy tree .look follow (place ++ [step]) rest
      | some (.file bytes) =>
        if rest = [] then .ok (.found (place ++ [step]) (.file bytes)) else .error .notDirectory
      | some (.link link) => follow (origin place link) (Path.steps link ++ rest) := by
  rw [walkBy, if_neg (Bool.not_eq_true _ ▸ hstep.idle), if_neg hstep.up]
  have hlong := Nat.not_lt.2 hstep.short
  dsimp only
  rcases tree.entry? (place ++ [step]) with - | (- | - | -) <;> simp [hlong]

/-! ## What a walk says is so -/

/-- What the spot says about the tree is so. -/
inductive Spot.Honest (tree : FileTree) : Spot → Prop where
  | found {place : Place} {entry : Entry} (h : tree.entry? place = some entry) :
      Honest tree (.found place entry)
  | free {place : Place} {name : String} (hplace : tree.isDirectoryAt place = true)
      (hname : Path.isName name = true) (h : tree.entry? (place ++ [name]) = none) :
      Honest tree (.free place name)

/-- The steps are what can stand between the slashes of a path. -/
def Slashless (steps : List String) : Prop := ∀ step ∈ steps, '/' ∉ step.toList

theorem slashless_steps (path : String) : Slashless (Path.steps path) := by
  intro step hstep
  obtain ⟨part, hpart, rfl⟩ := List.mem_map.1 hstep
  rw [String.toList_ofList]
  exact Path.not_mem_of_mem_splitOn hpart

theorem isDirectoryAt_origin (h : tree.isDirectoryAt place = true) (path : String) :
    tree.isDirectoryAt (origin place path) = true := by
  rw [origin]
  split
  · rfl
  · exact h

/-- A way to go on behind a link that says only what is so. -/
def Truthful (tree : FileTree) (follow : Place → List String → Except DiskFault Spot) : Prop :=
  ∀ ⦃place steps spot⦄, tree.isDirectoryAt place = true → Slashless steps →
    follow place steps = .ok spot → spot.Honest tree

theorem truthful_walkBy {follow : Place → List String → Except DiskFault Spot}
    (hfollow : Truthful tree follow) : Truthful tree (walkBy tree purpose follow) := by
  intro place steps spot hplace hsteps h
  induction steps generalizing place with
  | nil =>
    obtain rfl := Except.ok.inj h
    exact .found (entry?_eq_directory_iff.2 hplace)
  | cons step rest ih =>
    have hrest : Slashless rest := fun s hs ↦ hsteps s (List.mem_cons_of_mem _ hs)
    cases turn_of_walkBy h with
    | idle _ h => exact ih hplace hrest h
    | up _ _ h => exact ih (isDirectoryAt_dropLast hplace) hrest h
    | enter _ hentry h => exact ih (entry?_eq_directory_iff.1 hentry) hrest h
    | follow _ _ h =>
      refine hfollow (isDirectoryAt_origin hplace _) (fun s hs ↦ ?_) h
      rcases List.mem_append.1 hs with hs | hs
      · exact slashless_steps _ s hs
      · exact hrest s hs
    | arrive _ hentry _ => exact .found hentry
    | free hstep hentry _ =>
      have hslash := hsteps step List.mem_cons_self
      refine .free hplace ?_ hentry
      simp [Path.isName, hstep.idle, hstep.up, hslash]

theorem truthful_walkLinks (tree : FileTree) (purpose : Purpose) (links : Nat) :
    Truthful tree (walkLinks tree purpose links) := by
  induction links with
  | zero => exact truthful_walkBy fun _ _ _ _ _ h ↦ nomatch h
  | succ links ih => exact truthful_walkBy ih

/-- A path that can be walked at all. -/
structure Walkable (path : String) : Prop where
  nul : '\x00' ∉ path.toList
  nonempty : path ≠ ""
  short : path.utf8ByteSize ≤ maxPath

theorem Walkable.walk_eq (h : Walkable path) (tree : FileTree) (purpose : Purpose) :
    tree.walk purpose path =
      walkLinks tree purpose maxLinks (origin tree.workplace path) (Path.steps path) := by
  rw [walk, if_neg (by simpa using h.nul), if_neg h.nonempty, if_neg (Nat.not_lt.2 h.short)]

theorem walkable_of_walk (h : tree.walk purpose path = .ok spot) : Walkable path := by
  rw [walk] at h
  split at h
  case isTrue => cases h
  rename_i hnul
  split at h
  case isTrue => cases h
  rename_i hempty
  split at h
  case isTrue => cases h
  rename_i hlong
  exact ⟨by simpa using hnul, hempty, Nat.not_lt.1 hlong⟩

/-- A path on which one walk comes to a spot is one that can be walked. -/
theorem walk_eq_walkLinks (h : tree.walk purpose path = .ok spot) (other : FileTree)
    (purpose' : Purpose) :
    other.walk purpose' path =
      walkLinks other purpose' maxLinks (origin other.workplace path) (Path.steps path) :=
  (walkable_of_walk h).walk_eq other purpose'

/-! ## The walk of the reader -/

/-- A file that is written at the spot lands at the place. -/
inductive Spot.Lands : Spot → Place → Prop where
  | free (place : Place) (name : String) : Lands (.free place name) (place ++ [name])
  | found (place : Place) (bytes : Bytes) : Lands (.found place (.file bytes)) place

/-- All directories and links of a tree are in another one too, so every way leads on as before. -/
structure KeepsWays (tree changed : FileTree) : Prop where
  directory : ∀ p, tree.entry? p = some .directory → changed.entry? p = some .directory
  link : ∀ p link, tree.entry? p = some (.link link) → changed.entry? p = some (.link link)

theorem KeepsWays.refl (tree : FileTree) : KeepsWays tree tree := ⟨fun _ h ↦ h, fun _ _ h ↦ h⟩

/-- A place to which files may come: there is no directory and no link. -/
def Yields (tree : FileTree) (place : Place) : Prop :=
  ∀ entry, tree.entry? place = some entry → ∃ bytes, entry = .file bytes

/-- If just one place has changed, and only files were there, then all ways are kept. -/
theorem Yields.keepsWays (h : tree.Yields target)
    (hchanged : ∀ p, changed.entry? p = if p = target then some entry else tree.entry? p) :
    KeepsWays tree changed := by
  constructor
  · intro p hp
    have hne : p ≠ target := by
      rintro rfl
      obtain ⟨_, h⟩ := h _ hp
      cases h
    rw [hchanged, if_neg hne, hp]
  · intro p link hp
    have hne : p ≠ target := by
      rintro rfl
      obtain ⟨_, h⟩ := h _ hp
      cases h
    rw [hchanged, if_neg hne, hp]

/-- Who comes in order to write sees a free name or a file, and who comes to look sees a file. -/
def Purpose.Sees (purpose : Purpose) (spot : Spot) : Prop :=
  purpose = .write ∨ purpose = .look ∧ ∃ place bytes, spot = .found place (.file bytes)

theorem walkBy_changed {follow follow' : Place → List String → Except DiskFault Spot}
    (hways : KeepsWays tree changed) (htarget : changed.entry? target = some (.file bytes))
    (hspot : spot.Lands target) (hsees : purpose.Sees spot)
    (hfollow : ∀ place steps, follow place steps = .ok spot →
      follow' place steps = .ok (.found target (.file bytes)))
    (h : walkBy tree purpose follow place steps = .ok spot) :
    walkBy changed .look follow' place steps = .ok (.found target (.file bytes)) := by
  induction steps generalizing place with
  | nil =>
    obtain rfl := Except.ok.inj h
    cases hspot
  | cons step rest ih =>
    cases turn_of_walkBy h with
    | idle hidle h =>
      rw [walkBy, if_pos hidle]
      exact ih h
    | up hidle hup h =>
      rw [walkBy, if_neg (Bool.not_eq_true _ ▸ hidle), if_pos hup]
      exact ih h
    | enter hstep hentry h =>
      rw [walkBy_look hstep, hways.directory _ hentry]
      exact ih h
    | follow hstep hentry h =>
      rw [walkBy_look hstep, hways.link _ _ hentry]
      exact hfollow _ _ h
    | arrive hstep hentry hlast =>
      have hpurpose : purpose ≠ .make := by
        rintro rfl
        rcases hsees with h | ⟨h, -⟩ <;> cases h
      obtain ⟨rfl, old, rfl⟩ := hlast hpurpose
      cases hspot
      rw [walkBy_look hstep, htarget]
      rfl
    | free hstep hentry hwrite =>
      rcases hsees with hpurpose | ⟨-, _, _, hfound⟩
      · obtain rfl := hwrite hpurpose
        cases hspot
        rw [walkBy_look hstep, htarget]
        rfl
      · cases hfound

theorem walkLinks_changed (hways : KeepsWays tree changed)
    (htarget : changed.entry? target = some (.file bytes)) (hspot : spot.Lands target)
    (hsees : purpose.Sees spot) (links : Nat)
    (h : walkLinks tree purpose links place steps = .ok spot) :
    walkLinks changed .look links place steps = .ok (.found target (.file bytes)) := by
  induction links generalizing place steps with
  | zero =>
    refine walkBy_changed hways htarget hspot hsees (fun _ _ h ↦ ?_) h
    cases h
  | succ links ih =>
    exact walkBy_changed hways htarget hspot hsees (fun _ _ ↦ ih) h

/-- **Where a file was or could be written, a reader finds the file that is there now**, as long as
all ways are kept. -/
theorem walk_changed (hways : KeepsWays tree changed)
    (hworkplace : changed.workplace = tree.workplace)
    (htarget : changed.entry? target = some (.file bytes)) (hspot : spot.Lands target)
    (hsees : purpose.Sees spot) (h : tree.walk purpose path = .ok spot) :
    changed.walk .look path = .ok (.found target (.file bytes)) := by
  have hlinks := (walk_eq_walkLinks h tree purpose).symm.trans h
  rw [walk_eq_walkLinks h, hworkplace]
  exact walkLinks_changed hways htarget hspot hsees maxLinks hlinks

/-! ## Writing and reading -/

/-- A path that a file can be written to: it begins in a directory, and the disk does not refuse. -/
def Writable (tree : FileTree) (path : String) : Prop :=
  tree.isDirectoryAt (origin tree.workplace path) = true ∧
    ∃ bytes, (disk.write path bytes tree).1 = .ok ()

/-- What comes after a look at the tree. -/
theorem run_get_bind {α : Type} (f : FileTree → Change α) (tree : FileTree) :
    (get >>= f).run tree = (f tree).run tree := rfl

theorem write_of_free {place : Place} {name : String}
    (h : tree.walk .write path = .ok (.free place name)) (bytes : Bytes) :
    disk.write path bytes tree = (.ok (), tree.put place name (.file bytes)) := by
  show (putFile path bytes).run tree = _
  rw [putFile, run_get_bind, h]
  rfl

theorem write_of_file {old : Bytes}
    (h : tree.walk .write path = .ok (.found (place ++ [name]) (.file old))) (bytes : Bytes) :
    disk.write path bytes tree = (.ok (), tree.put place name (.file bytes)) := by
  show (putFile path bytes).run tree = _
  rw [putFile, run_get_bind, h]
  simp only [List.getLast?_concat, List.dropLast_concat]
  rfl

/-- The disk refuses unless the path leads to a free name or to a file. -/
theorem lands_of_write (h : (disk.write path bytes tree).1 = .ok ()) :
    ∃ spot target, tree.walk .write path = .ok spot ∧ spot.Lands target := by
  change ((putFile path bytes).run tree).1 = _ at h
  rw [putFile, run_get_bind] at h
  rcases hwalk : tree.walk .write path with fault | (⟨place, old | - | link⟩ | ⟨place, name⟩)
  · rw [hwalk] at h
    cases h
  · exact ⟨_, _, rfl, .found place old⟩
  · rw [hwalk] at h
    cases h
  · rw [hwalk] at h
    cases h
  · exact ⟨_, _, rfl, .free place name⟩

/-- What is where a file lands lies in a directory, under a name that files may have. -/
theorem Spot.Lands.exists_concat (hlands : spot.Lands target) (hhonest : spot.Honest tree) :
    ∃ place name, target = place ++ [name] ∧ tree.isDirectoryAt place = true ∧
      Path.isName name = true ∧ tree.Yields target := by
  cases hlands with
  | free place name =>
    cases hhonest with
    | free hplace hname hentry =>
      exact ⟨place, name, rfl, hplace, hname, fun entry h ↦ nomatch hentry.symm.trans h⟩
  | found place old =>
    cases hhonest with
    | found hentry =>
      rcases target.eq_nil_or_concat with rfl | ⟨place, name, rfl⟩
      · cases hentry
      · rw [List.concat_eq_append] at hentry ⊢
        have hname : Path.isName name = true := by
          rcases entry?_eq_some_iff.1 hentry with ⟨-, h⟩ | hmem
          · cases h
          · exact (tree.named _ _ hmem).2 name (by simp)
        exact ⟨place, name, rfl, isDirectoryAt_of_entry?_eq_some hentry, hname,
          fun entry h ↦ ⟨old, Option.some.inj (h.symm.trans hentry)⟩⟩

theorem Yields.isDirectoryAt_eq_false (h : tree.Yields target) :
    tree.isDirectoryAt target = false := by
  rw [← Bool.not_eq_true, ← entry?_eq_directory_iff]
  intro hentry
  obtain ⟨_, h⟩ := h _ hentry
  cases h

theorem write_of_lands (hwalk : tree.walk .write path = .ok spot)
    (hlands : spot.Lands (place ++ [name])) (bytes : Bytes) :
    disk.write path bytes tree = (.ok (), tree.put place name (.file bytes)) := by
  generalize htarget : place ++ [name] = target at hlands
  cases hlands with
  | free place' name' =>
    obtain ⟨rfl, hname⟩ := List.append_inj' htarget rfl
    obtain rfl := List.singleton_inj.1 hname
    exact write_of_free hwalk bytes
  | found _ old =>
    rw [← htarget] at hwalk
    exact write_of_file hwalk bytes

/-- Where a file can be written that begins its way in a directory, it lies in a directory. -/
theorem exists_concat_of_walk (hbegin : tree.isDirectoryAt (origin tree.workplace path) = true)
    (hwalk : tree.walk .write path = .ok spot) (hlands : spot.Lands target) :
    ∃ place name, target = place ++ [name] ∧ tree.isDirectoryAt place = true ∧
      Path.isName name = true ∧ tree.Yields target := by
  have hlinks := (walk_eq_walkLinks hwalk tree .write).symm.trans hwalk
  exact hlands.exists_concat
    (truthful_walkLinks tree .write maxLinks hbegin (slashless_steps path) hlinks)

/-- Where a file was written, a reader finds it. -/
theorem walk_of_write (hbegin : tree.isDirectoryAt (origin tree.workplace path) = true)
    (hwalk : tree.walk .write path = .ok spot) (hlands : spot.Lands target) (bytes : Bytes) :
    (disk.write path bytes tree).2.walk .look path = .ok (.found target (.file bytes)) := by
  obtain ⟨place, name, rfl, hplace, hname, hyields⟩ := exists_concat_of_walk hbegin hwalk hlands
  rw [write_of_lands hwalk hlands]
  have hchanged := entry?_put hplace hname hyields.isDirectoryAt_eq_false (.file bytes)
  exact walk_changed (hyields.keepsWays hchanged) (workplace_put tree place name (.file bytes))
    (by rw [hchanged, if_pos rfl]) hlands (.inl rfl) hwalk

/-- **What is written to a path is read back from it.**  A path that a file of some contents can be
written to takes files of any contents, and gives each of them back. -/
theorem read_of_write (h : tree.Writable path) (bytes : Bytes) :
    (disk.write path bytes tree).1 = .ok () ∧
      (disk.read path (disk.write path bytes tree).2).1 = .ok bytes := by
  obtain ⟨hbegin, other, hother⟩ := h
  obtain ⟨spot, target, hwalk, hlands⟩ := lands_of_write hother
  constructor
  · obtain ⟨place, name, rfl, -⟩ := exists_concat_of_walk hbegin hwalk hlands
    rw [write_of_lands hwalk hlands]
  · show fileAt (disk.write path bytes tree).2 path = _
    rw [fileAt, walk_of_write hbegin hwalk hlands]
    rfl

end FileTree
end WaveMill
