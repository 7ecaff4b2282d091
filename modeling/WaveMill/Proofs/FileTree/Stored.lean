import WaveMill.Proofs.FileTree.Kept

/-!
# Storing in a directory goes nowhere else

An output name can be any text: it can begin at the root, go up, or end in slashes.  A store that
writes into a directory takes the last name of it only, and refuses a text that has none before it
touches the disk.  So a file comes to a place right below the one that the path of the directory
leads to.  The argument follows the walk of the writer: before the last step there is a name still
to come, so all steps up to there are those of a reader who looks for the directory.  What can lead
on from there is only a link that has the name of the file already.

## What is here

* `FileTree.LeadsTo` — the place of the directory that a path leads to.
* `FileTree.walk_join` — whoever writes to a path that is continued by a name passes through the
  directory that the path leads to.
* `FileTree.stored_of_write` — what has been written then, and where.
* `Store.inDirectory_confined` — all that storing a file in a directory can come to.
-/

set_option autoImplicit false
namespace WaveMill

namespace FileTree

variable {tree : FileTree} {place target : Place} {name directory : String} {bytes : Bytes}
  {spot : Spot} {path : String}

/-! ## The way to the directory -/

/-- The path leads to a directory at the place.  An empty path leads to where paths begin. -/
def LeadsTo (tree : FileTree) (path : String) (place : Place) : Prop :=
  path = "" ∧ place = tree.workplace ∨ tree.walk .look path = .ok (.found place .directory)

/-- The target is the name in the directory at the place, unless there is a link of this name, which
can lead anywhere. -/
def Reaches (tree : FileTree) (place : Place) (name : String) (target : Place) : Prop :=
  target = place ++ [name] ∨ ∃ link, tree.entry? (place ++ [name]) = some (.link link)

variable {base idle : List String}

/-- Up to the last step, a writer goes as a reader does who stops there. -/
theorem walkBy_concat {follow follow' : Place → List String → Except DiskFault Spot}
    (hname : Path.isName name = true) (hidle : idle = [] ∨ idle = [""])
    (hlands : spot.Lands target)
    (hfollow : ∀ place base, follow place (base ++ [name]) = .ok spot →
      ∃ above, follow' place (base ++ idle) = .ok (.found above .directory) ∧
        tree.Reaches above name target)
    (h : walkBy tree .write follow place (base ++ [name]) = .ok spot) :
    ∃ above, walkBy tree .look follow' place (base ++ idle) = .ok (.found above .directory) ∧
      tree.Reaches above name target := by
  induction base generalizing place with
  | nil =>
    have hstop : walkBy tree .look follow' place ([] ++ idle) = .ok (.found place .directory) := by
      rcases hidle with rfl | rfl <;> rfl
    refine ⟨place, hstop, ?_⟩
    obtain ⟨hempty, hdot, hup, -⟩ := Path.isName_iff.1 hname
    cases turn_of_walkBy h with
    | idle hidle _ => simp [Path.isIdle, hempty, hdot] at hidle
    | up _ hparent _ => exact absurd hparent hup
    | enter _ _ h =>
      obtain rfl := Except.ok.inj h
      cases hlands
    | follow _ hentry _ => exact .inr ⟨_, hentry⟩
    | arrive _ _ _ =>
      cases hlands
      exact .inl rfl
    | free _ _ _ =>
      cases hlands
      exact .inl rfl
  | cons step rest ih =>
    have hmore : rest ++ [name] ≠ [] := List.concat_ne_nil name rest
    cases turn_of_walkBy h with
    | idle hstep h =>
      rw [List.cons_append, walkBy, if_pos hstep]
      exact ih h
    | up hstep hup h =>
      rw [List.cons_append, walkBy, if_neg (Bool.not_eq_true _ ▸ hstep), if_pos hup]
      exact ih h
    | enter hstep hentry h =>
      rw [List.cons_append, walkBy_look hstep, hentry]
      exact ih h
    | follow hstep hentry h =>
      rw [List.cons_append, walkBy_look hstep, hentry]
      have hbehind := hfollow _ _ ((congrArg _ (List.append_assoc ..)).trans h)
      rwa [List.append_assoc] at hbehind
    | arrive _ _ hlast => exact absurd (hlast (by decide)).1 hmore
    | free _ _ hlast => exact absurd (hlast rfl) hmore

theorem walkLinks_concat (hname : Path.isName name = true) (hidle : idle = [] ∨ idle = [""])
    (hlands : spot.Lands target) (links : Nat)
    (h : walkLinks tree .write links place (base ++ [name]) = .ok spot) :
    ∃ above, walkLinks tree .look links place (base ++ idle) = .ok (.found above .directory) ∧
      tree.Reaches above name target := by
  induction links generalizing place base with
  | zero =>
    refine walkBy_concat hname hidle hlands (fun _ _ h ↦ ?_) h
    cases h
  | succ links ih => exact walkBy_concat hname hidle hlands (fun _ _ ↦ ih) h

/-- A path can be walked if it can be walked when it is continued. -/
theorem Walkable.of_join (h : Walkable (Path.join path name)) (hpath : path ≠ "") :
    Walkable path := by
  obtain ⟨rest, hrest⟩ : ∃ rest, Path.join path name = path ++ rest := by
    rw [Path.join]
    split
    · exact ⟨name, rfl⟩
    · exact ⟨"/" ++ name, String.append_assoc ..⟩
  rw [hrest] at h
  refine ⟨fun hnul ↦ h.nul ?_, hpath, Nat.le_trans ?_ h.short⟩
  · rw [String.toList_append]
    exact List.mem_append_left _ hnul
  · rw [String.utf8ByteSize_append]
    exact Nat.le_add_right _ _

theorem origin_join (hname : Path.isName name = true) (place : Place) (path : String) :
    origin place (Path.join path name) = origin place path := by
  rw [origin, origin, Path.isAbsolute_join (Path.isName_iff.1 hname).2.2.2]

/-- Whoever writes to a path that is continued by a name passes through the directory that the path
leads to. -/
theorem walk_join (hname : Path.isName name = true) (hlands : spot.Lands target)
    (h : tree.walk .write (Path.join path name) = .ok spot) :
    ∃ place, tree.LeadsTo path place ∧ tree.Reaches place name target := by
  have hwalkable := walkable_of_walk h
  obtain ⟨base, hsteps, hbase⟩ := Path.steps_join (Path.isName_iff.1 hname).2.2.2 path
  rw [hwalkable.walk_eq, origin_join hname, hsteps] at h
  obtain ⟨idle, hidle, hpath⟩ : ∃ idle, (idle = [] ∨ idle = [""]) ∧
      Path.steps path = base ++ idle := by
    rcases hbase with hsame | hslash
    · exact ⟨[], .inl rfl, by rw [hsame, List.append_nil]⟩
    · exact ⟨[""], .inr rfl, hslash⟩
  obtain ⟨place, hlook, hreaches⟩ := walkLinks_concat hname hidle hlands maxLinks h
  rw [← hpath] at hlook
  refine ⟨place, ?_, hreaches⟩
  by_cases hempty : path = ""
  · subst hempty
    cases hlook
    exact .inl ⟨rfl, rfl⟩
  · right
    rwa [(hwalkable.of_join hempty).walk_eq]

/-! ## What is written -/

/-- **A file that is written under a name in a directory is there**, and all else is as it was. -/
theorem stored_of_write (hname : Path.isName name = true)
    (h : (disk.write (Path.join directory name) bytes tree).1 = .ok ()) :
    ∃ place target, tree.LeadsTo directory place ∧ tree.Reaches place name target ∧
      (∀ p, p ≠ target →
        FileTree.entry? (disk.write (Path.join directory name) bytes tree).2 p = tree.entry? p) ∧
      (tree.isDirectoryAt (origin tree.workplace directory) = true →
        (disk.write (Path.join directory name) bytes tree).2.walk .look
          (Path.join directory name) = .ok (.found target (.file bytes))) := by
  obtain ⟨spot, target, hwalk, hlands⟩ := lands_of_write h
  obtain ⟨place, hleads, hreaches⟩ := walk_join hname hlands hwalk
  refine ⟨place, target, hleads, hreaches, fun p hp ↦ ?_, fun hbegin ↦ ?_⟩
  · obtain ⟨above, last, rfl⟩ := (seen_walk hwalk).exists_concat hlands
    rw [write_of_lands hwalk hlands]
    rcases put_eq_or_changed tree above last (.file bytes) with hsame | hchanged
    · rw [hsame]
    · rw [hchanged, if_neg hp]
  · exact walk_of_write (by rwa [origin_join hname]) hwalk hlands bytes

end FileTree

/-- A file that has a name is stored, or something on the disk is in the way.  Then there may be new
directories, and nothing else has changed. -/
theorem Store.inDirectory_of_fileName? {output name : String}
    (hname : Path.fileName? output = some name) (tree : FileTree) (directory : String)
    (bytes : Bytes) :
    let run := Store.inDirectory FileTree.disk directory output bytes tree
    let made := (FileTree.disk.makeDirectories directory tree).2
    (∃ fault, run = (.error (.persist output (.disk fault)), made)) ∨
      (FileTree.disk.write (Path.join directory name) bytes made).1 = .ok () ∧
        run = (.ok (), (FileTree.disk.write (Path.join directory name) bytes made).2) := by
  rw [Store.inDirectory_apply hname]
  rcases FileTree.disk.makeDirectories directory tree with ⟨fault | -, made⟩
  · exact .inl ⟨fault, rfl⟩
  dsimp only
  rcases hwrite : FileTree.disk.write (Path.join directory name) bytes made with ⟨fault | -, after⟩
  · have hsame := FileTree.write_of_error (congrArg Prod.fst hwrite)
    rw [hwrite] at hsame
    exact .inl ⟨fault, congrArg _ hsame⟩
  · exact .inr ⟨rfl, rfl⟩

/-- **Whatever the output name is, nothing is written outside of the directory.**  A name without a
last component is refused, and nothing happens at all.  Of any other name the last component is
used, which is an ordinary name: all that can happen is that the directory is made, and that the
file comes to it under this name, or to where a link of this name leads that was there before.  It
has the given contents then, as long as the path of the directory does not begin in a working
directory that is gone. -/
theorem Store.inDirectory_confined (tree : FileTree) (directory output : String) (bytes : Bytes) :
    let run := Store.inDirectory FileTree.disk directory output bytes tree
    let made := (FileTree.disk.makeDirectories directory tree).2
    (∀ name, ¬ Path.EndsIn output name) ∧
        run = (.error (.persist output .notAFileName), tree) ∨
      ∃ name, Path.EndsIn output name ∧ name ≠ "" ∧ name ≠ "." ∧ name ≠ ".." ∧
        '/' ∉ name.toList ∧ tree.Grown made ∧
        ((∃ fault, run = (.error (.persist output (.disk fault)), made)) ∨
          run = (.ok (), (FileTree.disk.write (Path.join directory name) bytes made).2) ∧
            ∃ place target, made.LeadsTo directory place ∧ made.Reaches place name target ∧
              (∀ p, p ≠ target → FileTree.entry? run.2 p = made.entry? p) ∧
              (tree.isDirectoryAt (FileTree.origin tree.workplace directory) = true →
                FileTree.entry? run.2 target = some (.file bytes) ∧
                  run.2.fileAt (Path.join directory name) = .ok bytes)) := by
  intro run made
  cases hname : Path.fileName? output with
  | none =>
    refine .inl ⟨fun name hends ↦ ?_, ?_⟩
    · exact nomatch hname.symm.trans (Path.fileName?_eq_some_iff.2 hends)
    · simp only [run, Store.inDirectory, hname]
      rfl
  | some name =>
    have hisName := Path.isName_of_fileName? hname
    obtain ⟨hempty, hdot, hup, hslash⟩ := Path.isName_iff.1 hisName
    have hgrown : tree.Grown made := FileTree.grown_makeDirectories directory tree
    refine .inr ⟨name, Path.fileName?_eq_some_iff.1 hname, hempty, hdot, hup, hslash, hgrown, ?_⟩
    refine (Store.inDirectory_of_fileName? hname tree directory bytes).imp_right ?_
    rintro ⟨hwrite, hrun : run = _⟩
    obtain ⟨place, target, hleads, hreaches, helse, hfound⟩ :=
      FileTree.stored_of_write hisName hwrite
    rw [hrun]
    refine ⟨rfl, place, target, hleads, hreaches, helse, fun hbegin ↦ ?_⟩
    rw [← FileTree.entry?_eq_directory_iff, ← hgrown.workplace] at hbegin
    have hlook := hfound (FileTree.entry?_eq_directory_iff.1 (hgrown.kept hbegin))
    exact ⟨(FileTree.seen_walk hlook).entry?_of_file, FileTree.fileAt_eq_ok_iff.2 ⟨target, hlook⟩⟩

/-- A name that goes up, and ends in a slash and a dot, is stored below the directory. -/
theorem Store.inDirectory_confined_upwards :
    let run := Store.inDirectory FileTree.disk "out" "../escape.wav/." [7, 9] FileTree.empty
    run.1 = .ok () ∧ run.2.fileAt "out/escape.wav" = .ok [7, 9] := by
  have hname : Path.fileName? "../escape.wav/." = some "escape.wav" := by decide
  rcases Store.inDirectory_confined FileTree.empty "out" "../escape.wav/." [7, 9] with
    ⟨hnone, -⟩ | ⟨name, hends, -, -, -, -, -, ⟨fault, hrun⟩ | ⟨hrun, _, _, -, -, -, hfound⟩⟩
  · exact absurd (Path.fileName?_eq_some_iff.1 hname) (hnone _)
  · have hok : (Store.inDirectory FileTree.disk "out" "../escape.wav/." [7, 9]
      FileTree.empty).1.isOk = true := by decide +kernel
    rw [hrun] at hok
    cases hok
  · obtain rfl := Option.some.inj (hname.symm.trans (Path.fileName?_eq_some_iff.2 hends))
    exact ⟨congrArg Prod.fst hrun, (hfound rfl).2⟩

end WaveMill
