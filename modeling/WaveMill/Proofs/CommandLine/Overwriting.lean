import WaveMill.Proofs.CommandLine.Complete
import WaveMill.Proofs.FileTree.Kept

/-!
# Which files a conversion overwrites

A conversion writes each file under its name in the output directory, in place of a file that may be
there.  Nothing keeps that directory apart from the inputs: the output directory may be one of them,
may lie in one of them or contain one, and it is the working directory unless it is said otherwise.
So a wave file that is converted into its own directory gives way to the converted one.  What can be
said is that no other file changes, whatever the paths look like: a file that has not the contents
any more that it had before is one that an output path leads to, and it has the contents that were
saved under this path.

## What is here

* `FileTree.SameFile` — two paths that lead to the same file.
* `CommandLine.recorded_convertFiles` — a conversion notes all the files that it writes.
* `CommandLine.exists_path_of_asset` — an asset is there because of a file that claims to be audio.
* `CommandLine.convertFiles_overwrites` — what becomes of the files that were there before.
-/

set_option autoImplicit false
namespace WaveMill

open Stateful

/-- Two paths that lead to the same place, where there is a file. -/
def FileTree.SameFile (tree : FileTree) (path other : String) : Prop :=
  ∃ place bytes, tree.walk .look path = .ok (.found place (.file bytes)) ∧
    tree.walk .look other = .ok (.found place (.file bytes))

/-! ## Saving notes what it writes -/

namespace Recorded

variable (directory : String)

theorem plan (plan : Plan) :
    Recorded (plan.run (Store.inDirectory FileTree.disk.traced directory)) := by
  cases plan with
  | refuse name output owner => exact .pure _
  | store name output wave =>
    cases wave with
    | error failure => exact .pure _
    | ok bytes =>
      refine .bind (.inDirectory directory output bytes) fun stored ↦ ?_
      cases stored with
      | error failure => exact .pure _
      | ok _ => exact .pure _

theorem saveAll (session : Session) (resample : Resampler) :
    Recorded (session.saveAll resample (Store.inDirectory FileTree.disk.traced directory)) := by
  have hplanAt (plans : List Plan) (k : Nat) :
      Recorded (Plan.runAt (Store.inDirectory FileTree.disk.traced directory) plans k) := by
    rw [Plan.runAt]
    cases plans[k]? with
    | none => exact .pure _
    | some plan => exact .bind (.plan directory plan) fun _ ↦ .pure _
  exact .bind (.bind (.mapM (hplanAt _) _) fun _ ↦ .pure _) fun _ ↦ .pure _

end Recorded

namespace CommandLine

theorem recorded_convertFiles (decode : Decoder) (inputs : List String) (output : String)
    (config : Config) :
    Recorded (convertFiles decode FileTree.disk.traced inputs output config) := by
  have hsources : Recorded (loadSources FileTree.disk.traced inputs) := fun written tree ↦
    ⟨[], by rw [loadSources_apply, List.append_nil], by
      rw [loadSources_apply]
      exact .refl tree []⟩
  refine .bind hsources fun loaded ↦ ?_
  cases Session.new (.new .timed) config with
  | error failure => exact .pure _
  | ok session => exact .bind (.saveAll output _ _) fun _ ↦ .pure _

/-! ## Where the output names come from -/

variable {tree : FileTree} {paths : List String} {decode : Decoder}

theorem exists_path_of_readable {file : Source}
    (h : file ∈ readable (paths.map fun path ↦ (path, tree.sourceAt path))) :
    ∃ path ∈ paths, ∃ bytes, file = .ofPath path bytes := by
  obtain ⟨⟨path, result⟩, hloaded, hfile⟩ := List.mem_filterMap.1 h
  obtain ⟨path, hpath, hpair⟩ := List.mem_map.1 hloaded
  cases hpair
  rw [FileTree.sourceAt] at hfile
  cases hread : tree.fileAt path with
  | error fault =>
    rw [hread] at hfile
    cases hfile
  | ok bytes =>
    rw [hread] at hfile
    cases hfile
    exact ⟨path, hpath, bytes, rfl⟩

/-- An asset goes by the last name of a path to audio. -/
theorem exists_path_of_asset {asset : Asset}
    (h : asset ∈ (Registry.empty.add decode
      (readable (paths.map fun path ↦ (path, tree.sourceAt path)))).2.assets) :
    ∃ path ∈ paths.filter claimsAudio, Path.fileName? path = some asset.name := by
  obtain ⟨file, hfile, haudio, hname⟩ := Registry.exists_file_of_asset h
  obtain ⟨path, hpath, bytes, rfl⟩ := exists_path_of_readable hfile
  rw [isAudio_ofPath] at haudio
  refine ⟨path, List.mem_filter.2 ⟨hpath, haudio⟩, ?_⟩
  rw [fileName?_of_claimsAudio haudio bytes, hname]

/-! ## What becomes of the files -/

/-- **A conversion overwrites what its output paths lead to, and nothing else**, whatever formats
the decoder knows.  Every output path is that of the last name of an input in the output directory.
Every file that was there before has its old contents, or else an output path leads to it in the
end, and it has the contents that were saved under this path. -/
theorem convertFiles_overwrites (decode : Decoder) (tree : FileTree) (inputs : List String)
    (output : String) {config : Config} (hvalid : config.validate = .ok ()) :
    ∃ report written tree',
      convertFiles decode FileTree.disk inputs output config tree = (.ok report, tree') ∧
      convertFiles decode FileTree.disk.traced inputs output config ([], tree) =
        (.ok report, written, tree') ∧
      (∀ file ∈ written, ∃ path ∈ (tree.collected inputs).filter claimsAudio, ∃ name,
        Path.fileName? path = some name ∧ file.1 = Path.join output (outputName name)) ∧
      ∀ path bytes, tree.fileAt path = .ok bytes →
        tree'.fileAt path = .ok bytes ∨
          ∃ file ∈ written, tree'.SameFile path file.1 ∧ tree'.fileAt path = .ok file.2 := by
  obtain ⟨session, results, written, tree', hrun, hregistry, -, hdelivered⟩ :=
    convertFiles_delivered tree inputs output decode hvalid
  have hplain := (noting_convertFiles decode FileTree.disk inputs output config).eq [] tree
  rw [hrun] at hplain
  refine ⟨_, written, tree', hplain, hrun, fun file hfile ↦ ?_, fun path bytes hread ↦ ?_⟩
  · obtain ⟨name, planned, hplan, hwhere⟩ := hdelivered.origin file hfile
    obtain ⟨asset, hasset, -, rfl, -⟩ := session.asset_of_store Resample.linear hplan
    rw [hregistry] at hasset
    obtain ⟨path, hpath, hname⟩ := exists_path_of_asset hasset
    have hslash := (Path.isName_iff.1 (Path.isName_of_fileName? hname)).2.2.2
    rw [Path.fileName?_of_isName (isName_outputName hslash), Option.map_some] at hwhere
    exact ⟨path, hpath, asset.name, hname, (Option.some.inj hwhere).symm⟩
  · obtain ⟨files, hfiles, hbecame⟩ := recorded_convertFiles decode inputs output config [] tree
    rw [hrun] at hfiles hbecame
    obtain rfl : written = files := hfiles
    obtain ⟨place, hwalk⟩ := FileTree.fileAt_eq_ok_iff.1 hread
    have hentry := (FileTree.seen_walk hwalk).entry?_of_file
    rcases hbecame.kept place bytes hentry with hsame | ⟨file, hfile, hlast⟩
    · exact .inl (FileTree.fileAt_eq_ok_iff.2 ⟨place, hbecame.walk_look hwalk hsame⟩)
    · have hnow := hbecame.walk_look hwalk (FileTree.seen_walk hlast).entry?_of_file
      exact .inr ⟨file, hfile, ⟨place, file.2, hnow, hlast⟩,
        FileTree.fileAt_eq_ok_iff.2 ⟨place, hnow⟩⟩

/-- A tree with a wave file of 16 bits, which has no samples. -/
def wideWave : FileTree :=
  (FileTree.empty.put [] "in" .directory).put ["in"] "x.wav"
    (.file ((Wave.file [] 1 8000 2).toOption.getD []))

/-- A wave file that is converted into its own directory is not there any more. -/
theorem convertFiles_intoInput :
    let outcome := convertFiles decodeAudio FileTree.disk ["in"] "in" ⟨8000, 1, .both⟩ wideWave
    outcome.1 = .ok
        { lines := ["Converted 1 file(s) to in", "  x.wav"]
          complete := true } ∧
      wideWave.collected ["in"] = ["in/x.wav"] ∧
      wideWave.fileAt "in/x.wav" = .ok ((Wave.file [] 1 8000 2).toOption.getD []) ∧
      outcome.2.fileAt "in/x.wav" = .ok ((Wave.file [] 1 8000 1).toOption.getD []) ∧
      outcome.2.fileAt "in/x.wav" ≠ wideWave.fileAt "in/x.wav" := by
  decide +kernel

theorem convertFiles_overwrites_input :
    ∃ (written : List (String × Bytes)) (tree' : FileTree),
      convertFiles decodeAudio FileTree.disk ["in"] "in" ⟨8000, 1, .both⟩ wideWave =
        (.ok ⟨["Converted 1 file(s) to in", "  x.wav"], true⟩, tree') ∧
      ∃ file ∈ written, file.1 = Path.join "in" "x.wav" ∧ tree'.SameFile "in/x.wav" file.1 ∧
        tree'.fileAt "in/x.wav" = .ok file.2 := by
  have hvalid : Config.validate ⟨8000, 1, .both⟩ = .ok () := by decide
  obtain ⟨report, written, tree', hplain, -, hnames, hfiles⟩ :=
    convertFiles_overwrites decodeAudio wideWave ["in"] "in" hvalid
  have hrun :
      let outcome := convertFiles decodeAudio FileTree.disk ["in"] "in" ⟨8000, 1, .both⟩ wideWave
      outcome.1 = .ok ⟨["Converted 1 file(s) to in", "  x.wav"], true⟩ ∧
      outcome.2.fileAt "in/x.wav" ≠ .ok ((Wave.file [] 1 8000 2).toOption.getD []) := by
    decide +kernel
  have hread : wideWave.fileAt "in/x.wav" =
      .ok ((Wave.file [] 1 8000 2).toOption.getD []) := by
    decide +kernel
  have haudio : (wideWave.collected ["in"]).filter claimsAudio = ["in/x.wav"] := by
    decide +kernel
  rw [hplain] at hrun
  obtain ⟨file, hfile, hsame, hnow⟩ := (hfiles _ _ hread).resolve_left hrun.2
  obtain ⟨path, hpath, name, hname, hwhere⟩ := hnames file hfile
  rw [haudio, List.mem_singleton] at hpath
  subst hpath
  have hx : Path.fileName? "in/x.wav" = some "x.wav" := by decide +kernel
  obtain rfl := Option.some.inj (hx.symm.trans hname)
  exact ⟨written, tree', hplain.trans (congrArg (·, tree') hrun.1), file, hfile, hwhere, hsame,
    hnow⟩

end CommandLine
end WaveMill
