import WaveMill.CommandLine.Commands
import WaveMill.Proofs.Registry.Batch
import WaveMill.Proofs.Session.Directory

/-!
# What a complete conversion has converted

A conversion that was complete has read all files that its inputs stand for, and what it decoded it
also saved.  It need not have decoded every file that claims to be audio: a registry takes one file
of each name, and a directory walk can come upon the same name again in another directory.  The
later file is skipped, which is reported in a line of its own and does not make the conversion
incomplete.  So there are as many converted files as there are names.

Reading leaves the disk as it is, hence all files are those of the tree at the beginning.  Which of
them are attempted is a matter of the registry (`Registry.find?_attempted`), and where the assets go
is a matter of saving (`Session.forall₂_of_complete`); here the two are put together.

## What is here

* `FileTree.collected`, `FileTree.sourceAt` — the paths of the files that some inputs stand for, and
  the file at a path; `CommandLine.claimsAudio` — which paths claim to be audio.
* `CommandLine.loadSources_apply` — reading; `Session.add_apply` — adding.
* `CommandLine.convertFiles_delivered` — a conversion by its parts;
  `CommandLine.noting_convertFiles` — a disk that takes notes does nothing else.
* `CommandLine.exists_asset_of_complete`, `CommandLine.length_assets_of_complete` — the assets of
  a batch of files in which nothing failed.
* `CommandLine.convertFiles_complete` — what was converted if the conversion was complete.
-/

set_option autoImplicit false
namespace WaveMill

open Stateful

namespace FileTree

/-- The paths of the regular files below a directory. -/
def filesBelow (tree : FileTree) (path : String) : List String :=
  CommandLine.regularFiles (tree.sightings path)

/-- The paths of the files that some inputs stand for in a tree. -/
def collected (tree : FileTree) (inputs : List String) : List String :=
  inputs.flatMap fun input ↦ if tree.isDirectory input then tree.filesBelow input else [input]

/-- The file at a path of a tree. -/
def sourceAt (tree : FileTree) (path : String) : Outcome Source :=
  match tree.fileAt path with
  | .error fault => .error (.disk fault)
  | .ok bytes => .ok (.ofPath path bytes)

end FileTree

/-- Files come into the registry of a session as into any other. -/
theorem Session.add_apply (decode : Decoder) (files : List Source) (session : Session) :
    ∃ player, Session.add decode files session =
      ((session.registry.add decode files).1,
        ⟨(session.registry.add decode files).2, player, session.config⟩) := by
  by_cases hadded : (session.registry.add decode files).1.added = []
  · by_cases hcomplete : (session.registry.add decode files).1.isComplete = true
    · refine ⟨session.player, ?_⟩
      simp only [Session.add, bind_apply, get_apply, modify_apply, pure_apply, hadded, hcomplete,
        ne_eq, not_true, or_self, if_false]
    · refine ⟨(Player.settle session.player).2, ?_⟩
      simp only [Session.add, bind_apply, get_apply, modify_apply, hadded, hcomplete, ne_eq,
        not_true, if_false]
      rfl
  · refine ⟨(Player.stop (Player.settle session.player).2).2, ?_⟩
    simp only [Session.add, bind_apply, get_apply, modify_apply, pure_apply, hadded, ne_eq,
      not_false_eq_true, true_or, if_true]
    rfl

namespace CommandLine

/-! ## Reading -/

/-- Whether the file at a path claims to be audio. -/
def claimsAudio (path : String) : Bool := MediaType.isAudio (MediaType.ofPath path)

theorem isAudio_ofPath (path : String) (bytes : Bytes) :
    (Source.ofPath path bytes).isAudio = claimsAudio path := by
  rw [Source.isAudio, Source.ofPath, claimsAudio]

/-- A file that claims to be audio by its extension has a name. -/
theorem fileName?_of_claimsAudio {path : String} (h : claimsAudio path = true) (bytes : Bytes) :
    Path.fileName? path = some (Source.ofPath path bytes).name := by
  cases hname : Path.fileName? path with
  | some name => simp only [Source.ofPath, hname, Option.getD_some]
  | none =>
    have hextension : Path.extension? path = none := by
      rw [Path.extension?, hname]
      rfl
    have hother : MediaType.ofPath path = "application/octet-stream" := by
      rw [MediaType.ofPath, hextension]
      rfl
    have hnone : MediaType.isAudio "application/octet-stream" = false := by decide
    rw [claimsAudio, hother, hnone] at h
    cases h

variable (tree : FileTree) (inputs : List String) (written : List (String × Bytes))

theorem collectInputs_apply :
    collectInputs FileTree.disk.traced inputs (written, tree) =
      (tree.collected inputs, written, tree) := by
  have hinput (input : String) : expandInput FileTree.disk.traced input (written, tree) =
      (if tree.isDirectory input then tree.filesBelow input else [input], written, tree) := by
    have hdirectory : FileTree.disk.traced.isDirectory input (written, tree) =
        (tree.isDirectory input, written, tree) := rfl
    rw [expandInput, bind_apply, hdirectory]
    cases tree.isDirectory input <;> rfl
  rw [collectInputs, bind_apply, mapM_apply_of_unchanged hinput, pure_apply, FileTree.collected,
    List.flatMap_def]

theorem loadSources_apply :
    loadSources FileTree.disk.traced inputs (written, tree) =
      ((tree.collected inputs).map fun path ↦ (path, tree.sourceAt path), written, tree) := by
  have hload (path : String) : Source.load FileTree.disk.traced path (written, tree) =
      (tree.sourceAt path, written, tree) := by
    have hread : FileTree.disk.traced.read path (written, tree) =
        (tree.fileAt path, written, tree) := rfl
    rw [Source.load, bind_apply, hread, FileTree.sourceAt]
    cases tree.fileAt path <;> rfl
  rw [loadSources, bind_apply, collectInputs_apply]
  refine mapM_apply_of_unchanged (fun path ↦ ?_) _
  rw [bind_apply, hload, pure_apply]

variable {tree}

/-- If every path could be read, the files are those at the paths, in the same order. -/
theorem exists_contents {paths : List String}
    (h : unreadable (paths.map fun path ↦ (path, tree.sourceAt path)) = []) :
    ∃ contents : String → Bytes, (∀ path ∈ paths, tree.fileAt path = .ok (contents path)) ∧
      readable (paths.map fun path ↦ (path, tree.sourceAt path)) =
        paths.map fun path ↦ .ofPath path (contents path) := by
  refine ⟨fun path ↦ (tree.fileAt path).toOption.getD [], ?_⟩
  induction paths with
  | nil => exact ⟨fun _ h ↦ (List.not_mem_nil h).elim, rfl⟩
  | cons path rest ih =>
    rw [List.map_cons, unreadable, Reading.filterMap_cons, List.append_eq_nil_iff] at h
    obtain ⟨hread, hreadable⟩ := ih h.2
    rw [List.map_cons, readable, Reading.filterMap_cons]
    cases hfile : tree.fileAt path with
    | error fault =>
      rw [FileTree.sourceAt, hfile] at h
      cases h.1
    | ok bytes =>
      refine ⟨List.forall_mem_cons.2 ⟨by simp [hfile, Except.toOption], hread⟩, ?_⟩
      rw [readable] at hreadable
      simp only [hreadable, FileTree.sourceAt, hfile, List.map_cons]
      rfl

/-! ## A conversion by its parts -/

variable (tree) (output : String) {config : Config}

theorem convertFiles_delivered (decode : Decoder) (hvalid : config.validate = .ok ()) :
    let loaded := (tree.collected inputs).map fun path ↦ (path, tree.sourceAt path)
    let added := Registry.empty.add decode (readable loaded)
    ∃ (session : Session) (results : List (Except FailedFile String))
        (files : List (String × Bytes)) (tree' : FileTree),
      let saved := SaveReport.ofResults results
      convertFiles decode FileTree.disk.traced inputs output config ([], tree) =
        (.ok
          { lines :=
              (unreadable loaded).map failureLine ++ addLines added.1 ++ savedLines saved output
            complete := (unreadable loaded).isEmpty && added.1.isComplete && saved.isComplete },
          files, tree') ∧
      session.registry = added.2 ∧ session.config = config ∧
      Plan.Delivered output (session.plans Resample.linear) results files := by
  intro loaded added
  have hnew : Session.new (.new .timed) config = .ok ⟨.empty, .new (.new .timed), config⟩ := by
    rw [Session.new, hvalid]
    rfl
  obtain ⟨player, hadd⟩ :=
    Session.add_apply decode (readable loaded) ⟨.empty, .new (.new .timed), config⟩
  obtain ⟨results, files, tree', session', hsave, hdelivered⟩ :=
    Session.saveAll_delivered ⟨added.2, player, config⟩ Resample.linear FileTree.disk output [] tree
  refine ⟨⟨added.2, player, config⟩, results, files, tree', ?_, rfl, rfl, hdelivered⟩
  rw [convertFiles, bind_apply, loadSources_apply, hnew]
  simp only
  rw [hadd]
  simp only
  rw [bind_apply, hsave]
  rfl

/-- A disk that takes notes does nothing else. -/
theorem noting_convertFiles {σ : Type} (decode : Decoder) (disk : Disk (StateM σ))
    (inputs : List String) (output : String) (config : Config) :
    Noting (convertFiles decode disk.traced inputs output config)
      (convertFiles decode disk inputs output config) := by
  have hexpand (input : String) :
      Noting (expandInput disk.traced input) (expandInput disk input) := by
    refine .bind (.beside _) fun isDirectory ↦ ?_
    cases isDirectory with
    | false => exact .pure _
    | true => exact .bind (.beside _) fun _ ↦ .pure _
  have hload (path : String) : Noting (Source.load disk.traced path) (Source.load disk path) := by
    refine .bind (.beside _) fun contents ↦ ?_
    cases contents with
    | error fault => exact .pure _
    | ok bytes => exact .pure _
  have hsources : Noting (loadSources disk.traced inputs) (loadSources disk inputs) :=
    .bind (.bind (.mapM hexpand inputs) fun _ ↦ .pure _) fun paths ↦
      .mapM (fun path ↦ .bind (hload path) fun _ ↦ .pure _) paths
  refine .bind hsources fun loaded ↦ ?_
  cases Session.new (.new .timed) config with
  | error failure => exact .pure _
  | ok session => exact .bind (.saveAll disk output _ _) fun _ ↦ .pure _

/-! ## What was attempted -/

section Attempted

variable (contents : String → Bytes) (paths : List String)

/-- The files at some paths. -/
def sources : List Source := paths.map fun path ↦ .ofPath path (contents path)

/-- Of all paths to audio with the same last name, the first one leads to the file that is
attempted. -/
theorem find?_attempted_sources (name : String) :
    (Registry.attempted [] (sources contents paths)).find? (fun file ↦ file.name = name) =
      ((paths.filter claimsAudio).find? fun path ↦ Path.fileName? path = some name).map
        fun path ↦ Source.ofPath path (contents path) := by
  rw [Registry.find?_attempted List.not_mem_nil, sources, List.find?_map, List.find?_filter]
  refine congrArg _ (congrArg (paths.find? ·) (funext fun path ↦ ?_))
  simp only [Function.comp_apply, isAudio_ofPath]
  cases haudio : claimsAudio path with
  | false => simp
  | true => simp [fileName?_of_claimsAudio haudio (contents path)]

theorem length_dedup_eq_iff {α : Type} [DecidableEq α] {xs : List α} :
    xs.dedup.length = xs.length ↔ xs.Nodup := by
  rw [← List.dedup_eq_self]
  exact ⟨(List.dedup_sublist xs).eq_of_length, congrArg List.length⟩

/-- There is one file for every last name. -/
theorem length_attempted_sources :
    (Registry.attempted [] (sources contents paths)).length =
      ((paths.filter claimsAudio).map Path.fileName?).dedup.length := by
  have haudio : ((sources contents paths).filter Source.isAudio).map (some ∘ Source.name) =
      (paths.filter claimsAudio).map Path.fileName? := by
    have hclaims :
        Source.isAudio ∘ (fun path ↦ Source.ofPath path (contents path)) = claimsAudio := by
      funext path
      rw [Function.comp_apply, isAudio_ofPath]
    rw [sources, List.filter_map, hclaims, List.map_map]
    refine List.map_congr_left fun path hpath ↦ ?_
    rw [fileName?_of_claimsAudio (List.mem_filter.1 hpath).2 (contents path)]
    rfl
  rw [← haudio, ← List.map_map, List.dedup_map_of_injective (Option.some_injective String),
    List.length_map, ← (Registry.perm_names_attempted _).length_eq, List.length_map]

variable {contents paths} {decode : Decoder}

/-- No asset that comes from a path has a slash in its name. -/
theorem slash_notMem_name {asset : Asset}
    (hasset : asset ∈ (Registry.empty.add decode (sources contents paths)).2.assets) :
    '/' ∉ asset.name.toList := by
  obtain ⟨file, hfile, haudio, hname⟩ := Registry.exists_file_of_asset hasset
  obtain ⟨path, -, rfl⟩ := List.mem_map.1 hfile
  rw [isAudio_ofPath] at haudio
  rw [← hname]
  exact (Path.isName_iff.1 (Path.isName_of_fileName? (fileName?_of_claimsAudio haudio _))).2.2.2

variable (h : Registry.undecoded decode (Registry.attempted [] (sources contents paths)) = [])

include h

/-- If nothing has failed, there is one asset for every last name. -/
theorem length_assets_of_complete :
    (Registry.empty.add decode (sources contents paths)).2.assets.length =
      ((paths.filter claimsAudio).map Path.fileName?).dedup.length := by
  have hassets := (Registry.perm_add decode (sources contents paths) .empty).length_eq
  have hdecoded := congrArg List.length (Registry.map_attempt_of_complete h)
  rw [List.length_map, List.length_map] at hdecoded
  rw [← length_attempted_sources, hdecoded]
  exact hassets

/-- If nothing has failed, the first file of every name has become an asset. -/
theorem exists_asset_of_complete {path : String} (hpath : path ∈ paths.filter claimsAudio) :
    ∃ name first buffer, Path.fileName? path = some name ∧
      (paths.filter claimsAudio).find? (fun other ↦ Path.fileName? other = some name) = some first ∧
      decode name (contents first) = .ok buffer ∧
      ⟨name, buffer, (contents first).length⟩ ∈
        (Registry.empty.add decode (sources contents paths)).2.assets := by
  obtain ⟨name, hname⟩ : ∃ name, Path.fileName? path = some name :=
    ⟨_, fileName?_of_claimsAudio (List.mem_filter.1 hpath).2 (contents path)⟩
  obtain ⟨first, hfirst⟩ : ∃ first, (paths.filter claimsAudio).find? (fun other ↦
      Path.fileName? other = some name) = some first :=
    Option.isSome_iff_exists.1 (List.find?_isSome.2 ⟨path, hpath, by simp [hname]⟩)
  have hfile := find?_attempted_sources contents paths name
  rw [hfirst, Option.map_some] at hfile
  have hattempted :=
    List.mem_map_of_mem (f := Registry.attempt decode) (List.mem_of_find?_eq_some hfile)
  rw [Registry.map_attempt_of_complete h] at hattempted
  obtain ⟨asset, hasset, hok⟩ := List.mem_map.1 hattempted
  obtain ⟨buffer, hdecode, rfl⟩ := Registry.attempt_eq_ok_iff.1 hok.symm
  have hsame : (Source.ofPath first (contents first)).name = name := by
    simpa using List.find?_some hfile
  rw [hsame] at hdecode hasset
  refine ⟨name, first, buffer, hname, hfirst, hdecode, ?_⟩
  exact (Registry.perm_add decode (sources contents paths) .empty).mem_iff.2 hasset

end Attempted

/-! ## What was converted -/

/-- **A complete conversion has converted one file of every name**, whatever formats the decoder
knows.  All files were read.  For every path to audio, the first path with the same last name was
decoded and saved under an output name of its own.  There are as many converted files as last names,
and so as many as paths to audio exactly if no two of the paths have the same last name. -/
theorem convertFiles_complete (decode : Decoder) (hvalid : config.validate = .ok ()) :
    let paths := tree.collected inputs
    let audio := paths.filter claimsAudio
    ∃ report written tree',
      convertFiles decode FileTree.disk inputs output config tree = (.ok report, tree') ∧
      convertFiles decode FileTree.disk.traced inputs output config ([], tree) =
        (.ok report, written, tree') ∧
      s!"Converted {written.length} file(s) to {output}" ∈ report.lines ∧
      (report.complete = true →
        (∀ path ∈ paths, ∃ bytes, tree.fileAt path = .ok bytes) ∧
        (∀ path ∈ audio, ∃ name first bytes buffer wave, Path.fileName? path = some name ∧
          audio.find? (fun other ↦ Path.fileName? other = some name) = some first ∧
          tree.fileAt first = .ok bytes ∧ decode name bytes = .ok buffer ∧
          WaveMill.convert Resample.linear config buffer = .ok wave ∧
          (Path.join output (outputName name), wave) ∈ written) ∧
        (written.map Prod.fst).Nodup ∧
        written.length = (audio.map Path.fileName?).dedup.length ∧
        (written.length = audio.length ↔ (audio.map Path.fileName?).Nodup)) := by
  intro paths audio
  obtain ⟨session, results, written, tree', hrun, hregistry, hconfig, hdelivered⟩ :=
    convertFiles_delivered tree inputs output decode hvalid
  have hplain := (noting_convertFiles decode FileTree.disk inputs output config).eq [] tree
  rw [hrun] at hplain
  refine ⟨_, written, tree', hplain, hrun, ?_, fun hcomplete ↦ ?_⟩
  · have hlength := congrArg List.length hdelivered.paths_eq
    rw [List.length_map, List.length_map] at hlength
    rw [hlength]
    exact List.mem_append_right _ (List.mem_append_right _ List.mem_cons_self)
  · simp only [Bool.and_eq_true, AddReport.isComplete, SaveReport.isComplete,
      List.isEmpty_iff] at hcomplete
    obtain ⟨⟨hread, hdecoded⟩, hsaved⟩ := hcomplete
    obtain ⟨contents, hcontents, hsources⟩ := exists_contents hread
    rw [hsources, Registry.add_eq] at hdecoded
    have hassets : session.registry.assets =
        (Registry.empty.add decode (sources contents paths)).2.assets := by
      rw [hregistry, hsources]
      rfl
    have hfiles := session.forall₂_of_complete Resample.linear hdelivered hsaved
    have hcount : written.length = (audio.map Path.fileName?).dedup.length := by
      rw [← length_assets_of_complete hdecoded, ← hassets]
      exact hfiles.length_eq.symm
    refine ⟨fun path hpath ↦ ⟨contents path, hcontents path hpath⟩, fun path hpath ↦ ?_, ?_, hcount,
      ?_⟩
    · obtain ⟨name, first, buffer, hname, hfirst, hdecode, hasset⟩ :=
        exists_asset_of_complete hdecoded hpath
      have hslash := slash_notMem_name hasset
      rw [← hassets] at hasset
      obtain ⟨file, hfile, hwhere, hconvert⟩ := Reading.exists_of_forall₂ hfiles hasset
      rw [Path.fileName?_of_isName (isName_outputName hslash), Option.map_some] at hwhere
      rw [hconfig] at hconvert
      have hfirst' := (List.mem_filter.1 (List.mem_of_find?_eq_some hfirst)).1
      refine ⟨name, first, contents first, buffer, file.2, hname, hfirst, hcontents first hfirst',
        hdecode, hconvert, ?_⟩
      rwa [Option.some.inj hwhere]
    · refine session.nodup_paths Resample.linear hdelivered fun asset hasset ↦ ?_
      rw [hassets] at hasset
      exact slash_notMem_name hasset
    · rw [hcount, ← List.length_map Path.fileName?]
      exact length_dedup_eq_iff

/-- A tree in which two directories have a file of the same name, each a wave file without
samples. -/
def sameNameTwice : FileTree :=
  let wave : Entry := .file ((Wave.file [] 1 8000 1).toOption.getD [])
  let root := FileTree.empty.put [] "in" .directory
  let directories := (root.put ["in"] "a" .directory).put ["in"] "b" .directory
  (directories.put ["in", "a"] "x.wav" wave).put ["in", "b"] "x.wav" wave

/-- The second file of a name is left out of a conversion that calls itself complete. -/
theorem convertFiles_sameNameTwice :
    let outcome :=
      convertFiles decodeAudio FileTree.disk ["in"] "out" ⟨8000, 1, .both⟩ sameNameTwice
    (sameNameTwice.collected ["in"]).filter claimsAudio = ["in/a/x.wav", "in/b/x.wav"] ∧
      outcome.1 = .ok
        { lines := ["Skipped: x.wav (duplicate name)", "Converted 1 file(s) to out", "  x.wav"]
          complete := true } ∧
      outcome.2.files.map Prod.fst =
        [["in", "a", "x.wav"], ["in", "b", "x.wav"], ["out", "x.wav"]] := by
  decide +kernel

theorem convertFiles_complete_once :
    ∃ report written tree',
      convertFiles decodeAudio FileTree.disk.traced ["in"] "out" ⟨8000, 1, .both⟩
        ([], sameNameTwice) = (.ok report, written, tree') ∧
      report.complete = true ∧ (written.map Prod.fst).Nodup ∧ written.length = 1 := by
  have hvalid : Config.validate ⟨8000, 1, .both⟩ = .ok () := by decide
  obtain ⟨report, written, tree', hplain, hrun, -, hconverted⟩ :=
    convertFiles_complete sameNameTwice ["in"] "out" decodeAudio hvalid
  have hcomplete : report.complete = true := by
    have hreport : (convertFiles decodeAudio FileTree.disk ["in"] "out" ⟨8000, 1, .both⟩
        sameNameTwice).1.map Report.complete = .ok true := by
      decide +kernel
    rw [hplain] at hreport
    exact Except.ok.inj hreport
  obtain ⟨-, -, hnodup, hlength, -⟩ := hconverted hcomplete
  have hnames : (((sameNameTwice.collected ["in"]).filter claimsAudio).map
      Path.fileName?).dedup.length = 1 := by
    decide +kernel
  exact ⟨report, written, tree', hrun, hcomplete, hnodup, hlength.trans hnames⟩

end CommandLine
end WaveMill
