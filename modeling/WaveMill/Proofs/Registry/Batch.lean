import Mathlib.Data.List.Dedup
import Mathlib.Data.List.Nodup
import WaveMill.Proofs.Outcome
import WaveMill.Proofs.Reading
import WaveMill.Proofs.Registry.Assets

/-!
# What becomes of the files of a batch

A batch is sorted out in one pass with a growing list of names that are taken, and what can be
decoded is inserted afterwards.  Here the same is said file by file: the fate of a file depends on
the registry, on the files before it in the batch, and on its own decoding.

Only the sorting out looks at other files, and it looks at their names and media types alone.  Only
the files that are attempted are decoded, each by itself.  These two facts (`Registry.triage_eq` and
`Registry.add_eq`) are what keeps one file from disturbing another.

## What is here

* `Registry.skipReason?`, `Registry.Fate` and `Registry.fates` — what should become of every file.
* `Registry.nodup_attempted` — files that are attempted have names of their own;
  `Registry.find?_attempted` — of the files of a name, the first one is attempted.
* `Registry.attempted_congr`, `Registry.filter_assets_congr` — what a batch does not depend on.
* `Registry.add_fates` — what becomes of a batch and of the registry.
-/

set_option autoImplicit false
namespace WaveMill
namespace Registry

/-! ## Fates -/

/-- Why a file is skipped that comes after some others, if it is.  A name is taken by an asset or by
an earlier file that claims to be audio, whatever became of that file. -/
def skipReason? (taken : List String) (earlier : List Source) (file : Source) : Option SkipReason :=
  if ¬"audio/".toList <+: file.mediaType.toList then some (.notAudio file.mediaType)
  else if file.name ∈ taken ∨
      ∃ other ∈ earlier, "audio/".toList <+: other.mediaType.toList ∧ other.name = file.name then
    some .duplicateName
  else none

/-- What becomes of a file. -/
inductive Fate where
  | skipped (reason : SkipReason)
  | failed (failure : Failure)
  | added (asset : Asset)

namespace Fate

/-- What becomes of a file that is skipped for a reason or for none. -/
def of (decode : Decoder) (file : Source) : Option SkipReason → Fate
  | some reason => skipped reason
  | none =>
    match decode.asTask file.name file.bytes with
    | .ok buffer => added ⟨file.name, buffer, file.bytes.length⟩
    | .error failure => failed failure

def reason? : Fate → Option SkipReason
  | skipped reason => some reason
  | _ => none

def failure? : Fate → Option Failure
  | failed failure => some failure
  | _ => none

def asset? : Fate → Option Asset
  | added asset => some asset
  | _ => none

end Fate

/-- The files of a batch, each with what becomes of it. -/
def fates (decode : Decoder) (files : List Source) (registry : Registry) : List (Source × Fate) :=
  files.mapIdx fun k file ↦ (file, .of decode file (skipReason? registry.names (files.take k) file))

variable {decode : Decoder} {seen : List String} {files : List Source} {registry : Registry}

theorem isAudio_iff {file : Source} :
    file.isAudio = true ↔ "audio/".toList <+: file.mediaType.toList :=
  List.isPrefixOf_iff_prefix

theorem skipReason?_eq_none_iff {earlier : List Source} {file : Source} :
    skipReason? seen earlier file = none ↔ "audio/".toList <+: file.mediaType.toList ∧
      ¬(file.name ∈ seen ∨ ∃ other ∈ earlier,
        "audio/".toList <+: other.mediaType.toList ∧ other.name = file.name) := by
  rw [skipReason?]
  split
  · simp_all
  · rename_i haudio
    rw [not_not] at haudio
    split
    · simp_all
    · simp_all

/-- What the pass through a batch finds for a file of a name and a media type, and the names that
are taken afterwards. -/
def verdict (seen : List String) (name mediaType : String) : Option SkipReason × List String :=
  if !MediaType.isAudio mediaType then (some (.notAudio mediaType), seen)
  else if seen.contains name then (some .duplicateName, seen)
  else (none, name :: seen)

theorem triage_cons (seen : List String) (first : Source) (rest : List Source) :
    triage seen (first :: rest) = (first, (verdict seen first.name first.mediaType).1) ::
      triage (verdict seen first.name first.mediaType).2 rest := by
  rw [triage, verdict, Source.isAudio]
  split
  · rfl
  · split <;> rfl

theorem verdict_fst (seen : List String) (file : Source) :
    (verdict seen file.name file.mediaType).1 = skipReason? seen [] file := by
  have haudio :
      MediaType.isAudio file.mediaType = true ↔ "audio/".toList <+: file.mediaType.toList :=
    isAudio_iff
  simp only [verdict, skipReason?, ← haudio, List.contains_iff_mem, List.not_mem_nil, false_and,
    exists_false, or_false, Bool.not_eq_true', Bool.not_eq_true]
  split
  · rfl
  · split <;> rfl

/-- A file that claims to be audio takes its name, if it was not taken already. -/
theorem mem_verdict_snd {name : String} {file : Source} :
    name ∈ (verdict seen file.name file.mediaType).2 ↔
      name ∈ seen ∨ file.isAudio = true ∧ file.name = name := by
  rw [verdict, Source.isAudio]
  by_cases haudio : MediaType.isAudio file.mediaType = true
  · by_cases hseen : file.name ∈ seen
    · simp only [haudio, Bool.not_true, List.contains_iff_mem, hseen, if_true, true_and]
      exact (or_iff_left_of_imp fun heq ↦ heq ▸ hseen).symm
    · simp only [haudio, Bool.not_true, List.contains_iff_mem, hseen, true_and]
      exact List.mem_cons.trans (or_comm.trans (or_congr_right eq_comm))
  · simp [haudio]

/-- An earlier file of the batch takes its name just as an asset does. -/
theorem skipReason?_cons {earlier : List Source} {first file : Source} :
    skipReason? seen (first :: earlier) file =
      skipReason? (verdict seen first.name first.mediaType).2 earlier file := by
  have hiff : (file.name ∈ seen ∨ ∃ other ∈ first :: earlier,
        "audio/".toList <+: other.mediaType.toList ∧ other.name = file.name) ↔
      (file.name ∈ (verdict seen first.name first.mediaType).2 ∨ ∃ other ∈ earlier,
        "audio/".toList <+: other.mediaType.toList ∧ other.name = file.name) := by
    rw [mem_verdict_snd, isAudio_iff, or_assoc]
    simp only [List.mem_cons, exists_eq_or_imp]
  simp only [skipReason?, hiff]

/-- **The pass through a batch finds for every file what the registry and the files before it
say.** -/
theorem triage_eq (seen : List String) (files : List Source) :
    triage seen files = files.mapIdx fun k file ↦ (file, skipReason? seen (files.take k) file) := by
  induction files generalizing seen with
  | nil => rfl
  | cons first rest ih =>
    rw [triage_cons, ih, List.mapIdx_cons, verdict_fst]
    simp only [List.take_succ_cons, skipReason?_cons, List.take_zero]

/-! ## What a batch is made of -/

/-- The files of a batch that are attempted. -/
def attempted (seen : List String) (files : List Source) : List Source :=
  (triage seen files).filterMap fun (file, skip) ↦ if skip.isNone then some file else none

/-- The names of the files of a batch that are skipped, and why. -/
def skipped (seen : List String) (files : List Source) : List (String × SkipReason) :=
  (triage seen files).filterMap fun (file, skip) ↦ skip.map fun reason ↦ (file.name, reason)

/-- The assets that some files become. -/
def decoded (decode : Decoder) (files : List Source) : List Asset :=
  files.filterMap fun file ↦ (attempt decode file).toOption

/-- The files that cannot be decoded, and why. -/
def undecoded (decode : Decoder) (files : List Source) : List FailedFile :=
  files.filterMap fun file ↦
    match attempt decode file with
    | .ok _ => none
    | .error failure => some ⟨file.name, failure⟩

theorem attempted_cons (seen : List String) (first : Source) (rest : List Source) :
    attempted seen (first :: rest) =
      if (verdict seen first.name first.mediaType).1 = none then
        first :: attempted (verdict seen first.name first.mediaType).2 rest
      else attempted (verdict seen first.name first.mediaType).2 rest := by
  rw [attempted, triage_cons]
  cases (verdict seen first.name first.mediaType).1 <;> rfl

theorem skipped_cons (seen : List String) (first : Source) (rest : List Source) :
    skipped seen (first :: rest) =
      ((verdict seen first.name first.mediaType).1.map fun reason ↦ (first.name, reason)).toList ++
        skipped (verdict seen first.name first.mediaType).2 rest := by
  rw [skipped, triage_cons]
  cases (verdict seen first.name first.mediaType).1 <;> rfl

/-- A batch is sorted out first, whatever the decoder does, and each file that is attempted is
decoded by itself. -/
theorem add_eq (decode : Decoder) (files : List Source) (registry : Registry) :
    registry.add decode files =
      ({ added := (decoded decode (attempted registry.names files)).map Asset.name
         skipped := skipped registry.names files
         failed := undecoded decode (attempted registry.names files) },
        (decoded decode (attempted registry.names files)).foldl insert registry) := by
  have hresults : ((triage registry.names files).filterMap fun (file, skip) ↦
      if skip.isNone then some (file.name, attempt decode file) else none) =
      (attempted registry.names files).map fun file ↦ (file.name, attempt decode file) := by
    rw [attempted, List.map_filterMap]
    refine List.filterMap_congr fun (file, skip) _ ↦ ?_
    cases skip <;> rfl
  simp only [add, hresults, List.filterMap_map]
  rfl

theorem attempt_eq_ok_iff {file : Source} {asset : Asset} :
    attempt decode file = .ok asset ↔
      ∃ buffer, decode file.name file.bytes = .ok buffer ∧
        asset = ⟨file.name, buffer, file.bytes.length⟩ := by
  rw [attempt, Outcome.bind_eq_ok_iff]
  have htask (buffer : Buffer) : decode.asTask file.name file.bytes = .ok buffer ↔
      decode file.name file.bytes = .ok buffer := by
    rw [Decoder.asTask]
    split
    · rename_i h
      simp [h]
    · rfl
  simp only [htask, Outcome.pure_eq_ok, Except.ok.injEq, eq_comm (b := asset)]

/-- If no file has failed, every file has become an asset. -/
theorem map_attempt_of_complete (h : undecoded decode files = []) :
    files.map (attempt decode) = (decoded decode files).map .ok := by
  induction files with
  | nil => rfl
  | cons file rest ih =>
    rw [undecoded, Reading.filterMap_cons, List.append_eq_nil_iff] at h
    rw [decoded, Reading.filterMap_cons, List.map_cons, List.map_append]
    cases hattempt : attempt decode file with
    | ok asset => exact congrArg (Except.ok asset :: ·) (ih h.2)
    | error failure =>
      rw [hattempt] at h
      cases h.1

/-! ### Its parts, by the fates of the files -/

theorem fates_eq : registry.fates decode files =
    (triage registry.names files).map fun (file, skip) ↦ (file, .of decode file skip) := by
  rw [fates, List.mapIdx_eq_iff]
  intro k
  rw [triage_eq, List.getElem?_map, List.getElem?_mapIdx]
  cases files[k]? <;> rfl

theorem Fate.of_none (decode : Decoder) (file : Source) : Fate.of decode file none =
    match attempt decode file with
    | .ok asset => added asset
    | .error failure => failed failure := by
  simp only [of, attempt]
  cases decode.asTask file.name file.bytes <;> rfl

theorem skipped_eq : skipped registry.names files =
    (registry.fates decode files).filterMap fun (file, fate) ↦
      fate.reason?.map fun r ↦ (file.name, r) := by
  rw [fates_eq, List.filterMap_map]
  refine List.filterMap_congr fun (file, skip) _ ↦ ?_
  cases skip with
  | some reason => rfl
  | none =>
    simp only [Function.comp_apply, Fate.of_none]
    cases attempt decode file <;> rfl

/-- What is read off the files that are attempted is read off their fates. -/
theorem filterMap_attempted {β : Type} {f : Source → Option β} (read : Source → Fate → Option β)
    (hskipped : ∀ file reason, read file (.skipped reason) = none)
    (hattempted : ∀ file, f file = read file (.of decode file none)) :
    (attempted registry.names files).filterMap f =
      (registry.fates decode files).filterMap fun (file, fate) ↦ read file fate := by
  rw [attempted, List.filterMap_filterMap, fates_eq, List.filterMap_map]
  refine List.filterMap_congr fun (file, skip) _ ↦ ?_
  cases skip with
  | some reason => exact (hskipped file reason).symm
  | none => exact hattempted file

theorem decoded_eq : decoded decode (attempted registry.names files) =
    (registry.fates decode files).filterMap fun (_, fate) ↦ fate.asset? := by
  refine filterMap_attempted (fun _ fate ↦ fate.asset?) (fun _ _ ↦ rfl) fun file ↦ ?_
  rw [Fate.of_none]
  cases attempt decode file <;> rfl

theorem undecoded_eq : undecoded decode (attempted registry.names files) =
    (registry.fates decode files).filterMap fun (file, fate) ↦
      fate.failure?.map fun f ↦ ⟨file.name, f⟩ := by
  refine filterMap_attempted (fun file fate ↦ fate.failure?.map (FailedFile.mk file.name))
    (fun _ _ ↦ rfl) fun file ↦ ?_
  rw [Fate.of_none]
  cases attempt decode file <;> rfl

theorem name_of_attempt {file : Source} {asset : Asset}
    (h : (attempt decode file).toOption = some asset) :
    asset.name = file.name := by
  simp only [attempt] at h
  cases hdecode : decode.asTask file.name file.bytes with
  | error failure =>
    rw [hdecode] at h
    cases h
  | ok buffer =>
    rw [hdecode] at h
    cases h
    rfl

/-- An asset goes by the name of the file that it was. -/
theorem names_decoded (decode : Decoder) (files : List Source) :
    (decoded decode files).map Asset.name =
      files.filterMap fun file ↦ (attempt decode file).toOption.map fun _ ↦ file.name := by
  rw [decoded, List.map_filterMap]
  refine List.filterMap_congr fun file _ ↦ ?_
  cases h : (attempt decode file).toOption with
  | none => rfl
  | some asset => exact congrArg some (name_of_attempt h)

/-! ## Names -/

/-- Files that are attempted have names of their own, which no asset has. -/
theorem nodup_attempted (seen : List String) (files : List Source) :
    ((attempted seen files).map Source.name).Nodup ∧
      ∀ file ∈ attempted seen files, file.name ∉ seen := by
  induction files generalizing seen with
  | nil => exact ⟨List.nodup_nil, fun file hfile ↦ by cases hfile⟩
  | cons first rest ih =>
    obtain ⟨hnodup, hnew⟩ := ih (verdict seen first.name first.mediaType).2
    have hrest :
        ∀ file ∈ attempted (verdict seen first.name first.mediaType).2 rest, file.name ∉ seen :=
      fun file hfile hmem ↦ hnew file hfile (mem_verdict_snd.2 (.inl hmem))
    rw [attempted_cons]
    split
    · rename_i hskip
      rw [verdict_fst] at hskip
      obtain ⟨haudio, hseen⟩ := skipReason?_eq_none_iff.1 hskip
      have hfirst : first.name ∉ (attempted (verdict seen first.name first.mediaType).2 rest).map
          Source.name := by
        intro hmem
        obtain ⟨file, hfile, hname⟩ := List.mem_map.1 hmem
        exact hnew file hfile (mem_verdict_snd.2 (.inr ⟨isAudio_iff.2 haudio, hname.symm⟩))
      refine ⟨List.nodup_cons.2 ⟨hfirst, hnodup⟩, fun file hfile ↦ ?_⟩
      rcases List.mem_cons.1 hfile with rfl | hfile
      · exact fun hmem ↦ hseen (.inl hmem)
      · exact hrest file hfile
    · exact ⟨hnodup, hrest⟩

/-- Of all files of a name that no asset has, only the first that claims to be audio is
attempted. -/
theorem find?_attempted {seen : List String} {name : String} (hseen : name ∉ seen)
    (files : List Source) :
    (attempted seen files).find? (fun file ↦ file.name = name) =
      files.find? fun file ↦ file.isAudio && file.name = name := by
  induction files generalizing seen with
  | nil => rfl
  | cons first rest ih =>
    by_cases hfirst : first.isAudio = true ∧ first.name = name
    · obtain ⟨haudio, rfl⟩ := hfirst
      have hskip : (verdict seen first.name first.mediaType).1 = none := by
        rw [verdict_fst]
        exact skipReason?_eq_none_iff.2 ⟨isAudio_iff.1 haudio, by simp [hseen]⟩
      rw [attempted_cons, if_pos hskip, List.find?_cons_of_pos (by simp),
        List.find?_cons_of_pos (by simp [haudio])]
    · have hlater := @ih (verdict seen first.name first.mediaType).2 fun hmem ↦
        (mem_verdict_snd.1 hmem).elim hseen hfirst
      rw [List.find?_cons_of_neg (by simpa using hfirst), ← hlater, attempted_cons]
      split
      · rename_i hskip
        rw [verdict_fst] at hskip
        have haudio := isAudio_iff.2 (skipReason?_eq_none_iff.1 hskip).1
        exact List.find?_cons_of_neg (by simpa using fun hname ↦ hfirst ⟨haudio, hname⟩)
      · rfl

/-- In a registry without assets, the names of all files that claim to be audio are attempted. -/
theorem perm_names_attempted (files : List Source) :
    ((attempted [] files).map Source.name).Perm
      ((files.filter Source.isAudio).map Source.name).dedup := by
  refine (List.perm_ext_iff_of_nodup (nodup_attempted [] files).1
    (List.nodup_dedup _)).2 fun name ↦ ?_
  have hfind := congrArg Option.isSome (find?_attempted (List.not_mem_nil : name ∉ []) files)
  rw [Bool.eq_iff_iff, List.find?_isSome, List.find?_isSome] at hfind
  simpa [and_assoc] using hfind

/-- The assets of a batch have names of their own, which no asset of the registry has. -/
theorem nodup_decoded (decode : Decoder) (seen : List String) (files : List Source) :
    ((decoded decode (attempted seen files)).map Asset.name).Nodup ∧
      ∀ asset ∈ decoded decode (attempted seen files), asset.name ∉ seen := by
  obtain ⟨hnodup, hnew⟩ := nodup_attempted seen files
  constructor
  · refine List.pairwise_map.2 ((List.pairwise_map.1 hnodup).filterMap _ fun a b hab x hx y hy ↦ ?_)
    rwa [name_of_attempt hx, name_of_attempt hy]
  · intro asset hasset
    obtain ⟨file, hfile, hattempt⟩ := List.mem_filterMap.1 hasset
    rw [name_of_attempt hattempt]
    exact hnew file hfile

/-- **A batch adds its assets to the others and changes none of them.** -/
theorem perm_add (decode : Decoder) (files : List Source) (registry : Registry) :
    (registry.add decode files).2.assets.Perm
      (registry.assets ++ decoded decode (attempted registry.names files)) := by
  obtain ⟨hnodup, hnew⟩ := nodup_decoded decode registry.names files
  rw [add_eq]
  exact perm_foldl_insert hnodup hnew

/-- The assets of a batch in a registry without assets go by the names of files that claim to be
audio. -/
theorem exists_file_of_asset {decode : Decoder} {files : List Source} {asset : Asset}
    (h : asset ∈ (Registry.empty.add decode files).2.assets) :
    ∃ file ∈ files, file.isAudio = true ∧ file.name = asset.name := by
  obtain ⟨file, hfile, hattempt⟩ :=
    List.mem_filterMap.1 ((perm_add decode files .empty).mem_iff.1 h)
  have hsome : ((attempted [] files).find? fun other ↦ other.name = file.name).isSome = true :=
    List.find?_isSome.2 ⟨file, hfile, by simp⟩
  rw [find?_attempted List.not_mem_nil, List.find?_isSome] at hsome
  obtain ⟨first, hfirst, haudio⟩ := hsome
  rw [Bool.and_eq_true, decide_eq_true_eq, ← name_of_attempt hattempt] at haudio
  exact ⟨first, hfirst, haudio⟩

/-- Every file of a batch is added, skipped or has failed. -/
theorem length_filterMap_fates (fates : List Fate) :
    (fates.filterMap Fate.asset?).length + (fates.filterMap Fate.reason?).length +
      (fates.filterMap Fate.failure?).length = fates.length := by
  induction fates with
  | nil => rfl
  | cons fate rest ih =>
    have hone : fate.asset?.toList.length + fate.reason?.toList.length +
        fate.failure?.toList.length = 1 := by
      cases fate <;> rfl
    rw [Reading.length_filterMap_cons, Reading.length_filterMap_cons, Reading.length_filterMap_cons,
      List.length_cons]
    omega

theorem added_eq : (decoded decode (attempted registry.names files)).map Asset.name =
    (registry.fates decode files).filterMap fun (file, fate) ↦
      fate.asset?.map fun _ ↦ file.name := by
  rw [names_decoded]
  refine filterMap_attempted (fun file fate ↦ fate.asset?.map fun _ ↦ file.name) (fun _ _ ↦ rfl)
    fun file ↦ ?_
  rw [Fate.of_none]
  cases attempt decode file <;> rfl

theorem length_filterMap_snd {β γ : Type} (read : Fate → Option β) (entry : Source → β → γ)
    (fates : List (Source × Fate)) :
    (fates.filterMap fun (file, fate) ↦ (read fate).map (entry file)).length =
      ((fates.map Prod.snd).filterMap read).length := by
  rw [List.filterMap_map, List.length_filterMap_eq_countP, List.length_filterMap_eq_countP]
  refine List.countP_congr fun (file, fate) _ ↦ ?_
  rw [Option.isSome_map, Function.comp_apply]

theorem add_report (decode : Decoder) (files : List Source) (registry : Registry) :
    let fates := registry.fates decode files
    let report := (registry.add decode files).1
    report.added = fates.filterMap (fun (file, fate) ↦ fate.asset?.map fun _ ↦ file.name) ∧
      report.skipped = fates.filterMap (fun (file, fate) ↦
        fate.reason?.map fun r ↦ (file.name, r)) ∧
      report.failed = fates.filterMap (fun (file, fate) ↦
        fate.failure?.map fun f ↦ ⟨file.name, f⟩) ∧
      report.added.length + report.skipped.length + report.failed.length = files.length := by
  intro fates report
  have hlength : (fates.map Prod.snd).length = files.length := by
    rw [List.length_map]
    exact List.length_mapIdx
  obtain ⟨hadded, hskipped, hfailed⟩ :
      report.added = fates.filterMap (fun (file, fate) ↦ fate.asset?.map fun _ ↦ file.name) ∧
        report.skipped = fates.filterMap (fun (file, fate) ↦
          fate.reason?.map fun r ↦ (file.name, r)) ∧
        report.failed = fates.filterMap fun (file, fate) ↦
          fate.failure?.map fun f ↦ ⟨file.name, f⟩ := by
    simp only [report, add_eq]
    exact ⟨added_eq, skipped_eq, undecoded_eq⟩
  refine ⟨hadded, hskipped, hfailed, ?_⟩
  rw [hadded, hskipped, hfailed, length_filterMap_snd Fate.asset? fun file _ ↦ file.name,
    length_filterMap_snd Fate.reason? fun file r ↦ (file.name, r),
    length_filterMap_snd Fate.failure? fun file f ↦ FailedFile.mk file.name f]
  exact (length_filterMap_fates _).trans hlength

/-! ## What a batch does not depend on -/

/-- Of a file that is skipped, only the name and the media type matter. -/
theorem attempted_congr {others : List Source}
    (hheader : others.map (fun file ↦ (file.name, file.mediaType)) =
      files.map fun file ↦ (file.name, file.mediaType))
    (hsame : ∀ (k : Nat) (file : Source),
      (triage seen files)[k]? = some (file, none) → others[k]? = some file) :
    attempted seen others = attempted seen files ∧ skipped seen others = skipped seen files := by
  induction files generalizing seen others with
  | nil =>
    obtain rfl := List.map_eq_nil_iff.1 hheader
    exact ⟨rfl, rfl⟩
  | cons first rest ih =>
    obtain ⟨other, others, rfl⟩ : ∃ other later, others = other :: later := by
      cases others with
      | nil => cases hheader
      | cons other later => exact ⟨other, later, rfl⟩
    obtain ⟨hfirst, hrest⟩ := List.cons.inj hheader
    obtain ⟨hname, htype⟩ := Prod.mk.inj hfirst
    have hlater := ih hrest fun k file hk ↦ hsame (k + 1) file (by rwa [triage_cons])
    rw [attempted_cons, attempted_cons, skipped_cons, skipped_cons, hname, htype]
    rw [hlater.1, hlater.2]
    refine ⟨?_, rfl⟩
    split
    · rename_i hskip
      have hother : other = first :=
        Option.some.inj (hsame 0 first (by rw [triage_cons, hskip]; rfl))
      rw [hother]
    · rfl

variable {decode' : Decoder} {name : String}

/-- A file is decoded by itself. -/
theorem attempt_congr {file : Source}
    (hdecode : ∀ other, other ≠ name → decode' other = decode other)
    (hfile : file.name ≠ name) : attempt decode' file = attempt decode file := by
  rw [attempt, attempt, Decoder.asTask, Decoder.asTask, hdecode file.name hfile]

/-- If two decoders differ on files of one name only, they make the same assets of all other
names. -/
theorem filter_decoded_congr (hdecode : ∀ other, other ≠ name → decode' other = decode other)
    (files : List Source) :
    (decoded decode' files).filter (fun asset ↦ asset.name ≠ name) =
      (decoded decode files).filter fun asset ↦ asset.name ≠ name := by
  have hnone : ∀ (d : Decoder) (file : Source), file.name = name →
      (attempt d file).toOption.filter (fun asset ↦ asset.name ≠ name) = none := by
    intro d file hfile
    refine Option.filter_eq_none_iff.2 fun asset hasset ↦ ?_
    simp [name_of_attempt hasset, hfile]
  rw [decoded, decoded, List.filter_filterMap, List.filter_filterMap]
  refine List.filterMap_congr fun file _ ↦ ?_
  by_cases hfile : file.name = name
  · rw [hnone decode' file hfile, hnone decode file hfile]
  · rw [attempt_congr hdecode hfile]

theorem filter_undecoded_congr (hdecode : ∀ other, other ≠ name → decode' other = decode other)
    (files : List Source) :
    (undecoded decode' files).filter (fun failed ↦ failed.name ≠ name) =
      (undecoded decode files).filter fun failed ↦ failed.name ≠ name := by
  rw [undecoded, undecoded, List.filter_filterMap, List.filter_filterMap]
  refine List.filterMap_congr fun file _ ↦ ?_
  by_cases hfile : file.name = name
  · cases attempt decode' file <;> cases attempt decode file <;> simp [hfile, Option.filter]
  · rw [attempt_congr hdecode hfile]

theorem filter_assets_congr (hdecode : ∀ other, other ≠ name → decode' other = decode other)
    (files : List Source) (registry : Registry) :
    (registry.add decode' files).2.assets.filter (fun asset ↦ asset.name ≠ name) =
      (registry.add decode files).2.assets.filter fun asset ↦ asset.name ≠ name := by
  have hperm : ∀ d : Decoder,
      ((registry.add d files).2.assets.filter fun asset ↦ asset.name ≠ name).Perm
      ((registry.assets.filter fun asset ↦ asset.name ≠ name) ++
        (decoded d (attempted registry.names files)).filter fun asset ↦ asset.name ≠ name) := by
    intro d
    rw [← List.filter_append]
    exact (perm_add d files registry).filter _
  refine assets_eq_of_perm ?_ ((registry.add decode' files).2.ordered.filter _)
    ((registry.add decode files).2.ordered.filter _)
  have hnew := hperm decode'
  rw [filter_decoded_congr hdecode] at hnew
  exact hnew.trans (hperm decode).symm

/-! ## The whole batch -/

/-- **Every file of a batch meets its fate, and no other file has a part in it.**  The files are
added, skipped or fail as `fates` says, and the three lists keep the order of the batch.  The assets
of the batch join those that were there, in the order of their names.  Of a file that is skipped,
only the name and the media type matter; and however the decoding of files of one name goes, nothing
changes for other names. -/
theorem add_fates (decode : Decoder) (files : List Source) (registry : Registry) :
    let fates := registry.fates decode files
    let report := (registry.add decode files).1
    let after := (registry.add decode files).2
    (report.added = fates.filterMap (fun (file, fate) ↦ fate.asset?.map fun _ ↦ file.name) ∧
      report.skipped = fates.filterMap (fun (file, fate) ↦
        fate.reason?.map fun r ↦ (file.name, r)) ∧
      report.failed = fates.filterMap (fun (file, fate) ↦
        fate.failure?.map fun f ↦ ⟨file.name, f⟩) ∧
      report.added.length + report.skipped.length + report.failed.length = files.length) ∧
    (after.assets.Perm (registry.assets ++ fates.filterMap fun (_, fate) ↦ fate.asset?) ∧
      after.names.Pairwise fun a b ↦ Bytes.ofText a < Bytes.ofText b) ∧
    (∀ others : List Source,
      others.map (fun file ↦ (file.name, file.mediaType)) =
        files.map (fun file ↦ (file.name, file.mediaType)) →
      (∀ (k : Nat) (file : Source) (fate : Fate),
        fates[k]? = some (file, fate) → fate.reason? = none → others[k]? = some file) →
      registry.add decode others = registry.add decode files) ∧
    ∀ (name : String) (decode' : Decoder), (∀ other, other ≠ name → decode' other = decode other) →
      let report' := (registry.add decode' files).1
      let after' := (registry.add decode' files).2
      report'.skipped = report.skipped ∧
        report'.added.filter (· ≠ name) = report.added.filter (· ≠ name) ∧
        report'.failed.filter (fun f ↦ f.name ≠ name) =
          report.failed.filter (fun f ↦ f.name ≠ name) ∧
        after'.assets.filter (fun a ↦ a.name ≠ name) =
          after.assets.filter fun a ↦ a.name ≠ name := by
  intro fates report after
  refine ⟨?_, ⟨?_, names_ascend _⟩, fun others hheader hsame ↦ ?_, fun name decode' hdecode ↦ ?_⟩
  · exact add_report decode files registry
  · rw [← decoded_eq]
    exact perm_add decode files registry
  · have hattempted : ∀ (k : Nat) (file : Source),
        (triage registry.names files)[k]? = some (file, none) → others[k]? = some file := by
      intro k file hk
      refine hsame k file (.of decode file none) ?_ ?_
      · rw [show fates = _ from fates_eq, List.getElem?_map, hk]
        rfl
      · simp only [Fate.of]
        cases decode.asTask file.name file.bytes <;> rfl
    rw [add_eq, add_eq]
    rw [(attempted_congr hheader hattempted).1, (attempted_congr hheader hattempted).2]
  · intro report' after'
    refine ⟨?_, ?_, ?_, filter_assets_congr hdecode files registry⟩
    · simp only [report', report, add_eq]
    · simp only [report', report, add_eq]
      rw [List.filter_map, List.filter_map]
      exact congrArg (List.map Asset.name) (filter_decoded_congr hdecode _)
    · simp only [report', report, add_eq]
      exact filter_undecoded_congr hdecode _

end Registry
end WaveMill
