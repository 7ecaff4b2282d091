import WaveMill.Proofs.Registry.Batch

/-!
# Batches taken apart and rearranged

A file stands in the way of a later one only by its name.  If the audio files of a batch have names
of their own, what becomes of a file can be said without looking at the rest of the batch
(`Registry.triage_of_nodup`), and then the order of the batch has nothing left to decide.  The same
holds of a batch that is cut in two: what the first part leaves behind in the registry are names of
its own audio files, which no audio file of the second part has (`Registry.skipReason?_names_add`).

What is left is the registry itself.  It is known by its assets up to their order, because it holds
them in the order of their names (`Registry.eq_of_perm`); so it does not matter which of them came
first.

## What is here

* `Registry.attempted_of_nodup`, `Registry.skipped_of_nodup` — every file is sorted out by itself.
* `Registry.add_perm` — a batch in another order, `Registry.add_append` — a batch in two parts.
* `Registry.add_regrouped` — both together.
-/

set_option autoImplicit false
namespace WaveMill
namespace Registry

variable {decode : Decoder} {seen : List String} {files others first second : List Source}

/-- The names of the files of a batch that claim to be audio. -/
def audioNames (files : List Source) : List String := (files.filter Source.isAudio).map Source.name

theorem mem_audioNames {name : String} :
    name ∈ audioNames files ↔ ∃ file ∈ files, file.isAudio = true ∧ file.name = name := by
  simp [audioNames, and_assoc]

theorem audioNames_append :
    audioNames (first ++ second) = audioNames first ++ audioNames second := by
  rw [audioNames, List.filter_append, List.map_append, audioNames, audioNames]

/-! ## Every file by itself -/

/-- Whether a file is skipped depends on the names that are taken only as far as its own name
goes, and only if it claims to be audio. -/
theorem skipReason?_congr {seen' : List String} {earlier earlier' : List Source} {file : Source}
    (h : file.isAudio = true →
      (file.name ∈ seen ∨ file.name ∈ audioNames earlier ↔
        file.name ∈ seen' ∨ file.name ∈ audioNames earlier')) :
    skipReason? seen earlier file = skipReason? seen' earlier' file := by
  simp only [mem_audioNames, isAudio_iff] at h
  rw [skipReason?, skipReason?]
  by_cases haudio : "audio/".toList <+: file.mediaType.toList
  · simp only [h haudio]
  · rw [if_pos haudio, if_pos haudio]

/-- If the audio files of a batch have names of their own, every file is sorted out by itself. -/
theorem triage_of_nodup (hnames : (audioNames files).Nodup) :
    triage seen files = files.map fun file ↦ (file, skipReason? seen [] file) := by
  rw [triage_eq]
  apply List.ext_getElem
  · simp
  · intro k hk _
    rw [List.length_mapIdx] at hk
    rw [List.getElem_mapIdx, List.getElem_map]
    refine congrArg (Prod.mk files[k]) (skipReason?_congr fun haudio ↦ or_congr_right ?_)
    have hsplit : files = files.take k ++ files[k] :: files.drop (k + 1) := by
      rw [← List.drop_eq_getElem_cons hk, List.take_append_drop]
    have hother : files[k].name ∉ audioNames (files.take k) := by
      intro hmem
      rw [hsplit, audioNames_append] at hnames
      refine List.disjoint_of_nodup_append hnames hmem (mem_audioNames.2 ?_)
      exact ⟨files[k], List.mem_cons_self, haudio, rfl⟩
    exact iff_of_false hother List.not_mem_nil

theorem attempted_of_nodup (hnames : (audioNames files).Nodup) :
    attempted seen files = files.filter fun file ↦ (skipReason? seen [] file).isNone := by
  rw [attempted, triage_of_nodup hnames, List.filterMap_map, ← List.filterMap_eq_filter]
  rfl

theorem skipped_of_nodup (hnames : (audioNames files).Nodup) :
    skipped seen files = files.filterMap fun file ↦
      (skipReason? seen [] file).map fun reason ↦ (file.name, reason) := by
  rw [skipped, triage_of_nodup hnames, List.filterMap_map]
  rfl

/-! ## A batch in another order -/

/-- A registry is known by its assets, in whatever order they are listed. -/
theorem eq_of_perm {registry other : Registry} (h : registry.assets.Perm other.assets) :
    registry = other := by
  obtain ⟨assets, hordered⟩ := registry
  obtain ⟨assets', hordered'⟩ := other
  obtain rfl : assets = assets' := assets_eq_of_perm h hordered hordered'
  rfl

theorem nodup_audioNames_of_perm (h : others.Perm files) (hnames : (audioNames files).Nodup) :
    (audioNames others).Nodup :=
  (((h.filter Source.isAudio).map Source.name).nodup_iff).2 hnames

/-- A batch in another order adds the same assets, and reports the same files in another order. -/
theorem add_perm (decode : Decoder) (registry : Registry) (h : others.Perm files)
    (hnames : (audioNames files).Nodup) :
    (registry.add decode others).2 = (registry.add decode files).2 ∧
      (registry.add decode others).1.added.Perm (registry.add decode files).1.added ∧
      (registry.add decode others).1.skipped.Perm (registry.add decode files).1.skipped ∧
      (registry.add decode others).1.failed.Perm (registry.add decode files).1.failed := by
  have hattempted : (attempted registry.names others).Perm (attempted registry.names files) := by
    rw [attempted_of_nodup hnames, attempted_of_nodup (nodup_audioNames_of_perm h hnames)]
    exact h.filter _
  have hdecoded : (decoded decode (attempted registry.names others)).Perm
      (decoded decode (attempted registry.names files)) :=
    hattempted.filterMap _
  refine ⟨eq_of_perm ?_, ?_⟩
  · have hadded := (perm_add decode others registry).trans (hdecoded.append_left _)
    exact hadded.trans (perm_add decode files registry).symm
  · rw [add_eq, add_eq]
    refine ⟨hdecoded.map _, ?_, hattempted.filterMap _⟩
    rw [skipped_of_nodup hnames, skipped_of_nodup (nodup_audioNames_of_perm h hnames)]
    exact h.filterMap _

/-! ## A batch in two parts -/

theorem mem_audioNames_of_decoded (hnames : (audioNames files).Nodup) {name : String}
    (h : name ∈ (decoded decode (attempted seen files)).map Asset.name) :
    name ∈ audioNames files := by
  rw [names_decoded, attempted_of_nodup hnames, List.mem_filterMap] at h
  obtain ⟨file, hfile, hname⟩ := h
  obtain ⟨hfile, hattempted⟩ := List.mem_filter.1 hfile
  obtain ⟨asset, -, rfl⟩ := Option.map_eq_some_iff.1 hname
  have haudio := (skipReason?_eq_none_iff.1 (Option.isNone_iff_eq_none.1 hattempted)).1
  exact mem_audioNames.2 ⟨file, hfile, isAudio_iff.2 haudio, rfl⟩

/-- What the first part of a batch leaves in the registry takes no name that an audio file of the
second part has. -/
theorem skipReason?_names_add (decode : Decoder) (registry : Registry)
    (hnames : (audioNames (first ++ second)).Nodup) {file : Source} (hfile : file ∈ second) :
    skipReason? (registry.add decode first).2.names [] file =
      skipReason? registry.names [] file := by
  rw [audioNames_append] at hnames
  refine skipReason?_congr fun haudio ↦ or_congr_left ?_
  have hother : file.name ∉
      (decoded decode (attempted registry.names first)).map Asset.name := by
    intro hmem
    have hfirst := mem_audioNames_of_decoded hnames.of_append_left hmem
    exact List.disjoint_of_nodup_append hnames hfirst (mem_audioNames.2 ⟨file, hfile, haudio, rfl⟩)
  rw [names, ((perm_add decode first registry).map Asset.name).mem_iff, List.map_append,
    List.mem_append, names]
  exact or_iff_left hother

/-- A batch that is added in two parts adds the same assets, and the two reports together are the
report on the whole batch. -/
theorem add_append (decode : Decoder) (registry : Registry)
    (hnames : (audioNames (first ++ second)).Nodup) :
    let whole := registry.add decode (first ++ second)
    let one := registry.add decode first
    let two := one.2.add decode second
    two.2 = whole.2 ∧ one.1.added ++ two.1.added = whole.1.added ∧
      one.1.skipped ++ two.1.skipped = whole.1.skipped ∧
      one.1.failed ++ two.1.failed = whole.1.failed := by
  intro whole one two
  have hboth := audioNames_append ▸ hnames
  have hfirst : (audioNames first).Nodup := hboth.of_append_left
  have hsecond : (audioNames second).Nodup := hboth.of_append_right
  have hsorted : ∀ file ∈ second,
      skipReason? one.2.names [] file = skipReason? registry.names [] file := fun file hfile ↦
    skipReason?_names_add decode registry hnames hfile
  have hattempted : attempted registry.names (first ++ second) =
      attempted registry.names first ++ attempted one.2.names second := by
    rw [attempted_of_nodup hnames, attempted_of_nodup hfirst, attempted_of_nodup hsecond,
      List.filter_append]
    refine congrArg _ (List.filter_congr fun file hfile ↦ ?_)
    rw [hsorted file hfile]
  have hskipped : skipped registry.names (first ++ second) =
      skipped registry.names first ++ skipped one.2.names second := by
    rw [skipped_of_nodup hnames, skipped_of_nodup hfirst, skipped_of_nodup hsecond,
      List.filterMap_append]
    refine congrArg _ (List.filterMap_congr fun file hfile ↦ ?_)
    rw [hsorted file hfile]
  have hdecoded : decoded decode (attempted registry.names (first ++ second)) =
      decoded decode (attempted registry.names first) ++
        decoded decode (attempted one.2.names second) := by
    rw [hattempted, decoded, List.filterMap_append, decoded, decoded]
  refine ⟨eq_of_perm ?_, ?_, ?_, ?_⟩
  · have hwhole := perm_add decode (first ++ second) registry
    rw [hdecoded, ← List.append_assoc] at hwhole
    have hone : one.2.assets.Perm (registry.assets ++ decoded decode
      (attempted registry.names first)) := perm_add decode first registry
    exact (perm_add decode second one.2).trans ((hone.append_right _).trans hwhole.symm)
  · show (registry.add decode first).1.added ++ (one.2.add decode second).1.added =
      (registry.add decode (first ++ second)).1.added
    rw [add_eq decode first, add_eq decode second, add_eq decode (first ++ second)]
    simp only [hdecoded, List.map_append]
  · show (registry.add decode first).1.skipped ++ (one.2.add decode second).1.skipped =
      (registry.add decode (first ++ second)).1.skipped
    rw [add_eq decode first, add_eq decode second, add_eq decode (first ++ second)]
    exact hskipped.symm
  · show (registry.add decode first).1.failed ++ (one.2.add decode second).1.failed =
      (registry.add decode (first ++ second)).1.failed
    rw [add_eq decode first, add_eq decode second, add_eq decode (first ++ second)]
    simp only [hattempted, undecoded, List.filterMap_append]

/-! ## The batch as a whole -/

/-- **A batch may be rearranged and cut in two.**  If the audio files of a batch have names of their
own, the registry is the same afterwards whatever order the batch comes in, and the reports name the
same files.  It is also the same if the batch is cut anywhere and the two parts are added one after
the other, and then the two reports together are the report on the whole batch.  The files that are
no audio may have any names. -/
theorem add_regrouped (decode : Decoder) (registry : Registry) (files : List Source)
    (hnames : ((files.filter Source.isAudio).map Source.name).Nodup) :
    let whole := registry.add decode files
    (∀ others : List Source, others.Perm files →
      let other := registry.add decode others
      other.2 = whole.2 ∧ other.1.added.Perm whole.1.added ∧
        other.1.skipped.Perm whole.1.skipped ∧ other.1.failed.Perm whole.1.failed) ∧
    ∀ first second : List Source, first ++ second = files →
      let one := registry.add decode first
      let two := one.2.add decode second
      two.2 = whole.2 ∧ one.1.added ++ two.1.added = whole.1.added ∧
        one.1.skipped ++ two.1.skipped = whole.1.skipped ∧
        one.1.failed ++ two.1.failed = whole.1.failed := by
  intro whole
  refine ⟨fun others hothers ↦ add_perm decode registry hothers hnames, fun first second hcut ↦ ?_⟩
  obtain rfl := hcut
  exact add_append decode registry hnames

/-- A decoder that takes whatever is not empty. -/
def lenient : Decoder := fun name bytes ↦
  if bytes = [] then .error (.decode name .unrecognized) else Buffer.mono #[0.5] 8000

/-- A batch with a file that is there already, one that fails, and two of the same name that are no
audio. -/
def mixedBatch : List Source :=
  [⟨"c.wav", "audio/wav", [1]⟩, ⟨"a.txt", "text/plain", []⟩, ⟨"a.wav", "audio/wav", []⟩,
    ⟨"a.txt", "text/plain", []⟩, ⟨"b.wav", "audio/wav", [1]⟩, ⟨"a.mp3", "audio/mpeg", [1]⟩]

theorem add_regrouped_mixedBatch :
    let registry := (empty.add lenient [⟨"b.wav", "audio/wav", [1]⟩]).2
    let backwards := registry.add lenient mixedBatch.reverse
    let one := registry.add lenient (mixedBatch.take 3)
    let two := one.2.add lenient (mixedBatch.drop 3)
    ((mixedBatch.filter Source.isAudio).map Source.name).Nodup ∧
      backwards.2.names = ["a.mp3", "b.wav", "c.wav"] ∧ two.2 = backwards.2 ∧
      (one.1.skipped ++ two.1.skipped).Perm backwards.1.skipped ∧
      backwards.1.skipped = [("b.wav", .duplicateName), ("a.txt", .notAudio "text/plain"),
        ("a.txt", .notAudio "text/plain")] ∧
      one.1.failed ++ two.1.failed = [⟨"a.wav", .decode "a.wav" .unrecognized⟩] := by
  intro registry backwards one two
  have hnames : ((mixedBatch.filter Source.isAudio).map Source.name).Nodup := by decide
  obtain ⟨hperm, hcut⟩ := add_regrouped lenient registry mixedBatch hnames
  obtain ⟨hbackwards, -, hskipped, -⟩ := hperm _ mixedBatch.reverse_perm
  obtain ⟨htwo, -, hparts, -⟩ := hcut _ _ (List.take_append_drop 3 mixedBatch)
  refine ⟨hnames, by decide +kernel, htwo.trans hbackwards.symm, ?_, by decide +kernel,
    by decide +kernel⟩
  rw [hparts]
  exact hskipped.symm

end Registry
end WaveMill
