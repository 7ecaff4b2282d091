import Mathlib.Data.List.Nodup
import Mathlib.Data.Option.Basic
import WaveMill.FileTree.Disk
import WaveMill.Proofs.Disk
import WaveMill.Proofs.Path
import WaveMill.Proofs.Session.Saving

/-!
# Saving all assets into a directory

The names that assets are saved under are compared as wholes when saving is planned, and a directory
keeps of each of them only what stands behind the last slash.  The two agree as long as no asset has
a slash in its name.  Looked at here is what is written, and where, so that this can be said of the
paths.

Carrying out the plans in their own order is carrying out one after the other.  What each of them
comes to does not depend on what the disk held before, except for whether it succeeds, so the run is
described by the plans, their results and the files written, side by side.

## What is here

* `Noting.saveAll` — a disk that takes notes does nothing else.
* `Plan.Delivered` — plans, what carrying out each of them came to, and the files that were written.
* `Plan.runInOrder_range` — the plans in their own order; `Plan.mapM_run_delivered` — and what they
  come to.
* `Session.saveAll_delivered` — the same of a session.
* `Session.saveAll_inDirectory` — what is reported as saved, and the paths that it is found under.
-/

set_option autoImplicit false
namespace WaveMill

open Stateful

variable {σ : Type}

/-! ## With and without notes -/

theorem Noting.saveAll (disk : Disk (StateM σ)) (directory : String) (session : Session)
    (resample : Resampler) :
    Noting (session.saveAll resample (Store.inDirectory disk.traced directory))
      (session.saveAll resample (Store.inDirectory disk directory)) :=
  .saveAllIn (.inDirectory disk directory) session resample

namespace Plan

/-! ## Plans in their own order -/

variable (place : Store (StateM σ))

theorem length_mapM_run (plans : List Plan) (s : σ) :
    (plans.mapM (run place) s).1.length = plans.length := by
  induction plans generalizing s with
  | nil => rfl
  | cons plan rest ih =>
    rw [List.mapM_cons, bind_apply, bind_apply, pure_apply, List.length_cons, ih, List.length_cons]

/-- The plans at consecutive places are carried out one after the other. -/
theorem mapM_runAt_range' (before plans : List Plan) (s : σ) :
    (List.range' before.length plans.length).mapM (runAt place (before ++ plans)) s =
      ((plans.mapM (run place) s).1.mapIdx fun k result ↦ (before.length + k, some result),
        (plans.mapM (run place) s).2) := by
  induction plans generalizing before s with
  | nil => rfl
  | cons plan rest ih =>
    have hplan : (before ++ plan :: rest)[before.length]? = some plan := by simp
    have hrun : runAt place (before ++ plan :: rest) before.length s =
        ((before.length, some (plan.run place s).1), (plan.run place s).2) := by
      rw [runAt, hplan]
      rfl
    have hrest := ih (before ++ [plan]) (plan.run place s).2
    rw [List.length_append, List.length_singleton, List.append_assoc,
      List.singleton_append] at hrest
    rw [List.length_cons, List.range'_succ, List.mapM_cons, bind_apply, hrun, bind_apply, hrest,
      pure_apply, List.mapM_cons, bind_apply, bind_apply, pure_apply, List.mapIdx_cons]
    simp only [Nat.add_zero, Nat.add_assoc, Nat.add_comm 1]

theorem lookup_mapIdx {α β : Type} (f : α → β) (xs : List α) (n k : Nat) :
    (xs.mapIdx fun i a ↦ (n + i, f a)).lookup (n + k) = xs[k]?.map f := by
  induction xs generalizing n k with
  | nil => rfl
  | cons a rest ih =>
    rw [List.mapIdx_cons, List.lookup_cons]
    cases k with
    | zero => simp
    | succ k =>
      have hne : (n + (k + 1) == n + 0) = false := by simp
      have hshift := ih (n + 1) k
      rw [hne, List.getElem?_cons_succ, ← hshift]
      simp only [Nat.add_assoc, Nat.add_comm 1]

/-- **Carrying out the plans in their own order is carrying out one after the other**, on any
store. -/
theorem runInOrder_range (plans : List Plan) (s : σ) :
    runInOrder place plans (List.range plans.length) s =
      (.ofResults (plans.mapM (run place) s).1, (plans.mapM (run place) s).2) := by
  have hrun := mapM_runAt_range' place [] plans s
  rw [List.length_nil, List.nil_append, ← List.range_eq_range'] at hrun
  have hresults : ((List.range plans.length).filterMap fun k ↦
      (((plans.mapM (run place) s).1.mapIdx fun i result ↦ (0 + i, some result)).lookup k).join) =
        (plans.mapM (run place) s).1 := by
    have hlookup (k : Nat) := lookup_mapIdx some (plans.mapM (run place) s).1 0 k
    simp only [Nat.zero_add] at hlookup ⊢
    have hself := Reading.filterMap_range some (plans.mapM (run place) s).1
    rw [List.filterMap_some, length_mapM_run] at hself
    conv_rhs => rw [← hself]
    refine List.filterMap_congr fun k _ ↦ ?_
    rw [hlookup]
    cases (plans.mapM (run place) s).1[k]? <;> rfl
  rw [runInOrder, bind_apply, hrun, pure_apply, hresults]

/-- The output name under which a plan stores a converted file. -/
def stored? : Plan → Option String
  | store _ output (.ok _) => some output
  | _ => none

/-- A plan to store is made for an asset of its name. -/
theorem asset_of_mem_ofAssets {wave : Buffer → Outcome Bytes} {claimed : List (String × String)}
    {assets : List Asset} {name output : String} {result : Outcome Bytes}
    (h : store name output result ∈ ofAssets wave claimed assets) :
    ∃ asset ∈ assets, asset.name = name ∧ outputName asset.name = output ∧
      wave asset.buffer = result := by
  induction assets generalizing claimed with
  | nil => cases h
  | cons asset rest ih =>
    have hlater {claimed : List (String × String)}
        (h : store name output result ∈ ofAssets wave claimed rest) :
        ∃ other ∈ asset :: rest, other.name = name ∧ outputName other.name = output ∧
          wave other.buffer = result := by
      obtain ⟨other, hother, hfacts⟩ := ih h
      exact ⟨other, List.mem_cons_of_mem _ hother, hfacts⟩
    rw [ofAssets] at h
    split at h
    · rcases List.mem_cons.1 h with heq | h
      · cases heq
      · exact hlater h
    · rcases List.mem_cons.1 h with heq | h
      · cases heq
        exact ⟨asset, List.mem_cons_self, rfl, rfl, rfl⟩
      · exact hlater h

/-- If no name is claimed twice, every asset is planned to be stored. -/
theorem ofAssets_eq_map {wave : Buffer → Outcome Bytes} {claimed : List (String × String)}
    {assets : List Asset}
    (h : ∀ name output owner, refuse name output owner ∉ ofAssets wave claimed assets) :
    ofAssets wave claimed assets =
      assets.map fun asset ↦ store asset.name (outputName asset.name) (wave asset.buffer) := by
  induction assets generalizing claimed with
  | nil => rfl
  | cons asset rest ih =>
    rw [ofAssets] at h ⊢
    split
    · rename_i owner howner
      simp only [howner] at h
      exact absurd List.mem_cons_self (h _ _ _)
    · rename_i hfree
      simp only [hfree] at h
      rw [List.map_cons, ih fun name output owner hmem ↦
        h name output owner (List.mem_cons_of_mem _ hmem)]

/-! ## Where the files go -/

/-- Plans, what carrying out each of them came to, and the files that were written, in the same
order.  A plan that succeeds has written one file, under the last name of its output name, and a
plan that fails has written none. -/
inductive Delivered (directory : String) :
    List Plan → List (Except FailedFile String) → List (String × Bytes) → Prop
  | nil : Delivered directory [] [] []
  | written {name output file : String} {bytes : Bytes} {plans : List Plan}
      {results : List (Except FailedFile String)} {files : List (String × Bytes)}
      (hfile : Path.fileName? output = some file) (rest : Delivered directory plans results files) :
      Delivered directory (store name output (.ok bytes) :: plans) (.ok output :: results)
        ((Path.join directory file, bytes) :: files)
  | failed {plan : Plan} {failed : FailedFile} {plans : List Plan}
      {results : List (Except FailedFile String)} {files : List (String × Bytes)}
      (rest : Delivered directory plans results files) :
      Delivered directory (plan :: plans) (.error failed :: results) files

variable (disk : Disk (StateM σ)) (directory : String)

/-- A plan that is carried out writes the file that it was made for, or fails. -/
theorem run_inDirectory (plan : Plan) (written : List (String × Bytes)) (s : σ) :
    (∃ failed s', plan.run (Store.inDirectory disk.traced directory) (written, s) =
      (.error failed, written, s')) ∨
    ∃ name output bytes file s', plan = store name output (.ok bytes) ∧
      Path.fileName? output = some file ∧
      plan.run (Store.inDirectory disk.traced directory) (written, s) =
        (.ok output, written ++ [(Path.join directory file, bytes)], s') := by
  cases plan with
  | refuse name output owner => exact .inl ⟨_, s, rfl⟩
  | store name output wave =>
    cases wave with
    | error failure => exact .inl ⟨_, s, rfl⟩
    | ok bytes =>
      rw [run, bind_apply]
      rcases Store.inDirectory_traced_apply disk directory output bytes written s with
        ⟨failure, s', hstored⟩ | ⟨file, s', hfile, hstored⟩
      · exact .inl ⟨_, s', by rw [hstored]; rfl⟩
      · exact .inr ⟨name, output, bytes, file, s', rfl, hfile, by rw [hstored]; rfl⟩

/-- Carrying out plans writes what is written by each of them. -/
theorem mapM_run_delivered (plans : List Plan) (written : List (String × Bytes)) (s : σ) :
    ∃ results files s',
      plans.mapM (run (Store.inDirectory disk.traced directory)) (written, s) =
        (results, written ++ files, s') ∧
      Delivered directory plans results files := by
  induction plans generalizing written s with
  | nil => exact ⟨[], [], s, by rw [List.append_nil]; rfl, .nil⟩
  | cons plan rest ih =>
    rw [List.mapM_cons, bind_apply]
    rcases run_inDirectory disk directory plan written s with
      ⟨failed, s₁, hrun⟩ | ⟨name, output, bytes, file, s₁, rfl, hfile, hrun⟩
    · obtain ⟨results, files, s₂, hrest, hdelivered⟩ := ih written s₁
      refine ⟨.error failed :: results, files, s₂, ?_, hdelivered.failed⟩
      rw [hrun, bind_apply, hrest, pure_apply]
    · obtain ⟨results, files, s₂, hrest, hdelivered⟩ :=
        ih (written ++ [(Path.join directory file, bytes)]) s₁
      refine ⟨.ok output :: results, (Path.join directory file, bytes) :: files, s₂, ?_,
        hdelivered.written hfile⟩
      rw [hrun, bind_apply, hrest, pure_apply, List.append_assoc, List.singleton_append]

namespace Delivered

variable {directory} {plans : List Plan} {results : List (Except FailedFile String)}
  {files : List (String × Bytes)}

/-- The files are written under the last names of what is reported as saved. -/
theorem paths_eq (h : Delivered directory plans results files) :
    files.map (fun file ↦ some file.1) =
      (results.filterMap Except.toOption).map fun output ↦
        (Path.fileName? output).map (Path.join directory) := by
  induction h with
  | nil => rfl
  | written hfile _ ih => simp [Except.toOption, hfile, ih]
  | failed _ ih => rwa [List.filterMap_cons_none rfl]

/-- The paths that were written are all different exactly if the last names of what is reported as
saved are. -/
theorem nodup_paths_iff (h : Delivered directory plans results files) :
    (files.map Prod.fst).Nodup ↔
      ((results.filterMap Except.toOption).map Path.fileName?).Nodup := by
  have hjoin : Function.Injective (Option.map (Path.join directory)) :=
    Option.map_injective fun _ _ ↦ Path.join_inj.1
  calc (files.map Prod.fst).Nodup
      ↔ (files.map fun file ↦ some file.1).Nodup := by
        rw [← List.nodup_map_iff (Option.some_injective String), List.map_map]
        rfl
    _ ↔ (((results.filterMap Except.toOption).map Path.fileName?).map
          (Option.map (Path.join directory))).Nodup := by
        rw [h.paths_eq, List.map_map]
        rfl
    _ ↔ ((results.filterMap Except.toOption).map Path.fileName?).Nodup :=
        List.nodup_map_iff hjoin

/-- What is saved was planned, in this order. -/
theorem saved_sublist (h : Delivered directory plans results files) :
    (results.filterMap Except.toOption).Sublist (plans.filterMap stored?) := by
  induction h with
  | nil => exact .slnil
  | written hfile _ ih => simpa [Except.toOption, stored?] using ih
  | @failed plan failed plans results files _ ih =>
    rw [Reading.filterMap_cons, Reading.filterMap_cons]
    exact List.sublist_append_of_sublist_right ih

/-- Every file that is written was planned. -/
theorem origin (h : Delivered directory plans results files) :
    ∀ file ∈ files, ∃ name output, store name output (.ok file.2) ∈ plans ∧
      (Path.fileName? output).map (Path.join directory) = some file.1 := by
  induction h with
  | nil => simp
  | @written name output file bytes plans results files hfile _ ih =>
    intro written hwritten
    rcases List.mem_cons.1 hwritten with rfl | hwritten
    · exact ⟨name, output, List.mem_cons_self, by rw [hfile]; rfl⟩
    · obtain ⟨name, output, hplan, hpath⟩ := ih written hwritten
      exact ⟨name, output, List.mem_cons_of_mem _ hplan, hpath⟩
  | failed _ ih =>
    intro written hwritten
    obtain ⟨name, output, hplan, hpath⟩ := ih written hwritten
    exact ⟨name, output, List.mem_cons_of_mem _ hplan, hpath⟩

/-- If no plan has failed, there is one file for every plan. -/
theorem forall₂_of_complete (h : Delivered directory plans results files)
    (hcomplete : (SaveReport.ofResults results).failed = []) :
    List.Forall₂ (fun plan file ↦ ∃ name output, plan = store name output (.ok file.2) ∧
      (Path.fileName? output).map (Path.join directory) = some file.1) plans files := by
  induction h with
  | nil => exact .nil
  | @written name output file bytes plans results files hfile _ ih =>
    exact .cons ⟨name, output, rfl, by rw [hfile]; rfl⟩ (ih hcomplete)
  | @failed plan failed plans results files _ _ =>
    have hcons : failed :: (SaveReport.ofResults results).failed = [] := hcomplete
    cases hcons

end Delivered
end Plan

namespace Session

variable (session : Session) (resample : Resampler)

/-- The output names under which converted files are stored are all different. -/
theorem nodup_stored : ((session.plans resample).filterMap Plan.stored?).Nodup := by
  have hsaved := session.nodup_saved resample fun _ ↦ .ok ()
  rw [savings_eq, List.filterMap_map] at hsaved
  convert hsaved using 2 with plan
  cases plan with
  | refuse => rfl
  | store name output wave => cases wave <;> rfl

/-- A plan to store a converted file is the plan of an asset. -/
theorem asset_of_store {name output : String} {bytes : Bytes}
    (h : Plan.store name output (.ok bytes) ∈ session.plans resample) :
    ∃ asset ∈ session.registry.assets, asset.name = name ∧ outputName asset.name = output ∧
      WaveMill.convert resample session.config asset.buffer = .ok bytes :=
  Plan.asset_of_mem_ofAssets h

theorem asset_of_stored {output : String}
    (h : output ∈ (session.plans resample).filterMap Plan.stored?) :
    ∃ asset ∈ session.registry.assets, outputName asset.name = output := by
  obtain ⟨plan, hplan, hstored⟩ := List.mem_filterMap.1 h
  cases plan with
  | refuse => cases hstored
  | store name planned wave =>
    cases wave with
    | error => cases hstored
    | ok bytes =>
      obtain ⟨asset, hasset, -, houtput, -⟩ := session.asset_of_store resample hplan
      exact ⟨asset, hasset, houtput.trans (Option.some.inj hstored)⟩

variable {directory : String} {results : List (Except FailedFile String)}
  {files : List (String × Bytes)}

theorem nodup_saved_of_delivered
    (h : Plan.Delivered directory (session.plans resample) results files) :
    (results.filterMap Except.toOption).Nodup :=
  h.saved_sublist.nodup (session.nodup_stored resample)

/-- As long as no asset has a slash in its name, no two files are under one path. -/
theorem nodup_paths (h : Plan.Delivered directory (session.plans resample) results files)
    (hslash : ∀ asset ∈ session.registry.assets, '/' ∉ asset.name.toList) :
    (files.map Prod.fst).Nodup := by
  rw [h.nodup_paths_iff]
  have hself : (results.filterMap Except.toOption).map Path.fileName? =
      (results.filterMap Except.toOption).map some := by
    refine List.map_congr_left fun output houtput ↦ ?_
    obtain ⟨asset, hasset, rfl⟩ :=
      session.asset_of_stored resample (h.saved_sublist.subset houtput)
    exact Path.fileName?_of_isName (isName_outputName (hslash asset hasset))
  rw [hself]
  exact (session.nodup_saved_of_delivered resample h).map (Option.some_injective String)

/-- If no asset has failed, there is one file for every asset. -/
theorem forall₂_of_complete
    (h : Plan.Delivered directory (session.plans resample) results files)
    (hcomplete : (SaveReport.ofResults results).failed = []) :
    List.Forall₂ (fun asset file ↦
      (Path.fileName? (outputName asset.name)).map (Path.join directory) = some file.1 ∧
        WaveMill.convert resample session.config asset.buffer = .ok file.2)
      session.registry.assets files := by
  have hfiles := h.forall₂_of_complete hcomplete
  have hplans : session.plans resample = session.registry.assets.map fun asset ↦
      Plan.store asset.name (outputName asset.name)
        (WaveMill.convert resample session.config asset.buffer) := by
    refine Plan.ofAssets_eq_map fun name output owner hmem ↦ ?_
    obtain ⟨file, -, _, _, hstore, -⟩ := Reading.exists_of_forall₂ hfiles hmem
    cases hstore
  rw [hplans, List.forall₂_map_left_iff] at hfiles
  refine hfiles.imp fun asset file hfile ↦ ?_
  obtain ⟨name, output, hplan, hpath⟩ := hfile
  obtain ⟨-, rfl, hconvert⟩ := Plan.store.inj hplan
  exact ⟨hpath, hconvert⟩

/-- Saving all assets of a session into a directory. -/
theorem saveAll_delivered (disk : Disk (StateM σ)) (directory : String)
    (written : List (String × Bytes)) (s : σ) :
    ∃ results files s' session',
      session.saveAll resample (Store.inDirectory disk.traced directory) (written, s) =
        ((.ofResults results, session'), written ++ files, s') ∧
      Plan.Delivered directory (session.plans resample) results files := by
  obtain ⟨results, files, s', hrun, hdelivered⟩ :=
    Plan.mapM_run_delivered disk directory (session.plans resample) written s
  refine ⟨results, files, s',
    if (session.plans resample).isEmpty then session else (onPlayer Player.settle session).2, ?_,
    hdelivered⟩
  rw [saveAll, bind_apply, Plan.runInOrder_range, hrun]
  rfl

/-- **What is reported as saved is found under the last names of its output names.**  The output
names are all different.  Their last names need not be: the files are under different paths exactly
if they are, and so they are as long as no asset has a slash in its name. -/
theorem saveAll_inDirectory (disk : Disk (StateM σ)) (directory : String)
    (written : List (String × Bytes)) (s : σ) :
    let outcome := session.saveAll resample (Store.inDirectory disk.traced directory) (written, s)
    let saved := outcome.1.1.saved
    session.saveAll resample (Store.inDirectory disk directory) s = (outcome.1, outcome.2.2) ∧
    ∃ files, outcome.2.1 = written ++ files ∧ saved.Nodup ∧
      files.map (fun file ↦ some file.1) =
        saved.map (fun output ↦ (Path.fileName? output).map (Path.join directory)) ∧
      (∀ file ∈ files, ∃ asset ∈ session.registry.assets,
        (Path.fileName? (outputName asset.name)).map (Path.join directory) = some file.1 ∧
          WaveMill.convert resample session.config asset.buffer = .ok file.2) ∧
      ((files.map Prod.fst).Nodup ↔ (saved.map Path.fileName?).Nodup) ∧
      ((∀ asset ∈ session.registry.assets, '/' ∉ asset.name.toList) →
        (files.map Prod.fst).Nodup) := by
  intro outcome saved
  obtain ⟨results, files, s', session', hrun, hdelivered⟩ :=
    session.saveAll_delivered resample disk directory written s
  have hsaved : saved = results.filterMap Except.toOption := congrArg (·.1.1.saved) hrun
  have hnodup : saved.Nodup := by
    rw [hsaved]
    exact session.nodup_saved_of_delivered resample hdelivered
  have hpaths := hdelivered.paths_eq
  rw [← hsaved] at hpaths
  have horigin : ∀ file ∈ files, ∃ asset ∈ session.registry.assets,
      (Path.fileName? (outputName asset.name)).map (Path.join directory) = some file.1 ∧
        WaveMill.convert resample session.config asset.buffer = .ok file.2 := by
    intro file hfile
    obtain ⟨name, output, hplan, hpath⟩ := hdelivered.origin file hfile
    obtain ⟨asset, hasset, -, houtput, hconvert⟩ := session.asset_of_store resample hplan
    exact ⟨asset, hasset, houtput ▸ hpath, hconvert⟩
  have hiff : (files.map Prod.fst).Nodup ↔ (saved.map Path.fileName?).Nodup := by
    rw [hsaved]
    exact hdelivered.nodup_paths_iff
  have hplain : session.saveAll resample (Store.inDirectory disk directory) s =
      (outcome.1, outcome.2.2) := (Noting.saveAll disk directory session resample).eq written s
  exact ⟨hplain, files, congrArg (·.2.1) hrun, hnodup, hpaths, horigin, hiff,
    session.nodup_paths resample hdelivered⟩

/-- A buffer of two channels that hold nothing. -/
def silence : Buffer where
  channels := [#[], #[]]
  rate := 16000
  channels_ne_nil := List.cons_ne_nil _ _
  length_channels_le := by decide
  size_eq := by decide
  rate_pos := by decide

/-- A session with two assets that have different output names with the same last name. -/
def sharingLastName : Session where
  registry := (Registry.empty.insert ⟨"a/x.mp3", silence, 1⟩).insert ⟨"b/x.mp3", silence, 1⟩
  player := .new (.new .manual)
  config := ⟨16000, 1, .both⟩

/-- Two assets are reported as saved, and there is one file. -/
theorem saveAll_sharingLastName :
    let outcome := sharingLastName.saveAll Resample.linear
      (Store.inDirectory FileTree.disk "out") FileTree.empty
    outcome.1.1.saved = ["a/x.wav", "b/x.wav"] ∧ outcome.1.1.failed = [] ∧
      outcome.2.files.map Prod.fst = [["out", "x.wav"]] := by
  decide +kernel

end Session
end WaveMill
