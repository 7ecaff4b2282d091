import Mathlib.Data.List.Induction
import WaveMill.Proofs.Playback.Run
import WaveMill.Proofs.Session.Saving

/-!
# Saving all assets at the same time

All assets are saved at the same time, each by a task of its own, which converts in its first turn
and stores in its second.  A schedule says whose turn it is.  Which one it is makes no difference: a
task is as far as the number of its turns says, whatever the others do meanwhile, and since no two
tasks store under the same name, what is found under a name in the end does not depend on the order
in which the files came.

Nor does anything depend on how the task of another asset goes.  The plan of an asset depends on the
other assets by their names alone, so that a conversion that goes differently, or is aborted, shows
in one result and under one name.

## What is here

* `Task`, `Task.turn` and `Session.carryOut` — tasks, and what a schedule makes of them.
* `Task.step_step` — carrying out a plan comes to two turns of its task.
* `Plan.task` and `Task.foldlM_turn_apply` — how far a task has come by the number of its turns.
* `Session.owner?` — the asset that an output name belongs to; `Session.get?_of_order` — what is
  found under the name.
* `Session.saveAll_unordered` — a schedule makes no difference, and neither do the other assets.
-/

set_option autoImplicit false
namespace WaveMill

open Stateful

/-- How far the task of an asset has come. -/
inductive Task where
  /-- The asset is to be converted, which has the given outcome. -/
  | spawned (name output : String) (wave : Outcome Bytes)
  /-- It was converted, and the file is to be stored. -/
  | converted (name output : String) (bytes : Bytes)
  | finished (result : Except FailedFile String)

namespace Task

/-- The task of a plan.  For an asset whose output name is taken there is nothing to do. -/
def ofPlan : Plan → Task
  | .refuse name output owner => finished (.error ⟨name, .persist name (.taken output owner)⟩)
  | .store name output wave => spawned name output wave

variable {m : Type → Type} [Monad m]

/-- One turn of a task.  One that is finished does nothing any more. -/
def step (place : Store m) : Task → m Task
  | spawned name _ (.error failure) =>
    return finished (.error ⟨name, Plan.taskFailure name failure⟩)
  | spawned name output (.ok bytes) => return converted name output bytes
  | converted name output bytes => do
    match ← place output bytes with
    | .error failure => return finished (.error ⟨name, Plan.taskFailure name failure⟩)
    | .ok () => return finished (.ok output)
  | finished result => return finished result

/-- The tasks after it was the turn of one of them. -/
def turn (place : Store m) (tasks : List Task) (k : Nat) : m (List Task) := do
  match tasks[k]? with
  | none => return tasks
  | some task => return tasks.set k (← task.step place)

/-- The result of a task, if it is finished. -/
def result? : Task → Option (Except FailedFile String)
  | finished result => some result
  | _ => none

/-- Every task has a result. -/
def Finished (tasks : List Task) : Prop := ∀ task ∈ tasks, task.result?.isSome

/-- The report on tasks that are finished. -/
def report (tasks : List Task) : SaveReport := .ofResults (tasks.filterMap result?)

end Task

/-- The tasks that save the assets of a session, after the turns of a schedule. -/
def Session.carryOut {m : Type → Type} [Monad m] (session : Session) (resample : Resampler)
    (place : Store m) (schedule : List Nat) : m (List Task) :=
  schedule.foldlM (Task.turn place) ((session.plans resample).map Task.ofPlan)

variable {verdict : String → Outcome Unit}

/-! ## How far a task has come -/

/-- **Carrying out a plan comes to two turns of its task**, with whatever store. -/
theorem Task.step_step {m : Type → Type} [Monad m] [LawfulMonad m] (place : Store m) (plan : Plan) :
    (do (← (ofPlan plan).step place).step place) = finished <$> plan.run place := by
  cases plan with
  | refuse name output owner => simp [ofPlan, step, Plan.run]
  | store name output wave =>
    cases wave with
    | error failure => simp [ofPlan, step, Plan.run]
    | ok bytes =>
      simp only [ofPlan, step, Plan.run, pure_bind, map_bind]
      refine bind_congr fun result ↦ ?_
      cases result <;> simp

namespace Plan

/-- The task of a plan after some turns. -/
def task (verdict : String → Outcome Unit) (plan : Plan) : Nat → Task
  | 0 => .ofPlan plan
  | 1 =>
    match plan with
    | store name output (.ok bytes) => .converted name output bytes
    | _ => .finished (plan.result verdict)
  | _ => .finished (plan.result verdict)

/-- With its second turn a task stores its file, if the store takes it. -/
theorem step_task (plan : Plan) (turns : Nat) (shelf : Shelf) :
    (plan.task verdict turns).step (Shelf.storeIf verdict) shelf =
      (plan.task verdict (turns + 1),
        ⟨shelf.blobs ++ if turns = 1 then (plan.saving verdict).blob?.toList else []⟩) := by
  -- only the turn after a conversion concerns the shelf
  have hkeep : shelf = ⟨shelf.blobs ++ []⟩ := by rw [List.append_nil]
  match turns, plan with
  | 0, refuse name output owner => exact Prod.ext rfl hkeep
  | 0, store name output (.error failure) => exact Prod.ext rfl hkeep
  | 0, store name output (.ok bytes) => exact Prod.ext rfl hkeep
  | 1, refuse name output owner => exact Prod.ext rfl hkeep
  | 1, store name output (.error failure) => exact Prod.ext rfl hkeep
  | 1, store name output (.ok bytes) =>
    have hsaving : (store name output (.ok bytes)).saving verdict =
        ⟨name, output, fate verdict (store name output (.ok bytes))⟩ := rfl
    have hlast : (store name output (.ok bytes)).task verdict (1 + 1) =
        .finished ((store name output (.ok bytes)).result verdict) := rfl
    rw [hlast, task, Task.step, bind_apply, Shelf.storeIf, result, if_pos rfl, hsaving, fate]
    cases verdict output with
    | error failure => exact Prod.ext rfl hkeep
    | ok => rfl
  | _ + 2, _ => exact Prod.ext rfl hkeep

/-- The file that is stored for the plan at a place of a list. -/
def blobAt? (verdict : String → Outcome Unit) (plans : List Plan) (k : Nat) :
    Option (String × Bytes) :=
  plans[k]?.bind fun plan ↦ (plan.saving verdict).blob?

/-- Only a converted file is stored, under the output name of its asset. -/
theorem eq_store_of_blob {plan : Plan} {output : String} {bytes : Bytes}
    (h : (plan.saving verdict).blob? = some (output, bytes)) :
    ∃ name, plan = store name output (.ok bytes) := by
  cases plan with
  | refuse => cases h
  | store name own wave =>
    cases wave with
    | error => cases h
    | ok wave =>
      simp only [saving, fate, Saving.blob?, Plan.output] at h
      cases hverdict : verdict own with
      | error => simp [hverdict] at h
      | ok =>
        simp only [hverdict, Option.some.injEq, Prod.mk.injEq] at h
        exact ⟨name, by rw [h.1, h.2]⟩

/-- A task that is finished has the result of its plan, and nothing is left to store. -/
theorem task_of_finished {plan : Plan} {turns : Nat}
    (h : (plan.task verdict turns).result?.isSome) :
    plan.task verdict turns = .finished (plan.result verdict) ∧
      (turns < 2 → (plan.saving verdict).blob? = none) := by
  match turns, plan with
  | 0, refuse name output owner => exact ⟨rfl, fun _ ↦ rfl⟩
  | 0, store name output (.error failure) => cases h
  | 0, store name output (.ok bytes) => cases h
  | 1, refuse name output owner => exact ⟨rfl, fun _ ↦ rfl⟩
  | 1, store name output (.error failure) => exact ⟨rfl, fun _ ↦ rfl⟩
  | 1, store name output (.ok bytes) => cases h
  | _ + 2, _ => exact ⟨rfl, fun hturns ↦ absurd hturns (by omega)⟩

end Plan

namespace Task

/-- The next turn changes one task, which may store its file. -/
theorem turn_apply (plans : List Plan) (turns : Nat → Nat) (k : Nat) (shelf : Shelf) :
    turn (Shelf.storeIf verdict) (plans.mapIdx fun n plan ↦ plan.task verdict (turns n)) k shelf =
      (plans.mapIdx fun n plan ↦ plan.task verdict (turns n + if k = n then 1 else 0),
        ⟨shelf.blobs ++ if turns k = 1 then (Plan.blobAt? verdict plans k).toList else []⟩) := by
  rw [turn, List.getElem?_mapIdx, Plan.blobAt?]
  cases hplan : plans[k]? with
  | none =>
    have hlength : plans.length ≤ k := List.getElem?_eq_none_iff.1 hplan
    refine Prod.ext (List.mapIdx_eq_mapIdx_iff.2 fun n hn ↦ ?_) (by simp)
    rw [if_neg (by omega)]
    rfl
  | some plan =>
    simp only [Option.map_some, bind_apply, Plan.step_task, pure_apply]
    refine Prod.ext (List.ext_getElem? fun n ↦ ?_) rfl
    by_cases hn : k = n
    · subst hn
      have hlength : k < plans.length := (List.getElem?_eq_some_iff.1 hplan).1
      rw [List.getElem?_set_self (by simpa using hlength), List.getElem?_mapIdx, hplan, if_pos rfl]
      rfl
    · rw [List.getElem?_set_ne hn, List.getElem?_mapIdx, List.getElem?_mapIdx, if_neg hn]
      rfl

/-- **A task is as far as the number of its turns says**, whatever the schedule.  The files are on
the shelf in the order of the second turns. -/
theorem foldlM_turn_apply (verdict : String → Outcome Unit) (plans : List Plan)
    (schedule : List Nat) (shelf : Shelf) :
    ∃ order : List Nat, (∀ k, k ∈ order ↔ 2 ≤ schedule.count k) ∧
      schedule.foldlM (turn (Shelf.storeIf verdict)) (plans.map ofPlan) shelf =
        (plans.mapIdx fun k plan ↦ plan.task verdict (schedule.count k),
          ⟨shelf.blobs ++ order.filterMap (Plan.blobAt? verdict plans)⟩) := by
  induction schedule using List.reverseRecOn with
  | nil =>
    refine ⟨[], by simp, ?_⟩
    have htasks : plans.mapIdx (fun k plan ↦ plan.task verdict (List.count k [])) =
        plans.map ofPlan := by
      rw [List.mapIdx_eq_iff]
      intro k
      rw [List.getElem?_map]
      rfl
    rw [List.foldlM_nil, pure_apply, htasks, List.filterMap_nil, List.append_nil]
  | append_singleton schedule k ih =>
    obtain ⟨order, horder, hrun⟩ := ih
    have hcount : ∀ n, (schedule ++ [k]).count n = schedule.count n + if k = n then 1 else 0 := by
      intro n
      rw [List.count_append, List.count_singleton]
      simp
    refine ⟨order ++ if schedule.count k = 1 then [k] else [], fun n ↦ ?_, ?_⟩
    · rw [hcount, List.mem_append, horder]
      by_cases hn : k = n
      · subst hn
        rw [if_pos rfl]
        split
        · simp [*]
        · simp only [List.not_mem_nil, or_false]
          omega
      · rw [if_neg hn]
        split <;> simp [Ne.symm hn]
    · rw [List.foldlM_append, bind_apply, hrun, List.foldlM_cons, bind_apply, turn_apply,
        List.foldlM_nil, pure_apply]
      simp only [hcount, List.filterMap_append, ← List.append_assoc]
      split
      · rw [Reading.filterMap_cons, List.filterMap_nil, List.append_nil, List.append_assoc]
      · simp

end Task

/-! ## What is found under a name -/

/-- If no name has two of the new files, then the new file of a name is found under it, and where
there is none, what was found before. -/
theorem Shelf.get?_append {old new : List (String × Bytes)} {find : String → Option Bytes}
    (h : ∀ name bytes, (name, bytes) ∈ new ↔ find name = some bytes) (name : String) :
    Shelf.get? ⟨old ++ new⟩ name = (find name).or (Shelf.get? ⟨old⟩ name) := by
  have hnew : Shelf.get? ⟨new⟩ name = find name := by
    cases hfound : Shelf.get? ⟨new⟩ name with
    | none =>
      cases hbytes : find name with
      | none => rfl
      | some bytes =>
        have hmem := List.mem_reverse.2 ((h name bytes).2 hbytes)
        simpa using List.find?_eq_none.1 (Option.map_eq_none_iff.1 hfound) _ hmem
    | some bytes =>
      obtain ⟨entry, hentry, rfl⟩ := Option.map_eq_some_iff.1 hfound
      have hmem := List.mem_reverse.1 (List.mem_of_find?_eq_some hentry)
      obtain rfl : entry.1 = name := by simpa using List.find?_some hentry
      exact ((h entry.1 entry.2).1 hmem).symm
  rw [← hnew, get?, get?, get?, List.reverse_append, List.find?_append, Option.map_or]

namespace Session

variable (session : Session) (resample : Resampler)

/-- The asset that an output name belongs to: the first that has it. -/
def owner? (output : String) : Option Nat :=
  session.registry.names.findIdx? fun name ↦ outputName name == output

/-- The plan of an asset depends on the other assets by their names alone. -/
theorem getElem?_plans (k : Nat) :
    (session.plans resample)[k]? = session.registry.names[k]?.map fun name ↦
      match (session.registry.names.take k).find? fun other ↦
        outputName other == outputName name with
      | some owner => .refuse name (outputName name) owner
      | none => .store name (outputName name) (session.convert resample k) := by
  rw [plans_eq, List.getElem?_mapIdx, Registry.names, List.getElem?_map, Option.map_map,
    ← List.map_take]
  refine congrArg (Option.map · _) (funext fun asset ↦ ?_)
  rw [Function.comp_apply, List.find?_map, Plan.of]
  have hsame : (fun other ↦ outputName other == outputName asset.name) ∘ Asset.name =
      fun other ↦ outputName other.name == outputName asset.name := rfl
  rw [hsame]
  cases (session.registry.assets.take k).find? fun other ↦
    outputName other.name == outputName asset.name <;> rfl

variable {session resample}

/-- **Only the asset that an output name belongs to has a file to store under it.** -/
theorem owner?_of_blobAt? {k : Nat} {output : String} {bytes : Bytes}
    (h : Plan.blobAt? verdict (session.plans resample) k = some (output, bytes)) :
    session.owner? output = some k := by
  obtain ⟨plan, hplan, hblob⟩ := Option.bind_eq_some_iff.1 h
  obtain ⟨asset, rfl⟩ := Plan.eq_store_of_blob hblob
  rw [getElem?_plans] at hplan
  obtain ⟨name, hname, heq⟩ := Option.map_eq_some_iff.1 hplan
  cases hfind : (session.registry.names.take k).find? fun other ↦
      outputName other == outputName name with
  | some owner =>
    rw [hfind] at heq
    cases heq
  | none =>
    rw [hfind] at heq
    obtain ⟨-, rfl, -⟩ := Plan.store.inj heq
    obtain ⟨hk, rfl⟩ := List.getElem?_eq_some_iff.1 hname
    refine List.findIdx?_eq_some_iff_getElem.2 ⟨hk, beq_self_eq_true _, fun j hj ↦ ?_⟩
    exact List.find?_eq_none.1 hfind _ (List.mem_take_iff_getElem.2 ⟨j, by omega, rfl⟩)

/-- The file of an asset is stored under the output name of the asset. -/
theorem output_of_owner? {k : Nat} {output stored : String} {bytes : Bytes}
    (howner : session.owner? output = some k)
    (h : Plan.blobAt? verdict (session.plans resample) k = some (stored, bytes)) :
    stored = output := by
  have hstored := owner?_of_blobAt? h
  obtain ⟨_, hname, -⟩ := List.findIdx?_eq_some_iff_getElem.1 howner
  obtain ⟨_, hname', -⟩ := List.findIdx?_eq_some_iff_getElem.1 hstored
  exact (beq_iff_eq.1 hname').symm.trans (beq_iff_eq.1 hname)

variable (session resample)

/-- The file that is found under an output name when all assets are saved. -/
def found? (verdict : String → Outcome Unit) (output : String) : Option Bytes := do
  let k ← session.owner? output
  let (_, bytes) ← Plan.blobAt? verdict (session.plans resample) k
  return bytes

/-- The order in which the files came has no part in what is found under a name. -/
theorem get?_of_order {order : List Nat}
    (horder : ∀ k blob, Plan.blobAt? verdict (session.plans resample) k = some blob → k ∈ order)
    (shelf : Shelf) (name : String) :
    let new := order.filterMap (Plan.blobAt? verdict (session.plans resample))
    Shelf.get? ⟨shelf.blobs ++ new⟩ name =
      (session.found? resample verdict name).or (shelf.get? name) := by
  refine Shelf.get?_append (fun output bytes ↦ ?_) name
  simp only [List.mem_filterMap, found?, Option.bind_eq_bind, Option.bind_eq_some_iff,
    Option.pure_def, Option.some.injEq]
  constructor
  · rintro ⟨k, -, hblob⟩
    exact ⟨k, owner?_of_blobAt? hblob, _, hblob, rfl⟩
  · rintro ⟨k, howner, ⟨stored, bytes⟩, hblob, rfl⟩
    obtain rfl := output_of_owner? howner hblob
    exact ⟨k, horder k _ hblob, hblob⟩

/-! ## Whole schedules -/

/-- Two turns for each task finish them all, whoever else has a turn in between. -/
theorem finished_of_count {schedule : List Nat}
    (h : ∀ k < session.registry.assets.length, 2 ≤ schedule.count k) (shelf : Shelf) :
    Task.Finished (session.carryOut resample (Shelf.storeIf verdict) schedule shelf).1 := by
  obtain ⟨order, -, hrun⟩ :=
    Task.foldlM_turn_apply verdict (session.plans resample) schedule shelf
  rw [carryOut, hrun]
  intro task htask
  obtain ⟨k, hk, rfl⟩ := List.mem_mapIdx.1 htask
  rw [length_plans] at hk
  obtain ⟨turns, hturns⟩ := Nat.exists_eq_add_of_le' (h k hk)
  rw [hturns]
  rfl

/-- No matter how the turns were taken, the tasks that are finished have the results of their plans,
and every file is found that should be. -/
theorem carryOut_of_finished {schedule : List Nat} {shelf : Shelf}
    (h : Task.Finished (session.carryOut resample (Shelf.storeIf verdict) schedule shelf).1) :
    (session.carryOut resample (Shelf.storeIf verdict) schedule shelf).1 =
        (session.plans resample).map (fun plan ↦ .finished (plan.result verdict)) ∧
      ∀ name, (session.carryOut resample (Shelf.storeIf verdict) schedule shelf).2.get? name =
        (session.found? resample verdict name).or (shelf.get? name) := by
  obtain ⟨order, horder, hrun⟩ :=
    Task.foldlM_turn_apply verdict (session.plans resample) schedule shelf
  rw [carryOut, hrun] at h ⊢
  have htask : ∀ k plan, (session.plans resample)[k]? = some plan →
      plan.task verdict (schedule.count k) = .finished (plan.result verdict) ∧
        (schedule.count k < 2 → (plan.saving verdict).blob? = none) := by
    intro k plan hplan
    refine Plan.task_of_finished (h _ (List.mem_of_getElem? (i := k) ?_))
    rw [List.getElem?_mapIdx, hplan]
    rfl
  refine ⟨?_, get?_of_order session resample (fun k blob hblob ↦ ?_) shelf⟩
  · rw [List.mapIdx_eq_iff]
    intro k
    rw [List.getElem?_map]
    exact Option.map_congr fun plan hplan ↦ (htask k plan hplan).1.symm
  · obtain ⟨plan, hplan, hsome⟩ := Option.bind_eq_some_iff.1 hblob
    rw [horder]
    by_contra hturns
    rw [(htask k plan hplan).2 (by omega)] at hsome
    cases hsome

theorem saveAll_storeIf_apply (shelf : Shelf) :
    (session.saveAll resample (Shelf.storeIf verdict) shelf).1.1 =
        .ofResults ((session.plans resample).map (Plan.result verdict)) ∧
      ∀ name, (session.saveAll resample (Shelf.storeIf verdict) shelf).2.get? name =
        (session.found? resample verdict name).or (shelf.get? name) := by
  have hall : ∀ k < (session.plans resample).length,
      k ∈ List.range (session.plans resample).length := fun k ↦ List.mem_range.2
  have hnoting := Noting.saveAllIn (Noting.traced (Shelf.storeIf verdict)) session resample
  rw [hnoting.eq [] shelf, saveAll, bind_apply, Plan.runInOrder_apply hall]
  refine ⟨rfl, get?_of_order session resample (fun k blob hblob ↦ ?_) shelf⟩
  obtain ⟨plan, hplan, -⟩ := Option.bind_eq_some_iff.1 hblob
  exact hall k (List.getElem?_eq_some_iff.1 hplan).1

/-! ### Other assets -/

variable {session resample} {session' : Session} {resample' : Resampler}

/-- Sessions in the same format convert the same asset to the same file. -/
theorem convert_congr {k : Nat} (hnames : session'.registry.names = session.registry.names)
    (hconfig : session'.config = session.config)
    (hasset : session'.registry.assets[k]? = session.registry.assets[k]?) :
    session'.convert resample k = session.convert resample k := by
  have hlength : session'.registry.assets.length = session.registry.assets.length := by
    simpa [Registry.names] using congrArg List.length hnames
  rw [convert, convert, Registry.require, Registry.require, hasset, hlength, hconfig]

theorem found?_congr {j : Nat} (hnames : session'.registry.names = session.registry.names)
    (hconvert : ∀ k ≠ j, session'.convert resample' k = session.convert resample k)
    {output : String} (howner : session.owner? output ≠ some j) :
    session'.found? resample' verdict output = session.found? resample verdict output := by
  have hsame : session'.owner? output = session.owner? output := by rw [owner?, owner?, hnames]
  rw [found?, found?, hsame]
  cases hk : session.owner? output with
  | none => rfl
  | some k =>
    have hne : k ≠ j := fun hkj ↦ howner (hkj ▸ hk)
    simp only [Option.bind_eq_bind, Option.bind_some, Plan.blobAt?, getElem?_plans, hnames,
      hconvert k hne]

variable (session resample)

/-- **Whose turn it is makes no difference, and neither do the other assets.**  Two turns for each
task finish them all.  When they are finished, the report, and what is found under every name, is
the same as if the plans had been carried out one after the other.  If one asset is replaced by
another one of the same name, or is converted differently, or not at all, then the results of all
others stay the same, and so does what is found under every name that it does not own. -/
theorem saveAll_unordered (verdict : String → Outcome Unit) (shelf : Shelf) :
    let place := Shelf.storeIf verdict
    (∀ schedule : List Nat, (∀ k < session.registry.assets.length, 2 ≤ schedule.count k) →
      Task.Finished (session.carryOut resample place schedule shelf).1) ∧
    (∀ schedule : List Nat, Task.Finished (session.carryOut resample place schedule shelf).1 →
      Task.report (session.carryOut resample place schedule shelf).1 =
          (session.saveAll resample place shelf).1.1 ∧
        ∀ name, (session.carryOut resample place schedule shelf).2.get? name =
          (session.saveAll resample place shelf).2.get? name) ∧
    ∀ (session' : Session) (resample' : Resampler) (j : Nat),
      session'.registry.names = session.registry.names →
      (∀ k ≠ j, session'.convert resample' k = session.convert resample k) →
      ∀ schedule schedule' : List Nat,
        Task.Finished (session.carryOut resample place schedule shelf).1 →
        Task.Finished (session'.carryOut resample' place schedule' shelf).1 →
        (∀ k ≠ j, (session'.carryOut resample' place schedule' shelf).1[k]? =
          (session.carryOut resample place schedule shelf).1[k]?) ∧
        ∀ name, session.owner? name ≠ some j →
          (session'.carryOut resample' place schedule' shelf).2.get? name =
            (session.carryOut resample place schedule shelf).2.get? name := by
  intro place
  refine ⟨fun schedule hturns ↦ ?_, fun schedule hfinished ↦ ?_,
    fun session' resample' j hnames hconvert schedule schedule' hfinished hfinished' ↦ ?_⟩
  · exact session.finished_of_count resample hturns shelf
  · obtain ⟨htasks, hget⟩ := session.carryOut_of_finished resample hfinished
    obtain ⟨hreport, hsaved⟩ := session.saveAll_storeIf_apply resample shelf
    refine ⟨?_, fun name ↦ (hget name).trans (hsaved name).symm⟩
    have hresults : Task.result? ∘ (fun plan ↦ .finished (plan.result verdict)) =
        some ∘ Plan.result verdict := rfl
    rw [hreport, htasks, Task.report, List.filterMap_map, hresults, List.filterMap_eq_map]
  · obtain ⟨htasks, hget⟩ := session.carryOut_of_finished resample hfinished
    obtain ⟨htasks', hget'⟩ := session'.carryOut_of_finished resample' hfinished'
    refine ⟨fun k hk ↦ ?_, fun name hname ↦ ?_⟩
    · rw [htasks, htasks', List.getElem?_map, List.getElem?_map, getElem?_plans, getElem?_plans,
        hnames, hconvert k hk]
    · rw [hget, hget', found?_congr hnames hconvert hname]

/-- A session with two assets. -/
def pair (first : Buffer) : Session where
  registry := (Registry.empty.insert ⟨"a.mp3", first, 0⟩).insert ⟨"b.ogg", Player.swing, 0⟩
  player := .new (.new .manual)
  config := ⟨8000, 2, .both⟩

/-- A resampler that gives up on a certain rate. -/
def fussy : Resampler := fun raw _ ↦
  if raw.rate = 48000 then .error (.aborted (.stated "no such rate")) else .ok raw

/-- The task of the first asset is aborted in one of two sessions, and its turns come at other
times. -/
theorem saveAll_unordered_pair :
    let session := pair Player.pulse
    let session' := pair { Player.pulse with rate := 48000, rate_pos := by decide }
    let place := Shelf.storeIf fun _ ↦ .ok ()
    session'.convert fussy 0 = .error (.aborted (.stated "no such rate")) ∧
      (session'.carryOut fussy place [0, 1, 1, 0] .empty).1[1]? =
        (session.carryOut fussy place [1, 0, 0, 1] .empty).1[1]? ∧
      (session'.carryOut fussy place [0, 1, 1, 0] .empty).2.get? "b.wav" =
        (session.carryOut fussy place [1, 0, 0, 1] .empty).2.get? "b.wav" ∧
      Task.report (session.carryOut fussy place [1, 0, 0, 1] .empty).1 =
        ⟨["a.wav", "b.wav"], []⟩ := by
  intro session session' place
  have hturns : ∀ k < session.registry.assets.length, 2 ≤ [1, 0, 0, 1].count k := by decide
  have hturns' : ∀ k < session'.registry.assets.length, 2 ≤ [0, 1, 1, 0].count k := by decide
  have hconvert : ∀ k ≠ 0, session'.convert fussy k = session.convert fussy k := by
    intro k hk
    obtain ⟨k, rfl⟩ := Nat.exists_eq_succ_of_ne_zero hk
    exact convert_congr rfl rfl rfl
  have hsession := session.saveAll_unordered fussy (fun _ ↦ .ok ()) .empty
  have hsession' := session'.saveAll_unordered fussy (fun _ ↦ .ok ()) .empty
  have hfinished := hsession.1 _ hturns
  have hfinished' := hsession'.1 _ hturns'
  obtain ⟨hothers, hfound⟩ :=
    hsession.2.2 session' fussy 0 rfl hconvert _ _ hfinished hfinished'
  have hreport : (session.saveAll fussy place .empty).1.1 = ⟨["a.wav", "b.wav"], []⟩ := by
    decide +kernel
  exact ⟨rfl, hothers 1 (by decide), hfound "b.wav" (by decide),
    (hsession.2.1 _ hfinished).1.trans hreport⟩

end Session
end WaveMill
