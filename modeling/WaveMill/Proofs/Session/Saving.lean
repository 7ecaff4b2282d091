import WaveMill.Proofs.Disk
import WaveMill.Proofs.Reading
import WaveMill.Proofs.Registry.Assets
import WaveMill.Proofs.Stateful
import WaveMill.Session.Batch

/-!
# What becomes of the assets when all are saved

Saving plans first and carries out afterwards.  The plan of an asset depends on the assets before it
by their output names alone: the name belongs to the first of them that has it.  Carrying out a plan
depends on nothing but the plan and on whether the store takes the name, so the order in which the
plans are carried out has no part in the report.

The store that is looked at here writes down what it is asked to take (`Store.traced`), so that what
it was never asked can be told from what it refused.

## What is here

* `Store.traced` — a store that writes down what it is asked to take; `Noting.saveAllIn` — it does
  nothing else.
* `SaveFate`, `Saving` and `Session.savings` — what should become of every asset.
* `Plan.ofAssets_eq_of_lookup`, `Session.plans_eq` — the plan of an asset by its place.
* `Plan.runInOrder_apply` — what carrying out leads to, in any order.
* `Session.saveAll_savings` — what becomes of the assets and of the store.
-/

set_option autoImplicit false
namespace WaveMill

open Stateful

/-- A store that also writes down what it is asked to take, whether it takes it or not. -/
def Store.traced {σ : Type} (place : Store (StateM σ)) :
    Store (StateM (List (String × Bytes) × σ)) :=
  fun name bytes (asked, stored) ↦
    let (result, stored) := place name bytes stored
    (result, asked ++ [(name, bytes)], stored)

/-- What becomes of an asset when all assets are saved. -/
inductive SaveFate where
  /-- Nothing is done: the output name belongs to an earlier asset. -/
  | taken (owner : String)
  | unconverted (failure : Failure)
  /-- The store did not take the file. -/
  | refused (bytes : Bytes) (failure : Failure)
  | stored (bytes : Bytes)

/-- An asset by its name and its output name, and what becomes of it. -/
structure Saving where
  name : String
  output : String
  fate : SaveFate

namespace SaveFate

/-- What becomes of an asset that comes after some others and is converted to a file, or is not.
What the others become has no part in it. -/
def of (verdict : String → Outcome Unit) (earlier : List Asset) (asset : Asset)
    (wave : Outcome Bytes) : SaveFate :=
  match earlier.find? fun other ↦ outputName other.name == outputName asset.name with
  | some owner => taken owner.name
  | none =>
    match wave with
    | .error failure => unconverted failure
    | .ok bytes =>
      match verdict (outputName asset.name) with
      | .error failure => refused bytes failure
      | .ok () => stored bytes

theorem of_ne_taken {verdict : String → Outcome Unit} {earlier : List Asset} {asset : Asset}
    {wave : Outcome Bytes}
    (h : (earlier.find? fun other ↦ outputName other.name == outputName asset.name) = none)
    (owner : String) : of verdict earlier asset wave ≠ taken owner := by
  simp only [of, h]
  split
  · simp
  · split <;> simp

end SaveFate

namespace Saving

/-- The output name of an asset that is saved. -/
def saved? (saving : Saving) : Option String :=
  match saving.fate with
  | .stored _ => some saving.output
  | _ => none

/-- Why an asset is not saved. -/
def failed? (saving : Saving) : Option FailedFile :=
  match saving.fate with
  | .taken owner => some ⟨saving.name, .persist saving.name (.taken saving.output owner)⟩
  | .unconverted failure => some ⟨saving.name, Plan.taskFailure saving.name failure⟩
  | .refused _ failure => some ⟨saving.name, Plan.taskFailure saving.name failure⟩
  | .stored _ => none

/-- What the store is asked to take. -/
def asked? (saving : Saving) : Option (String × Bytes) :=
  match saving.fate with
  | .refused bytes _ => some (saving.output, bytes)
  | .stored bytes => some (saving.output, bytes)
  | _ => none

/-- What the store takes. -/
def blob? (saving : Saving) : Option (String × Bytes) :=
  match saving.fate with
  | .stored bytes => some (saving.output, bytes)
  | _ => none

/-- Every asset is saved or has failed, and never both. -/
theorem length_filterMap (savings : List Saving) :
    (savings.filterMap saved?).length + (savings.filterMap failed?).length = savings.length := by
  induction savings with
  | nil => rfl
  | cons saving rest ih =>
    have hone : saving.saved?.toList.length + saving.failed?.toList.length = 1 := by
      rw [saved?, failed?]
      cases saving.fate <;> rfl
    rw [Reading.length_filterMap_cons, Reading.length_filterMap_cons, List.length_cons]
    omega

end Saving

/-- What becomes of every asset of a session, in the order of the registry. -/
def Session.savings (session : Session) (resample : Resampler) (verdict : String → Outcome Unit) :
    List Saving :=
  session.registry.assets.mapIdx fun k asset ↦
    { name := asset.name
      output := outputName asset.name
      fate := .of verdict (session.registry.assets.take k) asset (session.convert resample k) }

/-! ## With and without notes -/

namespace Noting

variable {σ : Type} {place' : Store (StateM (List (String × Bytes) × σ))} {place : Store (StateM σ)}

theorem traced (place : Store (StateM σ)) (output : String) (bytes : Bytes) :
    Noting (place.traced output bytes) (place output bytes) :=
  fun asked _ ↦ ⟨asked ++ [(output, bytes)], rfl⟩

variable (h : ∀ output bytes, Noting (place' output bytes) (place output bytes))
include h

theorem plan (plan : Plan) : Noting (plan.run place') (plan.run place) := by
  cases plan with
  | refuse name output owner => exact .pure _
  | store name output wave =>
    cases wave with
    | error failure => exact .pure _
    | ok bytes =>
      refine .bind (h output bytes) fun stored ↦ ?_
      cases stored with
      | error failure => exact .pure _
      | ok _ => exact .pure _

theorem planAt (plans : List Plan) (k : Nat) :
    Noting (Plan.runAt place' plans k) (Plan.runAt place plans k) := by
  unfold Plan.runAt
  cases plans[k]? with
  | none => exact .pure _
  | some plan => exact .bind (Noting.plan h plan) fun result ↦ .pure _

/-- A store that takes notes does nothing else, whatever is saved in it. -/
theorem saveAllIn (session : Session) (resample : Resampler) :
    Noting (session.saveAll resample place') (session.saveAll resample place) :=
  .bind (.bind (.mapM (planAt h _) _) fun _ ↦ .pure _) fun _ ↦ .pure _

end Noting

namespace Plan

variable {verdict : String → Outcome Unit}

/-! ## The plan of an asset -/

/-- The plan of an asset that comes after some others. -/
def of (earlier : List Asset) (asset : Asset) (wave : Outcome Bytes) : Plan :=
  match earlier.find? fun other ↦ outputName other.name == outputName asset.name with
  | some owner => refuse asset.name (outputName asset.name) owner.name
  | none => store asset.name (outputName asset.name) wave

/-- **The names that are claimed are those of the assets before.** -/
theorem ofAssets_eq_of_lookup (wave : Buffer → Outcome Bytes) {claimed : List (String × String)}
    {before : List Asset} (assets : List Asset)
    (hclaimed : ∀ output, claimed.lookup output =
      (before.find? fun other ↦ outputName other.name == output).map Asset.name) :
    ofAssets wave claimed assets =
      assets.mapIdx fun k asset ↦ of (before ++ assets.take k) asset (wave asset.buffer) := by
  induction assets generalizing claimed before with
  | nil => rfl
  | cons asset rest ih =>
    have hshift : ∀ k,
        before ++ (asset :: rest).take (k + 1) = (before ++ [asset]) ++ rest.take k := by simp
    rw [ofAssets, List.mapIdx_cons]
    simp only [hshift, List.take_zero, List.append_nil, hclaimed]
    cases howner : before.find? fun other ↦ outputName other.name == outputName asset.name with
    | some owner =>
      -- an asset whose name is claimed already claims nothing
      have hlater : ∀ output, claimed.lookup output = ((before ++ [asset]).find? fun other ↦
          outputName other.name == output).map Asset.name := by
        intro output
        rw [hclaimed, List.find?_append]
        by_cases houtput : outputName asset.name = output
        · rw [← houtput, howner]
          rfl
        · simp [houtput]
      rw [of, howner, ← ih hlater]
      rfl
    | none =>
      have hlater : ∀ output, ((outputName asset.name, asset.name) :: claimed).lookup output =
          ((before ++ [asset]).find? fun other ↦
            outputName other.name == output).map Asset.name := by
        intro output
        rw [List.lookup_cons, hclaimed, List.find?_append]
        by_cases houtput : outputName asset.name = output
        · rw [← houtput, howner]
          simp
        · have hne : (output == outputName asset.name) = false :=
            beq_eq_false_iff_ne.2 (Ne.symm houtput)
          rw [hne]
          simp [houtput]
      rw [of, howner, ← ih hlater]
      rfl

/-- What becomes of the asset of a plan. -/
def fate (verdict : String → Outcome Unit) : Plan → SaveFate
  | refuse _ _ owner => .taken owner
  | store _ _ (.error failure) => .unconverted failure
  | store _ output (.ok bytes) =>
    match verdict output with
    | .error failure => .refused bytes failure
    | .ok () => .stored bytes

/-- The output name of a plan. -/
def output : Plan → String
  | refuse _ output _ => output
  | store _ output _ => output

def saving (verdict : String → Outcome Unit) (plan : Plan) : Saving :=
  ⟨plan.name, plan.output, plan.fate verdict⟩

/-- The result that carrying out a plan has. -/
def result (verdict : String → Outcome Unit) (plan : Plan) : Except FailedFile String :=
  match (plan.saving verdict).failed? with
  | some failed => .error failed
  | none => .ok plan.output

theorem saving_of (earlier : List Asset) (asset : Asset) (wave : Outcome Bytes) :
    (of earlier asset wave).saving verdict =
      ⟨asset.name, outputName asset.name, .of verdict earlier asset wave⟩ := by
  simp only [of, SaveFate.of]
  cases earlier.find? fun other ↦ outputName other.name == outputName asset.name with
  | some owner => rfl
  | none => cases wave <;> rfl

/-! ## Carrying out -/

theorem traced_storeIf_apply (output : String) (bytes : Bytes) (asked : List (String × Bytes))
    (shelf : Shelf) :
    Store.traced (Shelf.storeIf verdict) output bytes (asked, shelf) =
      match verdict output with
      | .error failure => (.error failure, asked ++ [(output, bytes)], shelf)
      | .ok () => (.ok (), asked ++ [(output, bytes)], shelf.push output bytes) := by
  simp only [Store.traced, Shelf.storeIf]
  cases verdict output <;> rfl

/-- A plan is carried out: the store is asked only for what was converted under a name that is
free. -/
theorem run_apply (plan : Plan) (asked : List (String × Bytes)) (shelf : Shelf) :
    plan.run (Store.traced (Shelf.storeIf verdict)) (asked, shelf) =
      (plan.result verdict, asked ++ (plan.saving verdict).asked?.toList,
        ⟨shelf.blobs ++ (plan.saving verdict).blob?.toList⟩) := by
  cases plan with
  | refuse name output owner =>
    have hsaving : (refuse name output owner).saving verdict = ⟨name, output, .taken owner⟩ := rfl
    simp [run, result, hsaving, Saving.failed?, Saving.asked?, Saving.blob?]
  | store name output wave =>
    cases wave with
    | error failure =>
      have hsaving : (store name output (.error failure)).saving verdict =
          ⟨name, output, .unconverted failure⟩ := rfl
      simp [run, result, hsaving, Saving.failed?, Saving.asked?, Saving.blob?]
    | ok bytes =>
      have hsaving : (store name output (.ok bytes)).saving verdict =
          ⟨name, output, fate verdict (store name output (.ok bytes))⟩ := rfl
      rw [run, bind_apply, traced_storeIf_apply, result, hsaving, fate]
      cases verdict output with
      | error failure => simp [Saving.failed?, Saving.asked?, Saving.blob?]
      | ok => simp [Saving.failed?, Saving.asked?, Saving.blob?, Shelf.push, Plan.output]

theorem runAt_apply (plans : List Plan) (k : Nat) (asked : List (String × Bytes)) (shelf : Shelf) :
    runAt (Store.traced (Shelf.storeIf verdict)) plans k (asked, shelf) =
      ((k, plans[k]?.map (result verdict)),
        asked ++ (plans[k]?.bind fun plan ↦ (plan.saving verdict).asked?).toList,
        ⟨shelf.blobs ++ (plans[k]?.bind fun plan ↦ (plan.saving verdict).blob?).toList⟩) := by
  rw [runAt]
  cases plans[k]? with
  | none => simp
  | some plan => simp [run_apply]

/-! ### All plans -/

theorem mapM_runAt_apply (plans : List Plan) (order : List Nat) (asked : List (String × Bytes))
    (shelf : Shelf) :
    order.mapM (runAt (Store.traced (Shelf.storeIf verdict)) plans) (asked, shelf) =
      (order.map fun k ↦ (k, plans[k]?.map (result verdict)),
        asked ++ order.filterMap fun k ↦ plans[k]?.bind fun plan ↦ (plan.saving verdict).asked?,
        ⟨shelf.blobs ++ order.filterMap fun k ↦
          plans[k]?.bind fun plan ↦ (plan.saving verdict).blob?⟩) := by
  induction order generalizing asked shelf with
  | nil => simp
  | cons k rest ih =>
    rw [List.mapM_cons, bind_apply, runAt_apply, bind_apply, ih, pure_apply, List.append_assoc,
      List.append_assoc, Reading.filterMap_cons, Reading.filterMap_cons]
    rfl

/-- **Carrying out all plans in any order** gives the report in their own order.  The store is asked
for, and takes, what each of them says, in the order in which they are carried out. -/
theorem runInOrder_apply {plans : List Plan} {order : List Nat}
    (horder : ∀ k < plans.length, k ∈ order) (asked : List (String × Bytes)) (shelf : Shelf) :
    runInOrder (Store.traced (Shelf.storeIf verdict)) plans order (asked, shelf) =
      (.ofResults (plans.map (result verdict)),
        asked ++ order.filterMap (fun k ↦ plans[k]?.bind fun plan ↦ (plan.saving verdict).asked?),
        ⟨shelf.blobs ++ order.filterMap fun k ↦
          plans[k]?.bind fun plan ↦ (plan.saving verdict).blob?⟩) := by
  have hresults : ((List.range plans.length).filterMap fun k ↦
      ((order.map fun k ↦ (k, plans[k]?.map (result verdict))).lookup k).join) =
        plans.map (result verdict) := by
    have hmap : plans.map (result verdict) =
        (List.range plans.length).filterMap fun k ↦ plans[k]?.bind (some ∘ result verdict) := by
      rw [Reading.filterMap_range, List.filterMap_eq_map]
    rw [hmap]
    refine List.filterMap_congr fun k hk ↦ ?_
    rw [Reading.lookup_map_self, if_pos (horder k (List.mem_range.1 hk)), Option.join_some]
    exact Option.map_eq_bind
  rw [runInOrder, bind_apply, mapM_runAt_apply, pure_apply, hresults]

theorem ofResults_map_result (plans : List Plan) :
    SaveReport.ofResults (plans.map (result verdict)) =
      ⟨(plans.map (saving verdict)).filterMap Saving.saved?,
        (plans.map (saving verdict)).filterMap Saving.failed?⟩ := by
  rw [SaveReport.ofResults]
  rw [List.filterMap_map, List.filterMap_map, List.filterMap_map, List.filterMap_map]
  congr 1
  · refine List.filterMap_congr fun plan _ ↦ ?_
    simp only [Function.comp_apply, result, Saving.failed?, Saving.saved?]
    cases (plan.saving verdict).fate <;> rfl
  · refine List.filterMap_congr fun plan _ ↦ ?_
    simp only [Function.comp_apply, result]
    cases (plan.saving verdict).failed? <;> rfl

end Plan

namespace Session

variable (session : Session) (resample : Resampler) (verdict : String → Outcome Unit)

/-! ## The whole registry -/

theorem plans_eq : session.plans resample = session.registry.assets.mapIdx fun k asset ↦
    Plan.of (session.registry.assets.take k) asset (session.convert resample k) := by
  have hplans : session.plans resample = session.registry.assets.mapIdx fun k asset ↦
      Plan.of ([] ++ session.registry.assets.take k) asset
        (WaveMill.convert resample session.config asset.buffer) :=
    Plan.ofAssets_eq_of_lookup _ _ fun _ ↦ rfl
  rw [hplans, List.mapIdx_eq_mapIdx_iff]
  intro k hk
  have hrequire : session.registry.require k = .ok session.registry.assets[k] :=
    Registry.require_eq_ok_iff.2 (List.getElem?_eq_getElem hk)
  rw [List.nil_append, Session.convert, hrequire]
  rfl

theorem savings_eq :
    session.savings resample verdict = (session.plans resample).map (Plan.saving verdict) := by
  rw [savings, List.mapIdx_eq_iff]
  intro k
  rw [plans_eq, List.getElem?_map, List.getElem?_mapIdx, Option.map_map]
  refine congrArg (Option.map · _) (funext fun asset ↦ ?_)
  exact Plan.saving_of ..

/-- Of two assets with the same output name, the later one does not get it. -/
theorem pairwise_savings : (session.savings resample verdict).Pairwise fun first later ↦
    first.output ≠ later.output ∨ ∃ owner, later.fate = .taken owner := by
  rw [savings, List.pairwise_iff_getElem]
  intro j k hj hk hjk
  rw [List.length_mapIdx] at hj hk
  simp only [List.getElem_mapIdx, SaveFate.of]
  cases hfind : (session.registry.assets.take k).find? fun other ↦
      outputName other.name == outputName session.registry.assets[k].name with
  | some owner => exact .inr ⟨owner.name, rfl⟩
  | none =>
    have hmem : session.registry.assets[j] ∈ session.registry.assets.take k :=
      List.mem_take_iff_getElem.2 ⟨j, by omega, rfl⟩
    have hne := List.find?_eq_none.1 hfind _ hmem
    exact .inl (by simpa using hne)

theorem nodup_saved : ((session.savings resample verdict).filterMap Saving.saved?).Nodup := by
  have hsaved : ∀ (saving : Saving) (output : String), saving.saved? = some output →
      saving.output = output ∧ ∀ owner, saving.fate ≠ .taken owner := by
    intro saving output h
    rw [Saving.saved?] at h
    cases hfate : saving.fate with
    | stored bytes =>
      rw [hfate] at h
      exact ⟨Option.some.inj h, fun owner ↦ by simp⟩
    | taken => rw [hfate] at h; cases h
    | unconverted => rw [hfate] at h; cases h
    | refused => rw [hfate] at h; cases h
  refine (session.pairwise_savings resample verdict).filterMap _ fun first later hne a ha b hb ↦ ?_
  obtain ⟨rfl, -⟩ := hsaved first a ha
  obtain ⟨rfl, hfree⟩ := hsaved later b hb
  rcases hne with hne | ⟨owner, htaken⟩
  · exact hne
  · exact absurd htaken (hfree owner)

/-- An asset whose output name is taken is not converted: nothing depends on what its conversion
would be. -/
theorem plans_congr {resample' : Resampler}
    (hconvert : ∀ (k : Nat) (saving : Saving),
      (session.savings resample verdict)[k]? = some saving →
      (∀ owner, saving.fate ≠ .taken owner) →
      session.convert resample' k = session.convert resample k) :
    session.plans resample' = session.plans resample := by
  rw [plans_eq, plans_eq, List.mapIdx_eq_mapIdx_iff]
  intro k hk
  cases hfind : (session.registry.assets.take k).find? fun other ↦
      outputName other.name == outputName session.registry.assets[k].name with
  | some owner => rw [Plan.of, Plan.of, hfind]
  | none =>
    have hsaving : (session.savings resample verdict)[k]? = some
        ⟨session.registry.assets[k].name, outputName session.registry.assets[k].name,
          .of verdict (session.registry.assets.take k) session.registry.assets[k]
            (session.convert resample k)⟩ := by
      rw [savings, List.getElem?_mapIdx, List.getElem?_eq_getElem hk]
      rfl
    rw [hconvert k _ hsaving fun owner ↦ SaveFate.of_ne_taken hfind owner]

theorem length_plans : (session.plans resample).length = session.registry.assets.length := by
  rw [plans_eq, List.length_mapIdx]

theorem filterMap_plans {β : Type} (read : Saving → Option β) :
    ((List.range (session.plans resample).length).filterMap fun k ↦
      (session.plans resample)[k]?.bind fun plan ↦ read (plan.saving verdict)) =
      (session.savings resample verdict).filterMap read := by
  rw [Reading.filterMap_range, savings_eq, List.filterMap_map]
  rfl

/-- What carrying out all plans leads to, in whatever order, by the fates of the assets. -/
theorem runInOrder_plans_apply {order : List Nat} (asked : List (String × Bytes)) (shelf : Shelf)
    (horder : order.Perm (List.range session.registry.assets.length)) :
    let savings := session.savings resample verdict
    ∃ requests blobs, requests.Perm (savings.filterMap Saving.asked?) ∧
      blobs.Perm (savings.filterMap Saving.blob?) ∧
      Plan.runInOrder (Store.traced (Shelf.storeIf verdict)) (session.plans resample) order
          (asked, shelf) =
        (⟨savings.filterMap Saving.saved?, savings.filterMap Saving.failed?⟩, asked ++ requests,
          ⟨shelf.blobs ++ blobs⟩) := by
  intro savings
  rw [← session.length_plans resample] at horder
  have hall : ∀ k < (session.plans resample).length, k ∈ order :=
    fun k hk ↦ horder.mem_iff.2 (List.mem_range.2 hk)
  have hperm : ∀ read : Saving → Option (String × Bytes), (order.filterMap fun k ↦
      (session.plans resample)[k]?.bind fun plan ↦ read (plan.saving verdict)).Perm
      (savings.filterMap read) := by
    intro read
    rw [← filterMap_plans session resample verdict]
    exact horder.filterMap _
  refine ⟨_, _, hperm Saving.asked?, hperm Saving.blob?, ?_⟩
  rw [Plan.runInOrder_apply hall, Plan.ofResults_map_result, ← savings_eq]

theorem saveAll_apply (asked : List (String × Bytes)) (shelf : Shelf) :
    let savings := session.savings resample verdict
    session.saveAll resample (Store.traced (Shelf.storeIf verdict)) (asked, shelf) =
      ((⟨savings.filterMap Saving.saved?, savings.filterMap Saving.failed?⟩,
          if (session.plans resample).isEmpty then session else (onPlayer Player.settle session).2),
        asked ++ savings.filterMap Saving.asked?,
        ⟨shelf.blobs ++ savings.filterMap Saving.blob?⟩) := by
  intro savings
  have hall :
      ∀ k < (session.plans resample).length, k ∈ List.range (session.plans resample).length :=
    fun k ↦ List.mem_range.2
  rw [saveAll, bind_apply, Plan.runInOrder_apply hall, Plan.ofResults_map_result, ← savings_eq,
    filterMap_plans, filterMap_plans]
  rfl

/-- **Every asset meets its fate, in whatever order the assets are saved.**  The report names every
asset once, in the order of the registry, and no output name twice.  The store is asked for every
asset that has its output name to itself and was converted, and what it takes is what the report
says was saved.  However the conversion of an asset would go whose name is taken, nothing
changes. -/
theorem saveAll_savings (asked : List (String × Bytes)) (shelf : Shelf) :
    let savings := session.savings resample verdict
    let place := Store.traced (Shelf.storeIf verdict)
    let report := (session.saveAll resample place (asked, shelf)).1.1
    let asked' := (session.saveAll resample place (asked, shelf)).2.1
    let shelf' := (session.saveAll resample place (asked, shelf)).2.2
    (report.saved = savings.filterMap Saving.saved? ∧
      report.failed = savings.filterMap Saving.failed? ∧
      report.saved.length + report.failed.length = session.registry.assets.length ∧
      report.saved.Nodup) ∧
    (asked' = asked ++ savings.filterMap Saving.asked? ∧
      shelf'.blobs = shelf.blobs ++ savings.filterMap Saving.blob? ∧
      (savings.filterMap Saving.blob?).map Prod.fst = report.saved) ∧
    (∀ resample' : Resampler,
      (∀ (k : Nat) (saving : Saving), savings[k]? = some saving →
        (∀ owner, saving.fate ≠ .taken owner) →
        session.convert resample' k = session.convert resample k) →
      ∀ {m : Type → Type} [Monad m] (place : Store m),
        session.saveAll resample' place = session.saveAll resample place) ∧
    ∀ order : List Nat, order.Perm (List.range session.registry.assets.length) →
      let other := Plan.runInOrder place (session.plans resample) order (asked, shelf)
      other.1 = report ∧ other.2.1.Perm asked' ∧ other.2.2.blobs.Perm shelf'.blobs := by
  intro savings place report asked' shelf'
  have happly := session.saveAll_apply resample verdict asked shelf
  have hreport : report = ⟨savings.filterMap Saving.saved?, savings.filterMap Saving.failed?⟩ :=
    congrArg (·.1.1) happly
  have hasked : asked' = asked ++ savings.filterMap Saving.asked? := congrArg (·.2.1) happly
  have hshelf : shelf' = ⟨shelf.blobs ++ savings.filterMap Saving.blob?⟩ := congrArg (·.2.2) happly
  refine ⟨⟨?_, ?_, ?_, ?_⟩, ⟨hasked, congrArg Shelf.blobs hshelf, ?_⟩, ?_, ?_⟩
  · rw [hreport]
  · rw [hreport]
  · rw [hreport]
    exact (Saving.length_filterMap savings).trans List.length_mapIdx
  · rw [hreport]
    exact session.nodup_saved resample verdict
  · rw [hreport, List.map_filterMap]
    refine List.filterMap_congr fun saving _ ↦ ?_
    rw [Saving.blob?, Saving.saved?]
    cases saving.fate <;> rfl
  · intro resample' hconvert m _ place
    rw [saveAll, saveAll, session.plans_congr resample verdict hconvert]
  · intro order horder other
    obtain ⟨requests, blobs, hrequests, hblobs, hother⟩ :=
      session.runInOrder_plans_apply resample verdict asked shelf horder
    have hresult : other = _ := hother
    rw [hresult, hreport, hasked, hshelf]
    exact ⟨rfl, hrequests.append_left asked, hblobs.append_left shelf.blobs⟩

end Session
end WaveMill
