import WaveMill.Session

/-!
# Saving all assets

All assets of a session are converted and stored in one go, each as a task of its own.  Two assets
can have the same output name, such as `a.mp3` and `a.ogg`; the name belongs to the first of them,
and the others are refused, even if the first one fails.  Tasks may finish in any order: what became
of an asset is found by its place in the plan.

## What is here

* `Plan` and `Session.plans` — what is to be done for every asset.
* `Plan.run` — does it.
* `Plan.runInOrder` — carries out plans in a given order and reports on them in their own.
* `Session.saveAll` — plans and carries out.
-/

set_option autoImplicit false
namespace WaveMill

/-- What is to be done for an asset. -/
inductive Plan where
  /-- Nothing: the output name belongs to an earlier asset. -/
  | refuse (name output owner : String)
  /-- The file is to be stored, if the conversion had one. -/
  | store (name output : String) (wave : Outcome Bytes)

/-- What became of the assets: output names and failures, each in the order of the registry. -/
structure SaveReport where
  saved : List String
  failed : List FailedFile
  deriving DecidableEq, Repr

namespace SaveReport

/-- Whether every asset was saved. -/
def isComplete (report : SaveReport) : Bool := report.failed.isEmpty

/-- The report on some results. -/
def ofResults (results : List (Except FailedFile String)) : SaveReport where
  saved := results.filterMap Except.toOption
  failed := results.filterMap fun
    | .ok _ => none
    | .error failed => some failed

end SaveReport

namespace Plan

/-- The name of the asset of a plan. -/
def name : Plan → String
  | refuse name _ _ => name
  | store name _ _ => name

/-- The plans for some assets, where `claimed` are the output names that are taken, with the names
of the assets they belong to. -/
def ofAssets (wave : Buffer → Outcome Bytes) (claimed : List (String × String)) :
    List Asset → List Plan
  | [] => []
  | asset :: rest =>
    let output := outputName asset.name
    match claimed.lookup output with
    | some owner => refuse asset.name output owner :: ofAssets wave claimed rest
    | none =>
      store asset.name output (wave asset.buffer) ::
        ofAssets wave ((output, asset.name) :: claimed) rest

variable {m : Type → Type} [Monad m]

/-- Why the task for an asset failed.  One that was aborted failed as well. -/
def taskFailure (name : String) : Failure → Failure
  | .aborted _ => .persist name .abortedTask
  | failure => failure

/-- Carries out a plan. -/
def run (place : Store m) : Plan → m (Except FailedFile String)
  | refuse name output owner => return .error ⟨name, .persist name (.taken output owner)⟩
  | store name _ (.error failure) => return .error ⟨name, taskFailure name failure⟩
  | store name output (.ok wave) => do
    match ← place output wave with
    | .error failure => return .error ⟨name, taskFailure name failure⟩
    | .ok () => return .ok output

/-- Carries out the plan at a place of a list, if there is one. -/
def runAt (place : Store m) (plans : List Plan) (k : Nat) :
    m (Nat × Option (Except FailedFile String)) := do
  match plans[k]? with
  | none => return (k, none)
  | some plan => return (k, some (← plan.run place))

/-- Carries out the plans at the given places of a list, one after the other, and reports on them in
the order of the list. -/
def runInOrder (place : Store m) (plans : List Plan) (order : List Nat) : m SaveReport := do
  let results ← order.mapM (runAt place plans)
  return .ofResults <| (List.range plans.length).filterMap fun k ↦ (results.lookup k).join

end Plan

namespace Session

/-- The plans for all assets of a session. -/
def plans (session : Session) (resample : Resampler) : List Plan :=
  Plan.ofAssets (WaveMill.convert resample session.config) [] session.registry.assets

/-- Converts and stores every asset.  If there is any, the session waits for it, and the device can
give signals meanwhile; nothing else in the session changes. -/
def saveAll {m : Type → Type} [Monad m] (session : Session) (resample : Resampler)
    (place : Store m) :
    m (SaveReport × Session) := do
  let plans := session.plans resample
  let report ← Plan.runInOrder place plans (List.range plans.length)
  let waited := if plans.isEmpty then session else (onPlayer Player.settle session).2
  return (report, waited)

end Session
end WaveMill
