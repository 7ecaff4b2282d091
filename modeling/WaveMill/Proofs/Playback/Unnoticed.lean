import WaveMill.Proofs.Playback.Outlook

/-!
# What goes unnoticed

Looking at a player is not innocent: it uses up the signal of a playback that is over, and the
player goes by what it remembers from then on.  Nor is the device silent about playbacks that the
player no longer holds: their signals can still be given, or let go of, at any time.  None of it
makes a difference.  A run into which such asides are slipped gives the same answers as the run
without them, asks the device for the same, and leaves the same playing, because an aside leaves the
outlook of a player alone.

## What is here

* `Player.Look`, `Player.Moment`, `Player.Step` — the steps of a run with asides, and
  `Player.isUnheard`, which says that the signals slipped in are of playbacks not held.
* `Player.outlook_perform` — an aside leaves the outlook alone, and a step that is none does the
  same as the action that it stands for.
* `Player.map_performAll` and `Player.map_answerAll` — the same of a whole run, with asides and
  without.
* `Player.asides_unnoticed` — asides make no difference.
-/

set_option autoImplicit false
namespace WaveMill
namespace Player

open Stateful

variable {player : Player}

/-! ## Steps -/

/-- What can be asked of a player that is only looked at. -/
inductive Look where
  | state
  | isPlaying (index : Nat)
  | playingIndex
  | describe
  deriving DecidableEq

/-- Looks, and pays no attention to the answer. -/
def Look.perform : Look → StateM Player Unit
  | .state => do let _ ← Player.state
  | .isPlaying index => do let _ ← Player.isPlaying index
  | .playingIndex => do let _ ← Player.playingIndex
  | .describe => do let _ ← Player.describe

/-- What happens during a wait. -/
inductive Moment where
  | heard (event : Event)
  /-- The device gives the signal of a playback that the player does not hold, or lets go of it. -/
  | stale (id : Nat) (send : Bool)
  deriving DecidableEq

namespace Moment

/-- What is left of it without asides. -/
def event? : Moment → Option Event
  | .heard event => some event
  | .stale _ _ => none

def happen : Moment → StateM Player Unit
  | .heard event => Player.happen event
  | .stale id send => do let _ ← release id send

/-- Whether a signal that is slipped in is of a playback that the player does not hold. -/
def isUnheard (player : Player) : Moment → Bool
  | .heard _ => true
  | .stale id _ => !player.listensTo id

end Moment

/-- A step of a run with asides. -/
inductive Step where
  | heard (action : Action)
  /-- Waiting for the end, while something happens at the device, asides included. -/
  | wait (meanwhile : List Moment)
  | glance (look : Look)
  /-- The device gives the signal of a playback that the player does not hold, or lets go of it. -/
  | stale (id : Nat) (send : Bool)

namespace Step

/-- What is left of it without asides. -/
def action? : Step → Option Action
  | .heard action => some action
  | .wait meanwhile => some (.wait (meanwhile.filterMap Moment.event?))
  | .glance _ => none
  | .stale _ _ => none

/-- The answer to a step.  Nobody asks for the answer to an aside. -/
def perform (step : Step) : StateT Player Option (Option Answer) := fun player ↦
  match step with
  | .heard action => (answer action player).map (Prod.map some id)
  | .wait meanwhile =>
    (waitThrough (meanwhile.forM Moment.happen) player).map
      (Prod.map (fun result ↦ some (.index result.1)) id)
  | .glance look => some (none, (look.perform player).2)
  | .stale id send => some (none, (release id send player).2)

/-- Whether a signal that is slipped in is of a playback that the player does not hold. -/
def isUnheard (player : Player) : Step → Bool
  | .heard _ => true
  | .wait meanwhile => meanwhile.all (Moment.isUnheard player)
  | .glance _ => true
  | .stale id _ => !player.listensTo id

end Step

/-- The answers to some actions, one after the other. -/
def answerAll (actions : List Action) : StateT Player Option (List Answer) := actions.mapM answer

/-- The answers to some steps, one after the other. -/
def performAll (steps : List Step) : StateT Player Option (List Answer) := do
  return (← steps.mapM Step.perform).reduceOption

/-- Whether the signals that are slipped into a run are all of playbacks that the player does not
hold at that moment. -/
def isUnheard (player : Player) : List Step → Bool
  | [] => true
  | step :: rest =>
    step.isUnheard player && (step.perform player).all fun (_, after) ↦ isUnheard after rest

/-! ## One step -/

/-- However a player is looked at, its outlook is the same afterwards. -/
theorem outlook_look (look : Look) (player : Player) :
    (look.perform player).2.outlook = player.outlook := by
  cases look with
  | state => exact outlook_state player
  | isPlaying => exact outlook_state player
  | playingIndex => exact outlook_state player
  | describe => exact outlook_state player

/-- Nothing that happens during a wait changes what the player holds. -/
theorem Moment.listensTo_happen (moment : Moment) (player : Player) (id : Nat) :
    (moment.happen player).2.listensTo id = player.listensTo id := by
  cases moment with
  | heard event => cases event <;> rfl
  | stale => rfl

theorem Moment.isUnheard_of_listensTo {during : Player} {moment : Moment}
    (hduring : ∀ id, player.listensTo id = false → during.listensTo id = false)
    (h : moment.isUnheard player) : moment.isUnheard during := by
  cases moment with
  | heard => rfl
  | stale id send =>
    have hid : player.listensTo id = false := by simpa [isUnheard] using h
    simp [isUnheard, hduring id hid]

theorem outlook_moment {moment : Moment} (h : moment.isUnheard player) :
    (moment.happen player).2.outlook =
      moment.event?.elim player.outlook player.outlook.happen := by
  cases moment with
  | heard event => exact outlook_happen event player
  | stale id send =>
    have hid : player.listensTo id = false := by simpa [Moment.isUnheard] using h
    exact outlook_release_of_not_listensTo hid send

/-- What happens during a wait comes to what happens without the asides. -/
theorem outlook_meanwhile {meanwhile : List Moment}
    (h : ∀ moment ∈ meanwhile, moment.isUnheard player) :
    (meanwhile.forM Moment.happen player).2.outlook =
      (meanwhile.filterMap Moment.event?).foldl Outlook.happen player.outlook := by
  induction meanwhile generalizing player with
  | nil => rfl
  | cons moment rest ih =>
    have hmoment := outlook_moment (h moment (List.mem_cons_self ..))
    have hrest : ∀ later ∈ rest, later.isUnheard (moment.happen player).2 := fun later hlater ↦
      Moment.isUnheard_of_listensTo (fun id ↦ (moment.listensTo_happen player id).trans)
        (h later (List.mem_cons_of_mem _ hlater))
    have hforM : (moment :: rest).forM Moment.happen player =
        rest.forM Moment.happen (moment.happen player).2 := rfl
    rw [hforM, ih hrest, hmoment]
    cases moment <;> rfl

/-- **An aside leaves the outlook of a player alone**, and a step that is none does the same as the
action that it stands for. -/
theorem outlook_perform {step : Step} (h : step.isUnheard player) :
    (step.perform player).map (Prod.map id outlook) =
      match step.action? with
      | some action => (player.outlook.answer action).map (Prod.map some id)
      | none => some (none, player.outlook) := by
  cases step with
  | heard action =>
    simp only [Step.perform, Step.action?, ← map_answer, Option.map_map]
    rfl
  | wait meanwhile =>
    have hwait : (waitThrough (meanwhile.forM Moment.happen) player).map
        (Prod.map Prod.fst outlook) = player.outlook.waitThrough fun during ↦
          (meanwhile.filterMap Moment.event?).foldl Outlook.happen during := by
      refine map_waitThrough fun during hduring ↦ outlook_meanwhile fun moment hmoment ↦ ?_
      exact Moment.isUnheard_of_listensTo hduring (List.all_eq_true.1 h moment hmoment)
    simp only [Step.perform, Step.action?, Outlook.answer, ← hwait, Option.map_map]
    rfl
  | glance look => simp [Step.perform, Step.action?, outlook_look]
  | stale id send =>
    have hid : player.listensTo id = false := by simpa [Step.isUnheard] using h
    simp [Step.perform, Step.action?, outlook_release_of_not_listensTo hid]

/-! ## A whole run -/

theorem performAll_eq (steps : List Step) (player : Player) :
    performAll steps player =
      (steps.mapM Step.perform player).map (Prod.map List.reduceOption id) := by
  rw [Option.map_eq_bind]
  rfl

/-- A run with asides comes to the same as the run without them. -/
theorem map_performAll {steps : List Step} (h : isUnheard player steps) :
    (performAll steps player).map (Prod.map id outlook) =
      (steps.filterMap Step.action?).mapM Outlook.answer player.outlook := by
  induction steps generalizing player with
  | nil => rfl
  | cons step rest ih =>
    simp only [isUnheard, Bool.and_eq_true] at h
    have hperform := outlook_perform h.1
    rw [performAll_eq, mapM_cons_apply, Option.bind_eq_bind]
    cases haction : step.action? with
    | none =>
      simp only [haction] at hperform
      obtain ⟨⟨answer, after⟩, hafter, heq⟩ := Option.map_eq_some_iff.1 hperform
      obtain ⟨rfl, houtlook⟩ := Prod.mk.inj heq
      have hrest : isUnheard after rest := by simpa [hafter] using h.2
      rw [List.filterMap_cons_none haction, ← houtlook, ← ih hrest, performAll_eq, hafter]
      simp only [Option.bind_some, Option.map_eq_map, Option.map_map]
      rfl
    | some action =>
      simp only [haction] at hperform
      rw [List.filterMap_cons_some haction, mapM_cons_apply, Option.bind_eq_bind]
      cases hafter : step.perform player with
      | none =>
        rw [hafter, Option.map_none] at hperform
        rw [Option.map_eq_none_iff.1 hperform.symm]
        rfl
      | some result =>
        obtain ⟨answer?, after⟩ := result
        rw [hafter, Option.map_some] at hperform
        obtain ⟨⟨answer, outlook⟩, hanswer, heq⟩ := Option.map_eq_some_iff.1 hperform.symm
        obtain ⟨rfl, rfl⟩ := Prod.mk.inj heq
        have hrest : isUnheard after rest := by simpa [hafter] using h.2
        simp only [hanswer, Option.bind_some, ← ih hrest, performAll_eq,
          Option.map_eq_map, Option.map_map]
        rfl

theorem map_answerAll (actions : List Action) (player : Player) :
    (answerAll actions player).map (Prod.map id outlook) =
      actions.mapM Outlook.answer player.outlook := by
  rw [← Option.map_eq_map]
  exact map_mapM outlook map_answer actions player

/-- The answers to a run leave the player that the run leaves. -/
theorem run_eq (actions : List Action) (player : Player) :
    player.run actions = (answerAll actions player).map Prod.snd := by
  induction actions generalizing player with
  | nil => rfl
  | cons action rest ih =>
    rw [run, List.foldlM_cons, act_eq, answerAll, mapM_cons_apply, Option.bind_eq_bind]
    cases answer action player with
    | none => rfl
    | some result =>
      simp only [Option.map_some, Option.bind_eq_bind, Option.bind_some, Option.map_eq_map,
        Option.map_map]
      exact ih result.2

/-- What shows of a player: what the device was asked, and what is playing. -/
def shown (player : Player) : List DeviceEvent × PlayState :=
  (Log.requests player.device.log, (state player).1)

theorem shown_eq (player : Player) :
    shown player = (player.outlook.requests, player.outlook.state) :=
  Prod.ext rfl (state_outlook player).symm

/-- A player that is idle although it holds something need not wait for the end. -/
theorem waitForEnd_of_idle {active : ActivePlayback} (hactive : player.active = some active)
    (hidle : (state player).1 = .idle) {after : Player} (hafter : after.outlook = player.outlook) :
    ∃ last, waitForEnd after = some (some active.index, last) ∧
      last.device.clock = player.device.clock := by
  have hprospect : player.prospect active = .past := by
    cases hprospect : player.prospect active with
    | past => rfl
    | awaited deadline =>
      rw [← state_outlook, outlook_of_active_eq_some hactive, hprospect] at hidle
      cases hidle
  have hwait := map_waitForEnd after
  rw [hafter, outlook_of_active_eq_some hactive, hprospect] at hwait
  obtain ⟨⟨index, last⟩, hlast, heq⟩ := Option.map_eq_some_iff.1 hwait
  obtain ⟨rfl, houtlook⟩ := Prod.mk.inj heq
  exact ⟨last, hlast, congrArg Outlook.clock houtlook⟩

/-- **Asides make no difference.**  A run with asides gives the same answers as the run without
them, asks the device for the same, and leaves the same playing.  A signal of a playback that is not
held does not end the one that is, and a wait for a playback that was seen to be over ends at
once. -/
theorem asides_unnoticed {steps : List Step} (h : isUnheard player steps = true) :
    (performAll steps player).map (Prod.map id shown) =
        (answerAll (steps.filterMap Step.action?) player).map (Prod.map id shown) ∧
      (∀ id send, player.listensTo id = false →
        (state (release id send player).2).1 = (state player).1) ∧
      ∀ (look : Look) (active : ActivePlayback), player.active = some active →
        (state player).1 = .idle →
        ∃ last, waitForEnd (look.perform player).2 = some (some active.index, last) ∧
          last.device.clock = player.device.clock := by
  refine ⟨?_, fun id send hid ↦ ?_, fun look active hactive hidle ↦ ?_⟩
  · have houtlook := (map_performAll h).trans (map_answerAll _ player).symm
    have hshown : ∀ result : Option (List Answer × Player), result.map (Prod.map id shown) =
        (result.map (Prod.map id outlook)).map
          (Prod.map id fun outlook ↦ (outlook.requests, outlook.state)) := by
      intro result
      cases result with
      | none => rfl
      | some result => simp only [Option.map_some, Prod.map, shown_eq, id]
    rw [hshown, hshown, houtlook]
  · rw [← state_outlook, outlook_release_of_not_listensTo hid, state_outlook]
  · exact waitForEnd_of_idle hactive hidle (outlook_look look player)

/-- A playback is replaced, and its signal comes late; the next one ends and is looked at before
anybody waits for it, and a third one ends during a wait. -/
def interruptedRun : List Step :=
  [.heard (.start 0 pulse), .heard (.start 1 swing), .stale 0 true, .glance .state,
    .heard (.event (.release 1 true)), .glance .describe, .wait [.stale 0 false],
    .heard (.start 2 pulse), .wait [.stale 1 true, .heard (.release 2 true)], .heard .poll]

theorem asides_interruptedRun :
    isUnheard (.new (.new .manual)) interruptedRun = true ∧
      (performAll interruptedRun (.new (.new .manual))).map (Prod.map id shown) =
        (answerAll (interruptedRun.filterMap Step.action?) (.new (.new .manual))).map
          (Prod.map id shown) ∧
      (performAll interruptedRun (.new (.new .manual))).map (Prod.map id shown) =
        some ([.started (.ok ()), .started (.ok ()), .nothing, .index (some 1), .started (.ok ()),
            .index (some 2), .state .idle],
          [.started 0 pulse, .stopped 0, .started 1 swing, .started 2 pulse], .idle) := by
  have hunheard : isUnheard (.new (.new .manual)) interruptedRun = true := by decide +kernel
  exact ⟨hunheard, (asides_unnoticed hunheard).1, rfl⟩

end Player
end WaveMill
