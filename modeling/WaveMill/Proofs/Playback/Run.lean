import WaveMill.Proofs.Playback.Player

/-!
# Runs of a player

A player is asked to start, to stop and to look, in any order, and between two requests, or while it
waits, anything may happen at its device: signals are given or let go of, time goes by, and a manual
device changes its mind about what it does when it is asked to start.

Every request short of a start only leads from one coherent player to another that holds no new
preview (`Player.Follows`), and a start is coherent by its own law, so a run from a player that has
played nothing stays coherent throughout.  What the listener hears then follows from the log of the
device.

## What is here

* `Player.Event` and `Player.happen` — what happens at a device.
* `Player.Action`, `Player.act` and `Player.run` — what is asked of a player, one by one and in a
  row.
* `Player.waitThrough_cases`, `Player.run_cons_eq_some_iff` — what a wait and a run come down to.
* `Player.Coherent.run` — a run keeps a player coherent.
* `Player.exclusive_run` — no two playbacks of a run sound at a time.
-/

set_option autoImplicit false
namespace WaveMill
namespace Player

open Stateful

/-- What can happen at a device by itself. -/
inductive Event where
  /-- A manual device gives a signal or lets go of it. -/
  | release (id : Nat) (send : Bool)
  /-- So many nanoseconds go by. -/
  | elapse (time : Nat)
  /-- The signals that are due are given. -/
  | settle
  /-- A manual device makes up its mind about the next starts. -/
  | behave (conduct : Conduct)
  deriving DecidableEq

/-- What an event does to a player. -/
def happen : Event → StateM Player Unit
  | .release id send => do let _ ← release id send
  | .elapse time => elapse time
  | .settle => settle
  | .behave conduct => setConduct conduct

/-- What can be asked of a player, and what can happen in between. -/
inductive Action where
  | start (index : Nat) (buffer : Buffer)
  | stop
  | poll
  | state
  | isPlaying (index : Nat)
  /-- Waiting for the end, while something happens at the device. -/
  | wait (meanwhile : List Event)
  | event (event : Event)

/-- The player after an action.  After a wait that does not come to an end there is none. -/
def act (player : Player) : Action → Option Player
  | .start index buffer => some (start index buffer player).2
  | .stop => some (stop player).2
  | .poll => some (poll player).2
  | .state => some (state player).2
  | .isPlaying index => some (isPlaying index player).2
  | .wait meanwhile => (waitThrough (meanwhile.forM happen) player).map Prod.snd
  | .event event => some (happen event player).2

/-- The player after some actions, one after the other. -/
def run (player : Player) (actions : List Action) : Option Player := actions.foldlM act player

variable {player after : Player}

/-! ## One step -/

theorem follows_happen (event : Event) (player : Player) :
    Follows player (happen event player).2 := by
  cases event with
  | release id send => exact follows_release id send player
  | elapse time => exact follows_elapse time player
  | settle => exact follows_settle player
  | behave conduct => exact follows_setConduct conduct player

theorem follows_happen_all (events : List Event) (player : Player) :
    Follows player (events.forM happen player).2 := by
  induction events generalizing player with
  | nil => exact .refl player
  | cons event rest ih => exact (follows_happen event player).trans (ih (happen event player).2)

/-- A wait lets happen what happens before it looks for the end, or after it found that there is
none to wait for. -/
theorem waitThrough_cases {α : Type} {event : StateM Player α} {result : Option Nat × α}
    (h : waitThrough event player = some (result, after)) :
    after = (event player).2 ∨
      (∃ active device, player.active = some active ∧ IsOver player active ∧
        Device.Gives [] player.device device ∧ after = (event ⟨device, none⟩).2) ∨
      ∃ index, waitForEnd (event player).2 = some (index, after) := by
  unfold waitThrough at h
  cases hactive : player.active with
  | none =>
    rw [hactive] at h
    cases h
    exact .inl rfl
  | some active =>
    rw [hactive] at h
    rcases look_cases hactive with ⟨-, hlook⟩ | ⟨device, hover, hgives, hlook⟩
    · simp only [hlook] at h
      obtain ⟨⟨index, later⟩, hwait, heq⟩ := Option.bind_eq_some_iff.1 h
      cases heq
      exact .inr (.inr ⟨index, hwait⟩)
    · simp only [hlook] at h
      cases h
      exact .inr (.inl ⟨active, device, rfl, hover, hgives, rfl⟩)

theorem follows_waitThrough {α : Type} {event : StateM Player α} {result : Option Nat × α}
    (hevent : ∀ player, Follows player (event player).2)
    (h : waitThrough event player = some (result, after)) : Follows player after := by
  rcases waitThrough_cases h with
    rfl | ⟨active, device, hactive, hover, hgives, rfl⟩ | ⟨index, hwait⟩
  · exact hevent player
  · have hforget : Follows player ⟨device, none⟩ :=
      (Follows.of_gives hgives).trans (.of_forget hactive (hover.of_gives hgives))
    exact hforget.trans (hevent _)
  · exact (hevent player).trans (follows_waitForEnd hwait)

/-- **Every action keeps a player coherent.** -/
theorem Coherent.act {action : Action} (h : player.Coherent)
    (hact : player.act action = some after) :
    after.Coherent := by
  cases action with
  | start index buffer =>
    obtain rfl := Option.some.inj hact
    exact h.start index buffer
  | stop =>
    obtain rfl := Option.some.inj hact
    exact (follows_stop player).coherent h
  | poll =>
    obtain rfl := Option.some.inj hact
    exact (follows_poll player).coherent h
  | state =>
    obtain rfl := Option.some.inj hact
    exact (follows_state player).coherent h
  | isPlaying index =>
    obtain rfl := Option.some.inj hact
    exact (follows_state player).coherent h
  | wait meanwhile =>
    simp only [Player.act, Option.map_eq_some_iff] at hact
    obtain ⟨⟨result, later⟩, hwait, rfl⟩ := hact
    exact (follows_waitThrough (follows_happen_all meanwhile) hwait).coherent h
  | event event =>
    obtain rfl := Option.some.inj hact
    exact (follows_happen event player).coherent h

/-! ## A whole run -/

theorem run_cons_eq_some_iff {action : Action} {rest : List Action} :
    player.run (action :: rest) = some after ↔
      ∃ next, player.act action = some next ∧ next.run rest = some after := by
  rw [run, List.foldlM_cons, Option.bind_eq_bind, Option.bind_eq_some_iff]
  rfl

theorem Coherent.run {actions : List Action} (h : player.Coherent)
    (hrun : player.run actions = some after) : after.Coherent := by
  induction actions generalizing player with
  | nil =>
    cases hrun
    exact h
  | cons action rest ih =>
    obtain ⟨next, hact, hrest⟩ := run_cons_eq_some_iff.1 hrun
    exact ih (h.act hact) hrest

/-- **No two playbacks of a run sound at a time, none is stopped twice, and none is stopped after
its end.** A player that could not start is idle, whatever went before. -/
theorem exclusive_run {kind : DeviceKind} {actions : List Action}
    (h : run (.new (.new kind)) actions = some player) :
    Log.Exclusive player.device.log ∧
      ∀ index buffer failure, (start index buffer player).1 = .error failure →
        (state (start index buffer player).2).1 = .idle := by
  have hplayer : player.Coherent := (coherent_new kind).run h
  exact ⟨hplayer.device.orderly.exclusive, fun _ _ _ ↦ state_of_start_eq_error⟩

/-- Two frames in mono. -/
def pulse : Buffer := ⟨[#[1, -1]], 9000, by decide, by decide, by simp, by decide⟩

/-- Three frames in stereo. -/
def swing : Buffer := ⟨[#[1, 0, 0], #[0, 0, -1]], 18000, by decide, by decide, by simp, by decide⟩

/-- A playback that ends unseen, one that ends during a wait, one that is stopped for the next, and
a device that then refuses. -/
def mixedRun : List Action :=
  [.start 0 pulse, .event (.release 0 true), .stop, .start 1 swing, .wait [.release 1 false],
    .start 2 pulse, .event (.behave (.refuse (.playback "no output device"))), .start 3 swing]

theorem exclusive_mixedRun :
    ∃ player, run (.new (.new .manual)) mixedRun = some player ∧
      player.device.log = [.started 0 pulse, .ended 0, .started 1 swing, .ended 1, .started 2 pulse,
        .stopped 2, .refused] ∧
      Log.Exclusive player.device.log ∧
      (start 4 swing player).1 = .error (.playback "no output device") ∧
      (state (start 4 swing player).2).1 = .idle := by
  refine ⟨_, rfl, rfl, ?_, rfl, ?_⟩
  · have hrun : run (.new (.new .manual)) mixedRun = some _ := rfl
    exact (exclusive_run hrun).1
  · have hrun : run (.new (.new .manual)) mixedRun = some _ := rfl
    exact (exclusive_run hrun).2 4 swing _ rfl

end Player
end WaveMill
