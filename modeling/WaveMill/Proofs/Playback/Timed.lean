import WaveMill.Proofs.Buffer.Duration
import WaveMill.Proofs.Playback.Later
import WaveMill.Proofs.Playback.Outlook

/-!
# Playbacks by the clock

A timed device gives the signal of a playback by its clock, and nobody has to look for that.  So
what a player says of it is decided by the clock alone: it is playing until the deadline and idle
from then on, in whatever pieces the time goes by, and whoever looks meanwhile.

What is shown is an invariant of outlooks, `Outlook.Underway`: the end of the playback is still to
come and the clock is before its deadline, or the clock has reached the deadline and the playback is
over, whether the player still holds it or not.  It is kept by everything short of a start and a
stop.  One moment is special: a playback that is started at its own deadline, since its buffer lasts
no more than half a nanosecond, is playing until the clock is looked at again.

## What is here

* `Device.le_tick`, `Device.tick_lt`, `Device.dvd_tick` — times rounded up to whole milliseconds.
* `Player.exists_run` — actions that have answers, and keep something true of an outlook, make a
  run that does.
* `Outlook.Underway` — what is true of a playback until it is stopped or replaced, with one law for
  each thing that can happen; `Outlook.Holds` — the player has not let go of it.
* `Player.Coherent.interrupted_never_ends` — what becomes of a playback that is stopped or replaced.
* `Player.timed_run` — when a playback of a timed device is playing.
-/

set_option autoImplicit false
namespace WaveMill

open Stateful

/-! ## Whole milliseconds -/

namespace Device

variable {time : Nat}

theorem le_tick (time : Nat) : time ≤ tick time :=
  (Number.quotientUp_le_iff (by decide)).1 (Nat.le_refl _)

theorem dvd_tick (time : Nat) : millisecond ∣ tick time := Nat.dvd_mul_left ..

/-- No earlier whole millisecond will do. -/
theorem tick_lt (time : Nat) : tick time < time + millisecond := by
  have hpos : 0 < millisecond := by decide
  have hmul := Nat.div_mul_le_self (time + millisecond - 1) millisecond
  rw [tick, Number.quotientUp]
  omega

end Device

/-! ## What runs keep true -/

namespace Player

variable {player after : Player}

/-- If every action has an answer and keeps something true of an outlook, there is a run, and it is
true afterwards. -/
theorem exists_run {actions : List Action} {P : Outlook → Prop}
    (hstep : ∀ action ∈ actions, ∀ outlook, P outlook →
      ∃ answer later, outlook.answer action = some (answer, later) ∧ P later)
    (h : P player.outlook) : ∃ after, player.run actions = some after ∧ P after.outlook := by
  induction actions generalizing player with
  | nil => exact ⟨player, rfl, h⟩
  | cons action rest ih =>
    obtain ⟨hfirst, hothers⟩ := List.forall_mem_cons.1 hstep
    obtain ⟨reply, later, hreply, hlater⟩ := hfirst _ h
    rw [← map_answer, Option.map_eq_some_iff] at hreply
    obtain ⟨⟨_, next⟩, hanswer, heq⟩ := hreply
    cases heq
    obtain ⟨after, hrest, hafter⟩ := ih hothers hlater
    refine ⟨after, run_cons_eq_some_iff.2 ⟨next, ?_, hrest⟩, hafter⟩
    rw [act_eq, hanswer]
    rfl

/-- Whatever is asked of a player but a start or a stop, and whatever happens at its device. -/
def Action.isWatching : Action → Bool
  | .start _ _ | .stop => false
  | .poll | .state | .isPlaying _ | .wait _ | .event _ => true

/-- The same without what lets go of a playback that is over. -/
def Action.isLooking : Action → Bool
  | .start _ _ | .stop | .poll | .wait _ => false
  | .state | .isPlaying _ | .event _ => true

theorem Action.isWatching_of_isLooking {action : Action} (h : action.isLooking = true) :
    action.isWatching = true := by
  cases action with
  | state => rfl
  | isPlaying => rfl
  | event => rfl
  | _ => cases h

end Player

/-! ## A playback by the clock -/

namespace Outlook

variable {outlook later : Outlook} {index id since due : Nat}

/-- A playback that a timed device has started at one time, and that is due at another, has been
neither stopped nor replaced: its end is still to come, or the clock has reached it. -/
structure Underway (index id since due : Nat) (outlook : Outlook) : Prop where
  kind : outlook.kind = .timed
  since_le : since ≤ outlook.clock
  held : outlook.held = some ⟨index, id, .awaited (some due)⟩ ∧
      (outlook.clock < due ∨ outlook.clock = since) ∨
    due ≤ outlook.clock ∧ (outlook.held = some ⟨index, id, .past⟩ ∨ outlook.held = none)

namespace Underway

variable (h : Underway index id since due outlook)
include h

theorem state_of_lt (hclock : outlook.clock < due) : outlook.state = .playing index := by
  rcases h.held with ⟨hheld, -⟩ | ⟨hdue, -⟩
  · rw [Outlook.state, hheld]
  · exact absurd hclock (Nat.not_lt.2 hdue)

theorem state_of_le (hclock : due ≤ outlook.clock) (hsince : since < outlook.clock) :
    outlook.state = .idle := by
  rcases h.held with ⟨-, hbefore⟩ | ⟨-, hheld | hheld⟩
  · omega
  · rw [Outlook.state, hheld]
  · rw [Outlook.state, hheld]

/-! ### What can happen -/

/-- However much time goes by, the end comes when it is due. -/
theorem elapse (time : Nat) :
    Underway index id since due (outlook.happen (.elapse time)) := by
  have hclock : (outlook.happen (.elapse time)).clock = outlook.clock + time := rfl
  refine ⟨h.kind, Nat.le_add_right_of_le h.since_le, ?_⟩
  rw [hclock]
  rcases h.held with ⟨hheld, -⟩ | ⟨hdue, hheld⟩
  · by_cases hreached : due ≤ outlook.clock + time
    · refine .inr ⟨hreached, .inl ?_⟩
      simp [Outlook.happen, Outlook.settle, hheld, Prospect.settle, hreached]
    · refine .inl ⟨?_, .inl (Nat.not_le.1 hreached)⟩
      simp [Outlook.happen, Outlook.settle, hheld, Prospect.settle, hreached]
  · refine .inr ⟨Nat.le_add_right_of_le hdue, hheld.imp (fun hpast ↦ ?_) fun hnone ↦ ?_⟩
    · simp [Outlook.happen, Outlook.settle, hpast, Prospect.settle]
    · simp [Outlook.happen, Outlook.settle, hnone]

theorem happen (event : Player.Event) : Underway index id since due (outlook.happen event) := by
  cases event with
  | release n send =>
    have hkept : outlook.happen (.release n send) = outlook := by
      rw [Outlook.happen, h.kind]
      rfl
    rwa [hkept]
  | elapse time => exact h.elapse time
  | settle => exact h.elapse 0
  | behave conduct => exact ⟨h.kind, h.since_le, h.held⟩

omit h in
theorem happen_all (h : Underway index id since due outlook) (events : List Player.Event) :
    Underway index id since due (events.foldl Outlook.happen outlook) := by
  induction events generalizing outlook with
  | nil => exact h
  | cons event rest ih => exact ih (h.happen event)

/-! ### What can be asked -/

theorem forget (hdue : due ≤ outlook.clock) : Underway index id since due outlook.forget :=
  ⟨h.kind, h.since_le, .inr ⟨hdue, .inr rfl⟩⟩

theorem poll : Underway index id since due outlook.poll.2 := by
  unfold Outlook.poll
  dsimp only
  split
  case isTrue hidle =>
    rcases h.held with ⟨hheld, -⟩ | ⟨hdue, -⟩
    · rw [Outlook.state, hheld] at hidle
      cases hidle
    · exact h.forget hdue
  case isFalse => exact h

/-- A wait moves the clock to the deadline, if it is not there yet. -/
theorem waitForEnd : ∃ result later, outlook.waitForEnd = some (result, later) ∧
    Underway index id since due later := by
  unfold Outlook.waitForEnd
  rcases h.held with ⟨hheld, -⟩ | ⟨hdue, hheld | hheld⟩
  · rw [hheld]
    have hreached : due ≤ outlook.clock + (due - outlook.clock) := by omega
    exact ⟨_, _, rfl, h.kind, Nat.le_add_right_of_le h.since_le, .inr ⟨hreached, .inr rfl⟩⟩
  · rw [hheld]
    exact ⟨_, _, rfl, h.forget hdue⟩
  · rw [hheld]
    exact ⟨_, _, rfl, h⟩

theorem waitThrough (events : List Player.Event) : ∃ result later,
    outlook.waitThrough (fun during ↦ events.foldl Outlook.happen during) = some (result, later) ∧
      Underway index id since due later := by
  unfold Outlook.waitThrough
  rcases h.held with ⟨hheld, -⟩ | ⟨hdue, hheld | hheld⟩
  · rw [hheld]
    exact (h.happen_all events).waitForEnd
  · rw [hheld]
    exact ⟨_, _, rfl, (h.forget hdue).happen_all events⟩
  · rw [hheld]
    exact ⟨_, _, rfl, h.happen_all events⟩

theorem answer {action : Player.Action} (hwatching : action.isWatching = true) :
    ∃ answer later, outlook.answer action = some (answer, later) ∧
      Underway index id since due later := by
  cases action with
  | start => cases hwatching
  | stop => cases hwatching
  | poll => exact ⟨_, _, rfl, h.poll⟩
  | state => exact ⟨_, _, rfl, h⟩
  | isPlaying => exact ⟨_, _, rfl, h⟩
  | wait meanwhile =>
    obtain ⟨result, later, hwait, hlater⟩ := h.waitThrough meanwhile
    refine ⟨.index result, later, ?_, hlater⟩
    simp [Outlook.answer, hwait]
  | event event => exact ⟨_, _, rfl, h.happen event⟩

end Underway

/-- The playback is held, whether it is over or not. -/
def Holds (index id : Nat) (outlook : Outlook) : Prop :=
  ∃ held, outlook.held = some held ∧ held.index = index ∧ held.id = id

theorem Holds.happen (h : Holds index id outlook) (event : Player.Event) :
    Holds index id (outlook.happen event) := by
  obtain ⟨held, hheld, rfl, rfl⟩ := h
  cases event with
  | release n send =>
    by_cases hkind : outlook.kind = .manual
    · simp [Holds, Outlook.happen, hkind, finish, hheld]
    · simp [Holds, Outlook.happen, hkind, hheld]
  | elapse time => simp [Holds, Outlook.happen, settle, hheld]
  | settle => simp [Holds, Outlook.happen, settle, hheld]
  | behave conduct => exact ⟨held, hheld, rfl, rfl⟩

theorem Holds.answer {action : Player.Action} {answer : Player.Answer}
    (h : Holds index id outlook) (hlooking : action.isLooking = true)
    (hanswer : outlook.answer action = some (answer, later)) : Holds index id later := by
  cases action with
  | state =>
    cases hanswer
    exact h
  | isPlaying =>
    cases hanswer
    exact h
  | event event =>
    cases hanswer
    exact h.happen event
  | _ => cases hlooking

/-- A wait for a playback that is held ends at the deadline, or at once if that has passed. -/
theorem Underway.waitForEnd_of_holds (h : Underway index id since due outlook)
    (hholds : Holds index id outlook) :
    ∃ later, outlook.waitForEnd = some (some index, later) ∧
      later.clock = max outlook.clock due := by
  unfold Outlook.waitForEnd
  rcases h.held with ⟨hheld, -⟩ | ⟨hdue, hheld | hheld⟩
  · rw [hheld]
    refine ⟨_, rfl, ?_⟩
    dsimp only
    omega
  · rw [hheld]
    exact ⟨_, rfl, (Nat.max_eq_left hdue).symm⟩
  · obtain ⟨held, hsome, -⟩ := hholds
    cases hheld.symm.trans hsome

theorem Underway.holds_of_lt (h : Underway index id since due outlook)
    (hclock : outlook.clock < due) : Holds index id outlook := by
  rcases h.held with ⟨hheld, -⟩ | ⟨hdue, -⟩
  · exact ⟨_, hheld, rfl, rfl⟩
  · exact absurd hclock (Nat.not_lt.2 hdue)

/-- What a timed device has just started. -/
theorem underway_start (index : Nat) (buffer : Buffer) (hkind : outlook.kind = .timed) :
    (outlook.start index buffer).1 = .ok () ∧
      Underway index outlook.count outlook.clock (Device.dueAt outlook.clock buffer)
        (outlook.start index buffer).2 ∧
      Holds index outlook.count (outlook.start index buffer).2 := by
  obtain ⟨requests, hstop⟩ := outlook.exists_stop_eq
  have hstart : outlook.start index buffer = (.ok (),
      { outlook with requests, held := none }.launch index buffer
        (.awaited (some (Device.dueAt outlook.clock buffer)))) := by
    simp only [start, hstop, hkind]
  rw [hstart]
  exact ⟨rfl, ⟨hkind, Nat.le_refl _, .inl ⟨rfl, .inr rfl⟩⟩, _, rfl, rfl, rfl⟩

end Outlook

/-! ## Runs of a timed device -/

namespace Player

variable {player after later : Player} {active : ActivePlayback} {index id since due : Nat}

/-- While somebody only looks, the playback is held. -/
theorem holds_run {actions : List Action} (hlooking : ∀ action ∈ actions, action.isLooking = true)
    (hunderway : player.outlook.Underway index id since due)
    (hholds : player.outlook.Holds index id) (hrun : player.run actions = some after) :
    after.outlook.Holds index id := by
  have hstep : ∀ action ∈ actions, ∀ outlook : Outlook,
      outlook.Underway index id since due ∧ outlook.Holds index id →
      ∃ answer later, outlook.answer action = some (answer, later) ∧
        later.Underway index id since due ∧ later.Holds index id := by
    rintro action haction outlook ⟨hunderway, hholds⟩
    have hlook := hlooking action haction
    obtain ⟨reply, next, hreply, hnext⟩ :=
      hunderway.answer (Action.isWatching_of_isLooking hlook)
    exact ⟨reply, next, hreply, hnext, hholds.answer hlook hreply⟩
  obtain ⟨other, hother, -, hkept⟩ := exists_run hstep ⟨hunderway, hholds⟩
  obtain rfl : after = other := Option.some.inj (hrun.symm.trans hother)
  exact hkept

/-- **A playback of a timed device that is stopped or replaced never ends**, whatever comes
after. -/
theorem Coherent.interrupted_never_ends {interruption : Action} {rest : List Action}
    (h : player.Coherent) (hkind : player.device.kind = .timed)
    (hactive : player.active = some active) (hover : ¬IsOver player active)
    (hinterruption : interruption.isWatching = false)
    (hrun : player.run (interruption :: rest) = some later) :
    .stopped active.id ∈ later.device.log ∧ .ended active.id ∉ later.device.log := by
  have hstop : stop player = (some active.index, ⟨player.device.stop active.id, none⟩) := by
    rcases stop_cases player with
      ⟨hnone, -⟩ | ⟨held, hheld, -, hstop⟩ | ⟨held, -, hheld, hhover, -⟩
    · cases hactive.symm.trans hnone
    · obtain rfl : active = held := Option.some.inj (hactive.symm.trans hheld)
      exact hstop
    · obtain rfl : active = held := Option.some.inj (hactive.symm.trans hheld)
      exact absurd hhover hover
  have hlater : (stop player).2.device.Later later.device := by
    obtain ⟨next, hact, hrest⟩ := run_cons_eq_some_iff.1 hrun
    cases interruption with
    | start index buffer =>
      obtain rfl := Option.some.inj hact
      exact (later_start index buffer player).trans (later_run hrest)
    | stop =>
      obtain rfl := Option.some.inj hact
      exact later_run hrest
    | _ => cases hinterruption
  have hpending : player.device.IsPending active.id := not_not.1 fun hnot ↦ hover (.inr hnot)
  have hstopped : (stop player).2.Coherent := (follows_stop player).coherent h
  rw [hstop] at hstopped hlater
  refine hstopped.stopped_never_ends hkind ?_ (fun hended ↦ ?_) hlater
  · exact List.mem_append_right _ (List.mem_singleton_self _)
  · exact h.device.not_ended_of_isPending hpending (Device.ended_of_snoc (by simp) hended)

/-- What is playing is what the player holds, and it is not over. -/
theorem active_of_underway
    (h : player.outlook.Underway index id since due) (hstate : (state player).1 = .playing index) :
    ∃ active, player.active = some active ∧ active.id = id ∧ ¬IsOver player active := by
  rcases state_cases player with
    ⟨-, hidle⟩ | ⟨active, hactive, hover, -⟩ | ⟨active, device, -, -, -, hidle⟩
  · rw [hidle] at hstate
    cases hstate
  · refine ⟨active, hactive, ?_, hover⟩
    rw [outlook_of_active_eq_some hactive] at h
    rcases h.held with ⟨hheld, -⟩ | ⟨-, hheld | hheld⟩
    · exact congrArg Held.id (Option.some.inj hheld)
    · exact congrArg Held.id (Option.some.inj hheld)
    · cases hheld
  · rw [hidle] at hstate
    cases hstate

/-- **A timed playback is playing until its deadline and idle from then on**, in whatever pieces the
time goes by, whoever looks or waits meanwhile, and whatever was played before.  Only one that lasts
no more than half a nanosecond may be playing at its deadline, while the clock has not moved since
its start.  The deadline is the first whole millisecond that is not before the time of the start
plus the duration.  A wait ends with the playback, at the deadline, or at once if that has passed;
and a playback that is stopped or replaced while it is playing never ends. -/
theorem timed_run {history : List Action} {before : Player}
    (hbefore : run (.new (.new .timed)) history = some before) (index : Nat) (buffer : Buffer) :
    let since := before.device.clock
    let lasting := Number.nanoseconds buffer.duration
    let due := Device.tick (since + lasting)
    let id := before.device.playbacks.length
    (start index buffer before).1 = .ok () ∧
    (since + lasting ≤ due ∧ due < since + lasting + Device.millisecond ∧
      Device.millisecond ∣ due) ∧
    (buffer.frames < 2 ^ 64 → buffer.rate.toNat < 2 * 10 ^ 9 * buffer.frames → 0 < lasting) ∧
    ∀ actions : List Action, (∀ action ∈ actions, action.isWatching = true) →
      ∃ after, run (start index buffer before).2 actions = some after ∧
        (after.device.clock < due → (state after).1 = .playing index) ∧
        -- where `lasting` is zero, the deadline may be the time of the start itself
        (due ≤ after.device.clock → 0 < lasting ∨ since < after.device.clock →
          (state after).1 = .idle) ∧
        (after.device.clock < due ∨ (∀ action ∈ actions, action.isLooking = true) →
          ∃ later, waitForEnd after = some (some index, later) ∧
            later.device.clock = max after.device.clock due) ∧
        ((state after).1 = .playing index → ∀ interruption rest later,
          interruption.isWatching = false → run after (interruption :: rest) = some later →
            .stopped id ∈ later.device.log ∧ .ended id ∉ later.device.log) := by
  intro since lasting due id
  have hkind : before.outlook.kind = .timed := (later_run hbefore).kind
  have hcoherent := ((coherent_new .timed).run hbefore).start index buffer
  obtain ⟨hresult, hstarted, hholds⟩ : (start index buffer before).1 = .ok () ∧
      (start index buffer before).2.outlook.Underway index id since due ∧
      (start index buffer before).2.outlook.Holds index id := by
    have hlaunch := Outlook.underway_start index buffer hkind
    rw [← map_start] at hlaunch
    exact hlaunch
  have hdue : since + lasting ≤ due := Device.le_tick _
  refine ⟨hresult, ⟨hdue, Device.tick_lt _, Device.dvd_tick _⟩,
    fun hframes hrate ↦ Buffer.nanoseconds_pos hframes hrate, fun actions hwatching ↦ ?_⟩
  obtain ⟨after, hrun, hunderway⟩ := exists_run
    (fun action haction _ hunderway ↦ hunderway.answer (hwatching action haction)) hstarted
  refine ⟨after, hrun, fun hclock ↦ ?_, fun hclock hsome ↦ ?_, fun hheld ↦ ?_,
    fun hplaying interruption rest later hinterruption hlater ↦ ?_⟩
  · rw [← state_outlook]
    exact hunderway.state_of_lt hclock
  · rw [← state_outlook]
    refine hunderway.state_of_le hclock ?_
    rcases hsome with hlasting | hsince
    · exact lt_of_lt_of_le (Nat.lt_add_of_pos_right hlasting) (hdue.trans hclock)
    · exact hsince
  · have hkept : after.outlook.Holds index id := by
      rcases hheld with hclock | hlooking
      · exact hunderway.holds_of_lt hclock
      · exact holds_run hlooking hstarted hholds hrun
    obtain ⟨later, hwait, hclock⟩ := hunderway.waitForEnd_of_holds hkept
    rw [← map_waitForEnd, Option.map_eq_some_iff] at hwait
    obtain ⟨⟨_, player⟩, hwait, heq⟩ := hwait
    cases heq
    exact ⟨player, hwait, hclock⟩
  · obtain ⟨active, hactive, hid, hover⟩ := active_of_underway hunderway hplaying
    rw [← hid]
    exact (hcoherent.run hrun).interrupted_never_ends hunderway.kind hactive hover hinterruption
      hlater

/-- Three frames, which last three quarters of a millisecond. -/
def click : Buffer := ⟨[#[0, 0, 0]], 4000, by decide, by decide, by simp, by decide⟩

/-- A tenth of a millisecond has gone by since the player started for the first time. -/
def soon : Player := (elapse 100000 (start 0 click (.new (.new .timed))).2).2

/-- A second playback replaces the first one before that is over, and ends with the first
millisecond, unless it is replaced as well. -/
theorem timed_run_click :
    (∃ after, run (start 1 click soon).2 [.event (.elapse 500000), .poll,
        .event (.elapse 399999)] = some after ∧
      (state after).1 = .playing 1 ∧
      (∃ later, waitForEnd after = some (some 1, later) ∧ later.device.clock = 1000000) ∧
      ∃ later, run after [.start 2 click, .event (.elapse 1000000)] = some later ∧
        .stopped 1 ∈ later.device.log ∧ .ended 1 ∉ later.device.log) ∧
    ∃ after, run (start 1 click soon).2 [.event (.elapse 500000), .wait [],
        .event (.elapse 7)] = some after ∧
      after.device.clock = 1000007 ∧ (state after).1 = .idle := by
  have hlasting : Number.nanoseconds click.duration = 750000 := by decide +kernel
  have hsoon : run (.new (.new .timed)) [.start 0 click, .event (.elapse 100000)] = some soon := rfl
  have hclock : soon.device.clock = 100000 := rfl
  have hid : soon.device.playbacks.length = 1 := rfl
  obtain ⟨-, -, -, hwatched⟩ := timed_run hsoon 1 click
  have hdue : Device.tick (100000 + 750000) = 1000000 := rfl
  rw [hlasting, hclock, hid, hdue] at hwatched
  refine ⟨?_, ?_⟩
  · obtain ⟨after, hrun, hplaying, -, hwait, hinterrupted⟩ :=
      hwatched [.event (.elapse 500000), .poll, .event (.elapse 399999)] (by decide)
    have hafter : (some after).map (fun after ↦ after.device.clock) = some 999999 := by
      rw [← hrun]
      decide +kernel
    rw [Option.map_some, Option.some.injEq] at hafter
    have hbefore : after.device.clock < 1000000 := by omega
    obtain ⟨later, hlater, hend⟩ := hwait (.inl hbefore)
    refine ⟨after, hrun, hplaying hbefore, ⟨later, hlater, ?_⟩, _, rfl,
      hinterrupted (hplaying hbefore) (.start 2 click) [.event (.elapse 1000000)] _ rfl rfl⟩
    rw [hend, Nat.max_eq_right hbefore.le]
  · obtain ⟨after, hrun, -, hidle, -⟩ :=
      hwatched [.event (.elapse 500000), .wait [], .event (.elapse 7)] (by decide)
    have hafter : (some after).map (fun after ↦ after.device.clock) = some 1000007 := by
      rw [← hrun]
      decide +kernel
    rw [Option.map_some, Option.some.injEq] at hafter
    exact ⟨after, hrun, hafter, hidle (by omega) (.inl (by decide))⟩

end Player
end WaveMill
