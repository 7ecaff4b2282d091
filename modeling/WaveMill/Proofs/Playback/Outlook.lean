import WaveMill.Proofs.Playback.Run

/-!
# What counts of a player

A player and its device remember more than will ever show.  Whether the player has noticed the end
of a playback or has not looked yet, and what became of the signals of playbacks that it no longer
holds, makes no difference to any later answer.  What does make one is collected in an `Outlook`:
the device's clock and its ways, the number of playbacks, what the device was asked, and, of the
playback that is held, whether its end is still to come.

What a player does can be done to an outlook directly, without a device and without signals
(`Outlook.stop`, `Outlook.start` and so on).  The law of each function says that the player gives
the same answer, and has the outlook afterwards that is expected.  Nothing is assumed of the player
for that: the laws hold of players that no run leads to as well.

## What is here

* `Player.answer` — what a player answers to an action.
* `Prospect`, `Held`, `Outlook` — what counts, and `Player.outlook`, which reads it off a player.
* `Device.prospect_release`, `Device.prospect_settle` — when an end is no longer to come.
* `Player.look_prospect` — what a player learns when it looks.
* `Player.map_state`, `Player.map_stop`, `Player.map_poll`, `Player.map_start`,
  `Player.map_waitForEnd`, `Player.map_waitThrough` — what a player does, as seen in its outlook;
  `Player.outlook_happen` — and what happens at its device.
* `Player.map_answer` — an action has the answer that the outlook tells.
-/

set_option autoImplicit false
namespace WaveMill

/-! ## Answers -/

namespace Player

/-- What a player answers. -/
inductive Answer where
  | started (result : Outcome Unit)
  | index (index : Option Nat)
  | state (state : PlayState)
  | isPlaying (yes : Bool)
  | nothing

/-- The answer to an action.  A wait that does not come to an end has none. -/
def answer (action : Action) : StateT Player Option Answer := fun player ↦
  match action with
  | .start index buffer => some (Prod.map .started id (start index buffer player))
  | .stop => some (Prod.map .index id (stop player))
  | .poll => some (Prod.map .state id (poll player))
  | .state => some (Prod.map .state id (state player))
  | .isPlaying index => some (Prod.map .isPlaying id (isPlaying index player))
  | .wait meanwhile =>
    (waitThrough (meanwhile.forM happen) player).map (Prod.map (fun result ↦ .index result.1) id)
  | .event event => some (.nothing, (happen event player).2)

theorem act_eq (player : Player) (action : Action) :
    player.act action = (answer action player).map Prod.snd := by
  cases action with
  | wait meanwhile =>
    simp only [act, answer, Option.map_map]
    rfl
  | start => rfl
  | stop => rfl
  | poll => rfl
  | state => rfl
  | isPlaying => rfl
  | event => rfl

end Player

/-! ## Outlooks -/

/-- Whether the end of a playback is still to come, and when, if the device goes by its clock. -/
inductive Prospect where
  | past
  | awaited (deadline : Option Nat)
  deriving DecidableEq

/-- A playback that is held. -/
structure Held where
  /-- The index of the asset. -/
  index : Nat
  /-- The number of the playback at the device. -/
  id : Nat
  prospect : Prospect
  deriving DecidableEq

/-- Whether an entry tells what the device was asked, and not that a playback is over. -/
def DeviceEvent.isRequest : DeviceEvent → Bool
  | ended _ => false
  | _ => true

/-- What the device was asked. -/
def Log.requests (log : List DeviceEvent) : List DeviceEvent := log.filter DeviceEvent.isRequest

/-- What counts of a player. -/
structure Outlook where
  kind : DeviceKind
  clock : Nat
  conduct : Conduct
  /-- How many playbacks there were so far. -/
  count : Nat
  requests : List DeviceEvent
  held : Option Held
  deriving DecidableEq

namespace Outlook

/-- What is playing. -/
def state (outlook : Outlook) : PlayState :=
  match outlook.held with
  | some ⟨index, _, .awaited _⟩ => .playing index
  | _ => .idle

/-- Lets go of the playback that is held. -/
def forget (outlook : Outlook) : Outlook := { outlook with held := none }

/-- Asks the device for something. -/
def ask (event : DeviceEvent) (outlook : Outlook) : Outlook :=
  { outlook with requests := outlook.requests ++ [event] }

/-- Stops what is playing, and gives its index. -/
def stop (outlook : Outlook) : Option Nat × Outlook :=
  match outlook.held with
  | some ⟨index, id, .awaited _⟩ => (some index, outlook.forget.ask (.stopped id))
  | _ => (none, outlook.forget)

/-- Lets go of a playback that is over, and says what is playing. -/
def poll (outlook : Outlook) : PlayState × Outlook :=
  (outlook.state, if outlook.state = .idle then outlook.forget else outlook)

/-- A stop asks the device for something, or for nothing, and lets go of what is held. -/
theorem exists_stop_eq (outlook : Outlook) :
    ∃ requests, outlook.stop.2 = { outlook with requests, held := none } := by
  unfold stop
  split
  · exact ⟨_, rfl⟩
  · exact ⟨outlook.requests, rfl⟩

theorem exists_poll_eq (outlook : Outlook) : ∃ held, outlook.poll.2 = { outlook with held } := by
  unfold poll
  dsimp only
  split
  · exact ⟨none, rfl⟩
  · exact ⟨outlook.held, rfl⟩

/-- Holds the next playback. -/
def launch (index : Nat) (buffer : Buffer) (prospect : Prospect) (outlook : Outlook) : Outlook :=
  { outlook.ask (.started outlook.count buffer) with
    count := outlook.count + 1
    held := some ⟨index, outlook.count, prospect⟩ }

/-- Starts to play a buffer for the asset at an index, after what was playing has been stopped. -/
def start (index : Nat) (buffer : Buffer) (outlook : Outlook) : Outcome Unit × Outlook :=
  let outlook := outlook.stop.2
  match outlook.kind, outlook.conduct with
  | .timed, _ =>
    (.ok (), outlook.launch index buffer (.awaited (some (Device.dueAt outlook.clock buffer))))
  | .manual, .refuse failure => (.error failure, outlook.ask .refused)
  | .manual, .keep => (.ok (), outlook.launch index buffer (.awaited none))
  | .manual, .finish _ => (.ok (), outlook.launch index buffer .past)

end Outlook

/-- What is left of a prospect when the signals are given that are due. -/
def Prospect.settle (clock : Nat) : Prospect → Prospect
  | awaited (some deadline) => if deadline ≤ clock then past else awaited (some deadline)
  | prospect => prospect

namespace Outlook

/-- The end of a playback is no longer to come, if it is the one that is held. -/
def finish (id : Nat) (outlook : Outlook) : Outlook :=
  { outlook with held := outlook.held.map fun held ↦
      { held with prospect := if id = held.id then .past else held.prospect } }

/-- The end of the playback that is held has come, if it is due. -/
def settle (outlook : Outlook) : Outlook :=
  { outlook with held := outlook.held.map fun held ↦
      { held with prospect := held.prospect.settle outlook.clock } }

/-- What can happen at a device by itself. -/
def happen (outlook : Outlook) : Player.Event → Outlook
  | .release id _ => if outlook.kind = .manual then outlook.finish id else outlook
  | .elapse time => { outlook with clock := outlook.clock + time }.settle
  | .settle => outlook.settle
  | .behave conduct => { outlook with conduct }

/-- Waits until what is held is over, and gives its index. -/
def waitForEnd (outlook : Outlook) : Option (Option Nat × Outlook) :=
  match outlook.held with
  | none => some (none, outlook)
  | some ⟨index, _, .past⟩ => some (some index, outlook.forget)
  | some ⟨index, _, .awaited deadline⟩ => do
    let clock := outlook.clock + ((← deadline) - outlook.clock)
    return (some index, { outlook.forget with clock })

/-- Waits until what is held is over, while something happens at the device.  If there is nothing to
wait for, it happens afterwards. -/
def waitThrough (event : Outlook → Outlook) (outlook : Outlook) :
    Option (Option Nat × Outlook) :=
  match outlook.held with
  | none => some (none, event outlook)
  | some ⟨index, _, .past⟩ => some (some index, event outlook.forget)
  | some ⟨_, _, .awaited _⟩ => (event outlook).waitForEnd

/-- The answer to an action. -/
def answer (action : Player.Action) : StateT Outlook Option Player.Answer := fun outlook ↦
  match action with
  | .start index buffer => some (Prod.map .started id (outlook.start index buffer))
  | .stop => some (Prod.map .index id outlook.stop)
  | .poll => some (Prod.map .state id outlook.poll)
  | .state => some (.state outlook.state, outlook)
  | .isPlaying index => some (.isPlaying (outlook.state == .playing index), outlook)
  | .wait meanwhile =>
    (outlook.waitThrough fun during ↦ meanwhile.foldl happen during).map (Prod.map .index id)
  | .event event => some (.nothing, outlook.happen event)

end Outlook

/-! ## The outlook of a device -/

namespace Device

variable {device : Device} {id n : Nat}

/-- Whether the signal of a playback is still on its way, and when it is due. -/
def prospect (device : Device) (id : Nat) : Prospect :=
  match device.playbacks[id]? with
  | some playback => if playback.signal = .pending then .awaited playback.deadline else .past
  | none => .past

/-- What counts of a device, of which a player holds a playback. -/
def outlook (device : Device) (held : Option Held) : Outlook where
  kind := device.kind
  clock := device.clock
  conduct := device.conduct
  count := device.playbacks.length
  requests := Log.requests device.log
  held := held

@[simp]
theorem held_outlook (held : Option Held) : (device.outlook held).held = held := rfl

@[simp]
theorem kind_outlook (held : Option Held) : (device.outlook held).kind = device.kind := rfl

@[simp]
theorem clock_outlook (held : Option Held) : (device.outlook held).clock = device.clock := rfl

@[simp]
theorem conduct_outlook (held : Option Held) : (device.outlook held).conduct = device.conduct := rfl

@[simp]
theorem forget_outlook (held : Option Held) : (device.outlook held).forget = device.outlook none :=
  rfl

theorem prospect_eq_past_iff : device.prospect id = .past ↔ ¬device.IsPending id := by
  unfold prospect IsPending
  cases device.playbacks[id]? with
  | none => simp
  | some playback => cases h : playback.signal <;> simp [h]

/-- A change to one playback leaves the prospects of the others alone. -/
theorem prospect_update_of_ne (change : Playback → Playback) (h : id ≠ n) :
    (device.update id change).prospect n = device.prospect n := by
  simp only [prospect, update, List.getElem?_modify, if_neg h, Option.map_eq_map, Option.map_id']

theorem outlook_update (change : Playback → Playback) (held : Option Held) :
    (device.update id change).outlook held = device.outlook held := by
  simp only [outlook, update, List.length_modify]

/-- An end that is written down is not a request. -/
theorem requests_append_ended (log : List DeviceEvent) (ids : List Nat) :
    Log.requests (log ++ ids.map .ended) = Log.requests log := by
  simp [Log.requests, List.filter_map, DeviceEvent.isRequest, Function.comp_def]

/-! ### Signals -/

theorem outlook_listen (held : Option Held) :
    (device.listen id).2.outlook held = device.outlook held := by
  unfold listen
  split
  · rfl
  · exact outlook_update _ held
  · rfl

theorem outlook_give (signal : Signal) (held : Option Held) :
    (device.give id signal).outlook held = device.outlook held := by
  simp [outlook, give, record, update, Log.requests, DeviceEvent.isRequest]

theorem prospect_give {signal : Signal} (hpending : device.IsPending id)
    (hsignal : signal ≠ .pending) :
    (device.give id signal).prospect n = if id = n then .past else device.prospect n := by
  split
  · rename_i hn
    have hafter : ¬(device.give id signal).IsPending n := fun h ↦ by
      simpa [hn] using ((gives_give hpending hsignal).isPending_iff n).1 h
    exact prospect_eq_past_iff.2 hafter
  · rename_i hn
    exact prospect_update_of_ne _ hn

/-- Only a manual device gives a signal when it is told to, and it concerns one playback. -/
theorem prospect_release (send listening : Bool) :
    (device.release id send listening).2.prospect n =
      if device.kind = .manual ∧ id = n then .past else device.prospect n := by
  unfold release
  split
  · rename_i hholds
    have hpending := isPending_of_holds hholds
    have hkind : device.kind = .manual := by
      simp only [holds, Bool.and_eq_true, beq_iff_eq] at hholds
      exact hholds.1
    simp only [hkind, true_and]
    split
    · exact prospect_give hpending (by decide)
    · exact prospect_give hpending (by decide)
    · exact prospect_give hpending (by decide)
  · rename_i hholds
    split
    · rename_i hn
      obtain ⟨hkind, rfl⟩ := hn
      refine prospect_eq_past_iff.2 fun hpending ↦ hholds ?_
      simpa [holds, hkind, Option.any_eq_true, IsPending] using hpending
    · rfl

theorem outlook_release (send listening : Bool) (held : Option Held) :
    (device.release id send listening).2.outlook held = device.outlook held := by
  unfold release
  split
  · split
    · exact outlook_give _ held
    · exact outlook_give _ held
    · exact outlook_give _ held
  · rfl

/-- A device that settles has given the signals that are due, and no others. -/
theorem prospect_settle :
    device.settle.prospect n = (device.prospect n).settle device.clock := by
  simp only [prospect, settle, List.getElem?_map]
  cases device.playbacks[n]? with
  | none => rfl
  | some playback =>
    by_cases hpending : playback.signal = .pending
    · cases hdeadline : playback.deadline with
      | none => simp [isDue, hpending, hdeadline, Prospect.settle]
      | some deadline =>
        by_cases hreached : deadline ≤ device.clock <;>
          simp [isDue, hpending, hdeadline, hreached, Prospect.settle]
    · simp [isDue, hpending, Prospect.settle]

theorem outlook_settle (held : Option Held) : device.settle.outlook held = device.outlook held := by
  simp only [outlook, settle, requests_append_ended, List.length_map]

theorem outlook_advance (time : Nat) (held : Option Held) :
    (device.advance time).outlook held =
      { device.outlook held with clock := device.clock + time } :=
  outlook_settle held

/-- The time goes by until the deadline of a playback whose end is to come. -/
theorem advanceTo_of_prospect {deadline : Option Nat} (h : device.prospect id = .awaited deadline) :
    device.advanceTo id = deadline.map fun deadline ↦ device.advance (deadline - device.clock) := by
  unfold prospect at h
  unfold advanceTo
  cases hplayback : device.playbacks[id]? with
  | none => simp [hplayback] at h
  | some playback =>
    simp only [hplayback] at h
    split at h
    · cases h
      cases hdeadline : playback.deadline <;> simp [hdeadline]
    · cases h

/-! ### Requests -/

theorem outlook_refused (held : Option Held) :
    (device.record .refused).outlook held = (device.outlook held).ask .refused := by
  simp [outlook, record, Outlook.ask, Log.requests, DeviceEvent.isRequest]

theorem outlook_stop (held : Option Held) :
    (device.stop id).outlook held = (device.outlook held).ask (.stopped id) := by
  simp [outlook, stop, record, update, Outlook.ask, Log.requests, DeviceEvent.isRequest]

theorem launch_kind (buffer : Buffer) (deadline : Option Nat) :
    (device.launch buffer deadline).kind = device.kind := rfl

theorem prospect_launch (buffer : Buffer) (deadline : Option Nat) :
    (device.launch buffer deadline).prospect device.playbacks.length = .awaited deadline := by
  simp [launch, record, prospect]

theorem outlook_launch (buffer : Buffer) (deadline : Option Nat) (index : Nat)
    (prospect : Prospect) :
    (device.launch buffer deadline).outlook (some ⟨index, device.playbacks.length, prospect⟩) =
      (device.outlook none).launch index buffer prospect := by
  simp [outlook, launch, record, Outlook.launch, Outlook.ask, Log.requests, DeviceEvent.isRequest]

end Device

/-! ## The outlook of a player -/

namespace Player

open Stateful

variable {player : Player} {active : ActivePlayback} {device : Device}

/-- Whether the end of a playback that the player holds is still to come.  If the player has seen
the end, it does not go by the device any more. -/
def prospect (player : Player) (active : ActivePlayback) : Prospect :=
  if active.finished then .past else player.device.prospect active.id

/-- What counts of the playback that the player holds. -/
def held? (player : Player) : Option Held :=
  player.active.map fun active ↦ ⟨active.index, active.id, player.prospect active⟩

/-- What counts of a player. -/
def outlook (player : Player) : Outlook := player.device.outlook player.held?

theorem device_prospect_of_awaited {deadline : Option Nat}
    (h : player.prospect active = .awaited deadline) :
    player.device.prospect active.id = .awaited deadline := by
  unfold prospect at h
  split at h
  · cases h
  · exact h

/-- Looking finds that the end of a playback is still to come, and changes nothing, or that it is
over, and changes nothing about the device that counts. -/
theorem look_prospect (h : player.active = some active) :
    (∃ deadline, player.prospect active = .awaited deadline ∧
      look active player = (false, player)) ∨
      ∃ device, player.prospect active = .past ∧
        (∀ held, device.outlook held = player.device.outlook held) ∧
        look active player = (true, ⟨device, some { active with finished := true }⟩) := by
  unfold look prospect
  split
  · rename_i hfinished
    refine .inr ⟨player.device, rfl, fun _ ↦ rfl, ?_⟩
    rw [← hfinished, ← h]
  · by_cases hpending : player.device.IsPending active.id
    · have hlook := Device.listen_of_isPending hpending
      cases hprospect : player.device.prospect active.id with
      | past => exact absurd hpending (Device.prospect_eq_past_iff.1 hprospect)
      | awaited deadline => exact .inl ⟨deadline, rfl, by rw [hlook]⟩
    · refine .inr ⟨(player.device.listen active.id).2, Device.prospect_eq_past_iff.2 hpending,
        Device.outlook_listen, ?_⟩
      have hheard : (player.device.listen active.id).1 = true := by
        simpa using mt Device.listen_eq_false_iff.1 hpending
      rw [show player.device.listen active.id = (true, (player.device.listen active.id).2) from
        Prod.ext hheard rfl]

theorem outlook_of_active_eq_none (h : player.active = none) :
    player.outlook = player.device.outlook none := by
  rw [outlook, held?, h, Option.map_none]

theorem outlook_of_active_eq_some (h : player.active = some active) :
    player.outlook =
      player.device.outlook (some ⟨active.index, active.id, player.prospect active⟩) := by
  rw [outlook, held?, h, Option.map_some]

@[simp]
theorem outlook_none (device : Device) : outlook ⟨device, none⟩ = device.outlook none := rfl

@[simp]
theorem outlook_finished (device : Device) (active : ActivePlayback) :
    outlook ⟨device, some { active with finished := true }⟩ =
      device.outlook (some ⟨active.index, active.id, .past⟩) := rfl

@[simp]
theorem outlook_unfinished (device : Device) (index id : Nat) :
    outlook ⟨device, some ⟨index, id, false⟩⟩ =
      device.outlook (some ⟨index, id, device.prospect id⟩) := rfl

/-! ### Requests -/

/-- The outlook tells what is playing, and asking for it changes nothing about the outlook. -/
theorem map_state (player : Player) :
    Prod.map id outlook (state player) = (player.outlook.state, player.outlook) := by
  cases h : player.active with
  | none => simp [state, h, outlook_of_active_eq_none h, Outlook.state]
  | some active =>
    rcases look_prospect h with ⟨deadline, hprospect, hlook⟩ | ⟨device, hprospect, hsame, hlook⟩
    · simp [state, h, hlook, outlook_of_active_eq_some h, hprospect, Outlook.state]
    · simp [state, h, hlook, outlook_of_active_eq_some h, hprospect, hsame, Outlook.state]

theorem state_outlook (player : Player) : player.outlook.state = (state player).1 :=
  (congrArg Prod.fst (map_state player)).symm

theorem outlook_state (player : Player) : (state player).2.outlook = player.outlook :=
  congrArg Prod.snd (map_state player)

theorem map_poll (player : Player) : Prod.map id outlook (poll player) = player.outlook.poll := by
  cases h : player.active with
  | none => simp [poll, h, outlook_of_active_eq_none h, Outlook.poll, Outlook.state]
  | some active =>
    rcases look_prospect h with ⟨deadline, hprospect, hlook⟩ | ⟨device, hprospect, hsame, hlook⟩
    · simp [poll, state, h, hlook, outlook_of_active_eq_some h, hprospect, Outlook.poll,
        Outlook.state]
    · simp [poll, state, forget, h, hlook, outlook_of_active_eq_some h, hprospect, hsame,
        Outlook.poll, Outlook.state]

theorem map_stop (player : Player) : Prod.map id outlook (stop player) = player.outlook.stop := by
  cases h : player.active with
  | none => simp [stop, h, outlook_of_active_eq_none h, Outlook.stop]
  | some active =>
    rcases look_prospect h with ⟨deadline, hprospect, hlook⟩ | ⟨device, hprospect, hsame, hlook⟩
    · simp [stop, forget, h, hlook, outlook_of_active_eq_some h, hprospect, Outlook.stop,
        Device.outlook_stop]
    · simp [stop, forget, h, hlook, outlook_of_active_eq_some h, hprospect, hsame, Outlook.stop]

theorem map_start (index : Nat) (buffer : Buffer) (player : Player) :
    Prod.map id outlook (start index buffer player) = player.outlook.start index buffer := by
  have hstop : player.outlook.stop.2 = (stop player).2.device.outlook none := by
    rw [← map_stop, Prod.map_snd, outlook_of_active_eq_none (active_stop player)]
  simp only [start, Outlook.start, bind_apply, get_apply, hstop]
  generalize (stop player).2.device = device
  cases hkind : device.kind with
  | timed =>
    simp [Device.start, hkind, Device.prospect_launch, Device.outlook_launch]
  | manual =>
    cases hconduct : device.conduct with
    | refuse failure => simp [Device.start, hkind, hconduct, Device.outlook_refused]
    | keep => simp [Device.start, hkind, hconduct, Device.prospect_launch, Device.outlook_launch]
    | finish send =>
      simp [Device.start, hkind, hconduct, Device.outlook_release, Device.prospect_release,
        Device.launch_kind, Device.outlook_launch]

/-! ### What happens at the device -/

/-- Where a device changes what is to come of its playbacks, it is the same for the playback that a
player holds, unless the player has seen the end. -/
theorem held_of_prospect (change : Nat → Prospect → Prospect)
    (hover : ∀ id, change id .past = .past)
    (hchange : ∀ id, device.prospect id = change id (player.device.prospect id)) :
    held? ⟨device, player.active⟩ = player.held?.map fun held ↦
      { held with prospect := change held.id held.prospect } := by
  cases h : player.active with
  | none => simp [held?, h]
  | some active =>
    by_cases hfinished : active.finished = true
    · simp [held?, h, prospect, hfinished, hover]
    · simp [held?, h, prospect, hfinished, hchange]

theorem outlook_release (id : Nat) (send : Bool) (player : Player) :
    (release id send player).2.outlook =
      if player.outlook.kind = .manual then player.outlook.finish id else player.outlook := by
  have hheld : (release id send player).2.held? = player.held?.map fun held ↦
      { held with prospect :=
          if player.device.kind = .manual ∧ id = held.id then .past else held.prospect } :=
    held_of_prospect
      (fun n prospect ↦ if player.device.kind = .manual ∧ id = n then .past else prospect)
      (fun _ ↦ ite_self _) fun _ ↦ Device.prospect_release ..
  have houtlook : (release id send player).2.outlook =
      player.device.outlook (release id send player).2.held? := Device.outlook_release ..
  rw [houtlook, hheld]
  by_cases hkind : player.device.kind = .manual
  · simp only [hkind, true_and]
    exact (if_pos hkind).symm
  · simp only [hkind, false_and, if_false, Option.map_id']
    exact (if_neg hkind).symm

/-- The signal of a playback that the player does not hold makes no difference. -/
theorem outlook_release_of_not_listensTo {id : Nat} (h : player.listensTo id = false)
    (send : Bool) : (release id send player).2.outlook = player.outlook := by
  rw [outlook_release]
  split
  · cases hactive : player.active with
    | none =>
      rw [outlook_of_active_eq_none hactive]
      rfl
    | some active =>
      have hid : id ≠ active.id := by
        rintro rfl
        simp [listensTo, hactive] at h
      simp only [outlook_of_active_eq_some hactive, Outlook.finish, Device.held_outlook,
        Option.map_some, if_neg hid]
      rfl
  · rfl

theorem outlook_settle (player : Player) : (settle player).2.outlook = player.outlook.settle := by
  have hheld : (settle player).2.held? = player.held?.map fun held ↦
      { held with prospect := held.prospect.settle player.device.clock } :=
    held_of_prospect (fun _ prospect ↦ prospect.settle player.device.clock) (fun _ ↦ rfl)
      fun _ ↦ Device.prospect_settle
  have houtlook : (settle player).2.outlook = player.device.outlook (settle player).2.held? :=
    Device.outlook_settle _
  rw [houtlook, hheld]
  rfl

theorem outlook_happen (event : Event) (player : Player) :
    (happen event player).2.outlook = player.outlook.happen event := by
  cases event with
  | release id send => exact outlook_release id send player
  | elapse time =>
    exact outlook_settle ⟨{ player.device with clock := player.device.clock + time }, player.active⟩
  | settle => exact outlook_settle player
  | behave conduct => rfl

theorem outlook_happen_all (events : List Event) (player : Player) :
    (events.forM happen player).2.outlook = events.foldl Outlook.happen player.outlook := by
  induction events generalizing player with
  | nil => rfl
  | cons event rest ih =>
    rw [List.foldl_cons, ← outlook_happen, ← ih]
    rfl

/-! ### Waiting -/

theorem map_waitForEnd (player : Player) :
    (waitForEnd player).map (Prod.map id outlook) = player.outlook.waitForEnd := by
  cases h : player.active with
  | none => simp [waitForEnd, h, outlook_of_active_eq_none h, Outlook.waitForEnd]
  | some active =>
    rcases look_prospect h with ⟨deadline, hprospect, hlook⟩ | ⟨device, hprospect, hsame, hlook⟩
    · have hadvance := Device.advanceTo_of_prospect (device_prospect_of_awaited hprospect)
      cases deadline <;>
        simp [waitForEnd, h, hlook, hadvance, outlook_of_active_eq_some h, hprospect,
          Outlook.waitForEnd, Device.outlook_advance]
    · simp [waitForEnd, h, hlook, outlook_of_active_eq_some h, hprospect, hsame, Outlook.waitForEnd]

/-- If what happens during a wait can be told from the outlook, so can the wait.  It happens when
the player holds what it held, or nothing any more. -/
theorem map_waitThrough {α : Type} {event : StateM Player α} {change : Outlook → Outlook}
    (hevent : ∀ during : Player, (∀ id, player.listensTo id = false → during.listensTo id = false) →
      (event during).2.outlook = change during.outlook) :
    (waitThrough event player).map (Prod.map Prod.fst outlook) =
      player.outlook.waitThrough change := by
  cases h : player.active with
  | none =>
    have hwait : waitThrough event player = some ((none, (event player).1), (event player).2) := by
      simp only [waitThrough, h]
      rfl
    have hplayer := hevent player fun _ ↦ id
    simp [hwait, hplayer, outlook_of_active_eq_none h, Outlook.waitThrough]
  | some active =>
    rcases look_prospect h with ⟨deadline, hprospect, hlook⟩ | ⟨device, hprospect, hsame, hlook⟩
    · have hwait : waitThrough event player =
          (event player).2.waitForEnd.map fun after ↦ ((after.1, (event player).1), after.2) := by
        simp only [waitThrough, h, hlook, Option.map_eq_bind]
        rfl
      have hend := map_waitForEnd (event player).2
      rw [hevent player fun _ ↦ id, outlook_of_active_eq_some h, hprospect] at hend
      simp only [hwait, outlook_of_active_eq_some h, hprospect, Outlook.waitThrough,
        Device.held_outlook, ← hend, Option.map_map]
      rfl
    · have hwait : waitThrough event player =
          some ((some active.index, (event ⟨device, none⟩).1), (event ⟨device, none⟩).2) := by
        simp only [waitThrough, h, hlook]
        rfl
      have hforgotten := hevent ⟨device, none⟩ fun _ _ ↦ rfl
      simp [hwait, hforgotten, outlook_of_active_eq_some h, hprospect, hsame, Outlook.waitThrough]

/-! ### Answers -/

theorem map_answer (action : Action) (player : Player) :
    (answer action player).map (Prod.map id outlook) = player.outlook.answer action := by
  cases action with
  | start index buffer =>
    simp only [answer, Outlook.answer, ← map_start]
    rfl
  | stop =>
    simp only [answer, Outlook.answer, ← map_stop]
    rfl
  | poll =>
    simp only [answer, Outlook.answer, ← map_poll]
    rfl
  | state => simp [answer, Outlook.answer, state_outlook, outlook_state, Prod.ext_iff]
  | isPlaying index => simp [answer, isPlaying, Outlook.answer, state_outlook, outlook_state]
  | wait meanwhile =>
    have hwait : (waitThrough (meanwhile.forM happen) player).map (Prod.map Prod.fst outlook) =
        player.outlook.waitThrough fun during ↦ meanwhile.foldl Outlook.happen during :=
      map_waitThrough fun during _ ↦ outlook_happen_all meanwhile during
    simp only [answer, Outlook.answer, ← hwait, Option.map_map]
    rfl
  | event event => simp [answer, Outlook.answer, outlook_happen]

end Player
end WaveMill
