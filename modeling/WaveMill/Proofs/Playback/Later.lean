import WaveMill.Proofs.Playback.Run

/-!
# A device some time later

The log of a device only grows, its playbacks keep their numbers, and a signal that is no longer on
its way never is again.  So a playback that was settled without having ended will not end any more,
whatever is asked of the player and whatever happens.  On a timed device that is the fate of every
playback that is stopped, since the device lets go of its signal.

## What is here

* `Device.Later` — how a device relates to what it was before.
* `Player.later_act`, `Player.later_run` — it is so after every action, and after every run.
* `Player.Coherent.stopped_never_ends` — what a timed device was asked to stop never ends.
-/

set_option autoImplicit false
namespace WaveMill

open Stateful Log

/-! ## Devices -/

namespace Device

/-- The device may have become the other one in the course of time. -/
structure Later (device after : Device) : Prop where
  kind : after.kind = device.kind
  length_le : device.playbacks.length ≤ after.playbacks.length
  log : device.log <+: after.log
  /-- No signal is on its way again. -/
  isPending : ∀ id < device.playbacks.length, after.IsPending id → device.IsPending id
  /-- What has ended meanwhile was to end. -/
  ended : ∀ id < device.playbacks.length, .ended id ∈ after.log → .ended id ∉ device.log →
    device.IsPending id

variable {device after : Device} {id : Nat} {ids : List Nat}

theorem Later.refl (device : Device) : device.Later device where
  kind := rfl
  length_le := Nat.le_refl _
  log := List.prefix_rfl
  isPending _ _ := id
  ended _ _ hended hnot := absurd hended hnot

theorem Later.trans {first second third : Device} (h : first.Later second)
    (h' : second.Later third) : first.Later third where
  kind := h'.kind.trans h.kind
  length_le := Nat.le_trans h.length_le h'.length_le
  log := h.log.trans h'.log
  isPending id hid hpending :=
    h.isPending id hid (h'.isPending id (Nat.lt_of_lt_of_le hid h.length_le) hpending)
  ended id hid hended hnot := by
    by_cases hbetween : .ended id ∈ second.log
    · exact h.ended id hid hbetween hnot
    · exact h.isPending id hid (h'.ended id (Nat.lt_of_lt_of_le hid h.length_le) hended hbetween)

theorem Gives.later (h : Gives ids device after) : device.Later after where
  kind := h.kind
  length_le := by
    have hlength := congrArg List.length h.buffers
    simp only [Device.buffers, List.length_map] at hlength
    exact Nat.le_of_eq hlength.symm
  log := h.log ▸ List.prefix_append ..
  isPending _ _ := h.isPending
  ended id _ hended hnot := by
    rw [h.log, List.mem_append] at hended
    obtain ⟨n, hn, hsame⟩ := List.mem_map.1 (hended.resolve_left hnot)
    cases hsame
    exact h.isPending_of_mem id hn

/-- An entry that is no end makes nothing end. -/
theorem ended_of_snoc {log : List DeviceEvent} {event : DeviceEvent} (hevent : event ≠ .ended id)
    (h : .ended id ∈ log ++ [event]) : .ended id ∈ log :=
  (List.mem_append.1 h).resolve_right fun hlast ↦ hevent (List.mem_singleton.1 hlast).symm

theorem later_stop (device : Device) (id : Nat) : device.Later (device.stop id) where
  kind := rfl
  length_le := by simp [stop, record, update]
  log := List.prefix_append ..
  isPending _ _ hpending := (isPending_stop.1 hpending).1
  ended _ _ hended hnot := absurd (ended_of_snoc (by simp) hended) hnot

theorem later_refused (device : Device) : device.Later (device.record .refused) where
  kind := rfl
  length_le := Nat.le_refl _
  log := List.prefix_append ..
  isPending _ _ := id
  ended _ _ hended hnot := absurd (ended_of_snoc (by simp) hended) hnot

theorem later_launch (device : Device) (buffer : Buffer) (deadline : Option Nat) :
    device.Later (device.launch buffer deadline) where
  kind := rfl
  length_le := by simp [launch, record]
  log := List.prefix_append ..
  isPending id hid := by
    simp only [IsPending, launch, record, List.getElem?_append_left hid]
    exact fun hpending ↦ hpending
  ended _ _ hended hnot := absurd (ended_of_snoc (by simp) hended) hnot

end Device

/-! ## Players -/

namespace Player

open Device

variable {player after : Player}

theorem later_state (player : Player) : player.device.Later (state player).2.device := by
  rcases state_cases player with
    ⟨-, hstate⟩ | ⟨active, -, -, hstate⟩ | ⟨active, device, -, -, hgives, hstate⟩
  · rw [hstate]
    exact .refl _
  · rw [hstate]
    exact .refl _
  · rw [hstate]
    exact hgives.later

theorem later_poll (player : Player) : player.device.Later (poll player).2.device := by
  rcases poll_cases player with
    ⟨-, hpoll⟩ | ⟨active, -, -, hpoll⟩ | ⟨active, device, -, -, hgives, hpoll⟩
  · rw [hpoll]
    exact .refl _
  · rw [hpoll]
    exact .refl _
  · rw [hpoll]
    exact hgives.later

theorem later_stop (player : Player) : player.device.Later (stop player).2.device := by
  rcases stop_cases player with
    ⟨-, hstop⟩ | ⟨active, -, -, hstop⟩ | ⟨active, device, -, -, hgives, hstop⟩
  · rw [hstop]
    exact .refl _
  · rw [hstop]
    exact Device.later_stop _ _
  · rw [hstop]
    exact hgives.later

/-- A start comes after the stop that it begins with. -/
theorem later_start (index : Nat) (buffer : Buffer) (player : Player) :
    (stop player).2.device.Later (start index buffer player).2.device := by
  rcases start_cases index buffer player with
    ⟨failure, hstart⟩ | ⟨deadline, ids, after, hgives, hstart⟩
  · rw [hstart]
    exact later_refused _
  · rw [hstart]
    exact (later_launch _ buffer deadline).trans hgives.later

theorem later_happen (event : Event) (player : Player) :
    player.device.Later (happen event player).2.device := by
  cases event with
  | release id send =>
    obtain ⟨ids, hgives⟩ := gives_release id send (player.listensTo id) player.device
    exact hgives.later
  | elapse time =>
    obtain ⟨ids, hgives⟩ := gives_advance time player.device
    exact hgives.later
  | settle =>
    obtain ⟨ids, hgives⟩ := gives_settle player.device
    exact hgives.later
  | behave conduct => exact (gives_conduct conduct).later

theorem later_happen_all (events : List Event) (player : Player) :
    player.device.Later (events.forM happen player).2.device := by
  induction events generalizing player with
  | nil => exact .refl _
  | cons event rest ih => exact (later_happen event player).trans (ih (happen event player).2)

theorem later_waitForEnd {result : Option Nat} (h : waitForEnd player = some (result, after)) :
    player.device.Later after.device := by
  rcases waitForEnd_cases h with ⟨-, -, rfl⟩ | ⟨active, device, ids, -, hgives, -, -, rfl⟩
  · exact .refl _
  · exact hgives.later

theorem later_waitThrough {α : Type} {event : StateM Player α} {result : Option Nat × α}
    (hevent : ∀ player : Player, player.device.Later (event player).2.device)
    (h : waitThrough event player = some (result, after)) : player.device.Later after.device := by
  rcases waitThrough_cases h with
    rfl | ⟨active, device, -, -, hgives, rfl⟩ | ⟨index, hwait⟩
  · exact hevent player
  · exact hgives.later.trans (hevent ⟨device, none⟩)
  · exact (hevent player).trans (later_waitForEnd hwait)

theorem later_act {action : Action} (hact : player.act action = some after) :
    player.device.Later after.device := by
  cases action with
  | start index buffer =>
    obtain rfl := Option.some.inj hact
    exact (later_stop player).trans (later_start index buffer player)
  | stop =>
    obtain rfl := Option.some.inj hact
    exact later_stop player
  | poll =>
    obtain rfl := Option.some.inj hact
    exact later_poll player
  | state =>
    obtain rfl := Option.some.inj hact
    exact later_state player
  | isPlaying index =>
    obtain rfl := Option.some.inj hact
    exact later_state player
  | wait meanwhile =>
    simp only [act, Option.map_eq_some_iff] at hact
    obtain ⟨⟨result, later⟩, hwait, rfl⟩ := hact
    exact later_waitThrough (later_happen_all meanwhile) hwait
  | event event =>
    obtain rfl := Option.some.inj hact
    exact later_happen event player

theorem later_run {actions : List Action} (hrun : player.run actions = some after) :
    player.device.Later after.device := by
  induction actions generalizing player with
  | nil =>
    cases hrun
    exact .refl _
  | cons action rest ih =>
    obtain ⟨next, hact, hrest⟩ := run_cons_eq_some_iff.1 hrun
    exact (later_act hact).trans (ih hrest)

/-- **What a timed device was asked to stop never ends.** -/
theorem Coherent.stopped_never_ends {later : Device} {id : Nat} (h : player.Coherent)
    (hkind : player.device.kind = .timed) (hstopped : .stopped id ∈ player.device.log)
    (hended : .ended id ∉ player.device.log) (hlater : player.device.Later later) :
    .stopped id ∈ later.log ∧ .ended id ∉ later.log := by
  have hlt := h.device.lt_of_stopped hstopped
  refine ⟨hlater.log.subset hstopped, fun hend ↦ ?_⟩
  have hpending := hlater.ended id (by simpa [buffers] using hlt) hend hended
  rw [h.device.isPending_iff id hlt] at hpending
  exact hpending.2 ⟨hkind, hstopped⟩

end Player
end WaveMill
