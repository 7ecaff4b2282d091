import WaveMill.Proofs.Playback.Device
import WaveMill.Proofs.Stateful
import WaveMill.Playback.Player

/-!
# What a player does

Every function of a player is first brought into a form that says what the three kinds of playback
lead to: none is held, one is held and its signal is on its way, or one is held and is over, whether
that was seen before or not.  Short of starting a playback, each of them is then a chain of four
small moves: some signals are given, the end of the playback is remembered, a playback that is over
is let go of, a playback that is not over is stopped.

## What is here

* `Player.look_cases`, `Player.stop_cases`, `Player.state_cases`, `Player.poll_cases`,
  `Player.start_cases`, `Player.waitForEnd_cases` — what each function does.
* `Player.Coherent` — only the playback that the player holds can be live.
* `Player.preview?` — the index and the buffer of that playback.
* `Player.Follows` — a player has become another one without starting anything: it stays coherent,
  and a preview that it holds afterwards it held before.
* `Player.Coherent.start` — after a start only the new playback can be held.
-/

set_option autoImplicit false
namespace WaveMill

namespace Player

open Stateful Device Log

variable {player after : Player} {active : ActivePlayback} {device : Device} {ids : List Nat}

/-! ## Looking -/

/-- A playback that the player holds has ended, or its end was seen before. -/
def IsOver (player : Player) (active : ActivePlayback) : Prop :=
  active.finished = true ∨ ¬player.device.IsPending active.id

theorem IsOver.of_gives (h : IsOver player active) (hgives : Gives ids player.device device) :
    IsOver ⟨device, player.active⟩ active :=
  h.imp_right (mt hgives.isPending)

/-- Looking finds that a playback is over, and remembers it, or finds nothing and changes
nothing. -/
theorem look_cases (h : player.active = some active) :
    (¬IsOver player active ∧ look active player = (false, player)) ∨
      ∃ device, IsOver player active ∧ Gives [] player.device device ∧
        look active player = (true, ⟨device, some { active with finished := true }⟩) := by
  unfold look
  split
  · rename_i hfinished
    refine .inr ⟨player.device, .inl hfinished, gives_refl, ?_⟩
    rw [← hfinished, ← h]
  · rename_i hfinished
    by_cases hpending : player.device.IsPending active.id
    · refine .inl ⟨?_, by rw [listen_of_isPending hpending]⟩
      rintro (hover | hover)
      · exact hfinished hover
      · exact hover hpending
    · refine .inr ⟨(player.device.listen active.id).2, .inr hpending, gives_listen .., ?_⟩
      have hheard : (player.device.listen active.id).1 = true := by
        simpa using mt listen_eq_false_iff.1 hpending
      rw [show player.device.listen active.id = (true, (player.device.listen active.id).2) from
        Prod.ext hheard rfl]

/-- What the player says that it does, and that a player that has something to say about a playback
that is over has seen the end. -/
theorem state_cases (player : Player) :
    (player.active = none ∧ state player = (.idle, player)) ∨
      (∃ active, player.active = some active ∧ ¬IsOver player active ∧
        state player = (.playing active.index, player)) ∨
      ∃ active device, player.active = some active ∧ IsOver player active ∧
        Gives [] player.device device ∧
        state player = (.idle, ⟨device, some { active with finished := true }⟩) := by
  cases h : player.active with
  | none => exact .inl ⟨rfl, by simp [state, h]⟩
  | some active =>
    rcases look_cases h with ⟨hlive, hlook⟩ | ⟨device, hover, hgives, hlook⟩
    · exact .inr (.inl ⟨active, rfl, hlive, by simp [state, h, hlook]⟩)
    · exact .inr (.inr ⟨active, device, rfl, hover, hgives, by simp [state, h, hlook]⟩)

/-- Polling is asking for the state, except that a playback that is over is let go of. -/
theorem poll_cases (player : Player) :
    (player.active = none ∧ poll player = (.idle, player)) ∨
      (∃ active, player.active = some active ∧ ¬IsOver player active ∧
        poll player = (.playing active.index, player)) ∨
      ∃ active device, player.active = some active ∧ IsOver player active ∧
        Gives [] player.device device ∧
        poll player = (.idle, ⟨device, none⟩) := by
  cases h : player.active with
  | none => exact .inl ⟨rfl, by simp [poll, h]⟩
  | some active =>
    rcases look_cases h with ⟨hlive, hlook⟩ | ⟨device, hover, hgives, hlook⟩
    · exact .inr (.inl ⟨active, rfl, hlive, by simp [poll, state, h, hlook]⟩)
    · exact .inr (.inr
        ⟨active, device, rfl, hover, hgives, by simp [poll, state, forget, h, hlook]⟩)

/-- **Only a playback that is not over is stopped.**  Afterwards the player holds nothing. -/
theorem stop_cases (player : Player) :
    (player.active = none ∧ stop player = (none, player)) ∨
      (∃ active, player.active = some active ∧ ¬IsOver player active ∧
        stop player = (some active.index, ⟨player.device.stop active.id, none⟩)) ∨
      ∃ active device, player.active = some active ∧ IsOver player active ∧
        Gives [] player.device device ∧
        stop player = (none, ⟨device, none⟩) := by
  cases h : player.active with
  | none => exact .inl ⟨rfl, by simp [stop, h]⟩
  | some active =>
    rcases look_cases h with ⟨hlive, hlook⟩ | ⟨device, hover, hgives, hlook⟩
    · exact .inr (.inl ⟨active, rfl, hlive, by simp [stop, forget, h, hlook]⟩)
    · exact .inr (.inr ⟨active, device, rfl, hover, hgives, by simp [stop, forget, h, hlook]⟩)

theorem active_stop (player : Player) : (stop player).2.active = none := by
  rcases stop_cases player with
    ⟨h, hstop⟩ | ⟨active, -, -, hstop⟩ | ⟨active, device, -, -, -, hstop⟩
  · rwa [hstop]
  · rw [hstop]
  · rw [hstop]

/-! ## Starting and waiting -/

/-- A player that starts stops first, and then asks the device. -/
theorem start_cases (index : Nat) (buffer : Buffer) (player : Player) :
    (∃ failure, start index buffer player =
        (.error failure, ⟨(stop player).2.device.record .refused, none⟩)) ∨
      ∃ deadline ids after, Gives ids ((stop player).2.device.launch buffer deadline) after ∧
        start index buffer player =
          (.ok (), ⟨after, some ⟨index, (stop player).2.device.playbacks.length, false⟩⟩) := by
  rcases Device.start_cases buffer (stop player).2.device with
    ⟨failure, hstart⟩ | ⟨deadline, ids, after, hgives, hstart⟩
  · exact .inl ⟨failure, by simp [start, hstart]⟩
  · exact .inr ⟨deadline, ids, after, hgives, by simp [start, hstart]⟩

/-- A wait that comes to an end leaves nothing behind, and what was held is over. -/
theorem waitForEnd_cases {result : Option Nat} (h : waitForEnd player = some (result, after)) :
    (player.active = none ∧ result = none ∧ after = player) ∨
      ∃ active device ids, player.active = some active ∧ Gives ids player.device device ∧
        (IsOver player active ∨ ¬device.IsPending active.id) ∧
        result = some active.index ∧ after = ⟨device, none⟩ := by
  unfold waitForEnd at h
  cases hactive : player.active with
  | none =>
    rw [hactive] at h
    cases h
    exact .inl ⟨rfl, rfl, rfl⟩
  | some active =>
    rw [hactive] at h
    rcases look_cases hactive with ⟨-, hlook⟩ | ⟨device, hover, hgives, hlook⟩
    · simp only [hlook, Option.bind_eq_bind, Option.bind_eq_some_iff, Option.pure_def,
        Option.some.injEq] at h
      obtain ⟨device, hadvance, heq⟩ := h
      cases heq
      obtain ⟨⟨ids, hgives⟩, hpending⟩ := gives_advanceTo hadvance
      exact .inr ⟨active, device, ids, rfl, hgives, .inr hpending, rfl, rfl⟩
    · simp only [hlook] at h
      cases h
      exact .inr ⟨active, device, [], rfl, hgives, .inl hover, rfl, rfl⟩

/-! ## Coherence -/

/-- The player and its device agree on what is playing. -/
structure Coherent (player : Player) : Prop where
  device : player.device.Coherent
  /-- Only the playback that the player holds can be live. -/
  active_of_live : ∀ id buffer, Live player.device.log id buffer →
    ∃ active, player.active = some active ∧ active.id = id
  started : ∀ active, player.active = some active →
    ∃ buffer, .started active.id buffer ∈ player.device.log
  not_stopped : ∀ active, player.active = some active → .stopped active.id ∉ player.device.log
  /-- What the player remembers of an end is true. -/
  ended : ∀ active, player.active = some active → active.finished = true →
    .ended active.id ∈ player.device.log

/-- A player that holds nothing agrees with a device at which nothing is live. -/
theorem coherent_of_active_eq_none (hdevice : player.device.Coherent)
    (hactive : player.active = none) (hlive : ∀ id buffer, ¬Live player.device.log id buffer) :
    player.Coherent := by
  have hnone : ∀ active, player.active ≠ some active := by simp [hactive]
  exact
    { device := hdevice
      active_of_live := fun id buffer h ↦ absurd h (hlive id buffer)
      started := fun active h ↦ absurd h (hnone active)
      not_stopped := fun active h ↦ absurd h (hnone active)
      ended := fun active h ↦ absurd h (hnone active) }

theorem coherent_new (kind : DeviceKind) : Coherent (.new (.new kind)) :=
  coherent_of_active_eq_none (Device.coherent_new kind) rfl fun _ _ h ↦ List.not_mem_nil h.1

/-- The index and the buffer of the playback that a player holds. -/
def preview? (player : Player) : Option (Nat × Buffer) := do
  let active ← player.active
  let buffer ← player.device.buffers[active.id]?
  return (active.index, buffer)

namespace Coherent

variable (h : player.Coherent)
include h

theorem ended_of_isOver (hactive : player.active = some active) (hover : IsOver player active) :
    .ended active.id ∈ player.device.log := by
  rcases hover with hfinished | hpending
  · exact h.ended active hactive hfinished
  · obtain ⟨buffer, hbuffer⟩ := h.started active hactive
    rw [h.device.isPending_iff _ (h.device.lt_of_started hbuffer)] at hpending
    have hstopped := h.not_stopped active hactive
    tauto

theorem live_of_not_isOver (hactive : player.active = some active) (hover : ¬IsOver player active) :
    ∃ buffer, Live player.device.log active.id buffer := by
  obtain ⟨buffer, hbuffer⟩ := h.started active hactive
  refine ⟨buffer, hbuffer, ?_⟩
  rintro (hstopped | hended)
  · exact h.not_stopped active hactive hstopped
  · refine hover (.inr fun hpending ↦ ?_)
    exact h.device.not_ended_of_isPending hpending hended

theorem not_live_of_active (hactive : player.active = none) (id : Nat) (buffer : Buffer) :
    ¬Live player.device.log id buffer := by
  intro hlive
  obtain ⟨active, hsome, -⟩ := h.active_of_live id buffer hlive
  rw [hactive] at hsome
  cases hsome

/-- A playback that has ended can be let go of. -/
theorem forget (hactive : player.active = some active)
    (hended : .ended active.id ∈ player.device.log) :
    Coherent ⟨player.device, none⟩ := by
  refine coherent_of_active_eq_none h.device rfl fun id buffer hlive ↦ ?_
  obtain ⟨held, hheld, rfl⟩ := h.active_of_live id buffer hlive
  obtain rfl : active = held := Option.some.inj (hactive.symm.trans hheld)
  exact hlive.2 (.inr hended)

/-- What the player holds can be marked as over once it has ended. -/
theorem mark (hactive : player.active = some active)
    (hended : .ended active.id ∈ player.device.log) :
    Coherent ⟨player.device, some { active with finished := true }⟩ where
  device := h.device
  active_of_live id buffer hlive := by
    obtain ⟨held, hheld, rfl⟩ := h.active_of_live id buffer hlive
    obtain rfl : active = held := Option.some.inj (hactive.symm.trans hheld)
    exact ⟨_, rfl, rfl⟩
  started _ hmarked := by
    cases hmarked
    exact h.started active hactive
  not_stopped _ hmarked := by
    cases hmarked
    exact h.not_stopped active hactive
  ended _ hmarked _ := by
    cases hmarked
    exact hended

theorem gives (hgives : Gives ids player.device device) : Coherent ⟨device, player.active⟩ where
  device := h.device.gives hgives
  active_of_live id buffer hlive := by
    rw [hgives.log, live_append_ended_iff] at hlive
    exact h.active_of_live id buffer hlive.1
  started active hactive := by
    obtain ⟨buffer, hbuffer⟩ := h.started active hactive
    refine ⟨buffer, ?_⟩
    rw [hgives.log]
    exact List.mem_append_left _ hbuffer
  not_stopped active hactive := by
    have hstopped := h.not_stopped active hactive
    rw [hgives.log]
    simp [hstopped]
  ended active hactive hfinished := by
    rw [hgives.log]
    exact List.mem_append_left _ (h.ended active hactive hfinished)

/-- Once a playback that is not over has been stopped, none is live. -/
theorem halt (hactive : player.active = some active) (hover : ¬IsOver player active) :
    Coherent ⟨player.device.stop active.id, none⟩ := by
  obtain ⟨buffer, hlive⟩ := h.live_of_not_isOver hactive hover
  refine coherent_of_active_eq_none (h.device.stop hlive) rfl fun id buffer hlater ↦ ?_
  obtain ⟨hbefore, hid⟩ := live_snoc_stopped_iff.1 hlater
  obtain ⟨held, hheld, rfl⟩ := h.active_of_live id buffer hbefore
  obtain rfl : active = held := Option.some.inj (hactive.symm.trans hheld)
  exact hid rfl

/-- A device that refuses leaves a player that holds nothing as it is. -/
theorem refused (hactive : player.active = none) :
    Coherent ⟨player.device.record .refused, none⟩ := by
  have hlive := h.not_live_of_active hactive
  refine coherent_of_active_eq_none (h.device.refused hlive) rfl fun id buffer hlater ↦ ?_
  refine hlive id buffer ?_
  simpa [Live, Over, record] using hlater

/-- A player that holds nothing may hold the next playback of its device. -/
theorem launch (hactive : player.active = none) (index : Nat) (buffer : Buffer)
    (deadline : Option Nat) :
    Coherent ⟨player.device.launch buffer deadline,
      some ⟨index, player.device.playbacks.length, false⟩⟩ where
  device := h.device.launch (h.not_live_of_active hactive) deadline
  active_of_live id later hlive := by
    refine ⟨_, rfl, ?_⟩
    obtain ⟨hstarted, hover⟩ := hlive
    simp only [Device.launch, record, List.mem_append, List.mem_singleton] at hstarted
    rcases hstarted with hstarted | hnew
    · refine absurd ⟨hstarted, fun hbefore ↦ hover ?_⟩ (h.not_live_of_active hactive id later)
      exact hbefore.imp (List.mem_append_left _) (List.mem_append_left _)
    · cases hnew
      rfl
  started _ hnew := by
    cases hnew
    exact ⟨buffer, by simp [Device.launch, record]⟩
  not_stopped _ hnew := by
    cases hnew
    intro hstopped
    have hlt := h.device.lt_of_stopped (by simpa [Device.launch, record] using hstopped)
    simp [buffers] at hlt
  ended _ hnew hfinished := by
    cases hnew
    cases hfinished

end Coherent

/-! ## Following -/

/-- A player has become another one without starting anything. -/
structure Follows (player after : Player) : Prop where
  coherent : player.Coherent → after.Coherent
  preview : ∀ x ∈ after.preview?, x ∈ player.preview?

namespace Follows

theorem refl (player : Player) : Follows player player := ⟨id, fun _ ↦ id⟩

theorem trans {first second third : Player} (h : Follows first second) (h' : Follows second third) :
    Follows first third :=
  ⟨fun hfirst ↦ h'.coherent (h.coherent hfirst), fun x hx ↦ h.preview x (h'.preview x hx)⟩

theorem of_gives (h : Gives ids player.device device) : Follows player ⟨device, player.active⟩ where
  coherent hplayer := hplayer.gives h
  preview x hx := by
    simp only [preview?, h.buffers] at hx
    exact hx

theorem of_forget (hactive : player.active = some active) (hover : IsOver player active) :
    Follows player ⟨player.device, none⟩ where
  coherent h := h.forget hactive (h.ended_of_isOver hactive hover)
  preview x hx := by cases hx

theorem of_mark (hactive : player.active = some active) (hover : IsOver player active) :
    Follows player ⟨player.device, some { active with finished := true }⟩ where
  coherent h := h.mark hactive (h.ended_of_isOver hactive hover)
  preview x hx := by
    rw [preview?, hactive]
    exact hx

theorem of_halt (hactive : player.active = some active) (hover : ¬IsOver player active) :
    Follows player ⟨player.device.stop active.id, none⟩ where
  coherent h := h.halt hactive hover
  preview x hx := by cases hx

end Follows

theorem follows_state (player : Player) : Follows player (state player).2 := by
  rcases state_cases player with
    ⟨-, hstate⟩ | ⟨active, -, -, hstate⟩ | ⟨active, device, hactive, hover, hgives, hstate⟩
  · rw [hstate]
    exact .refl player
  · rw [hstate]
    exact .refl player
  · rw [hstate]
    exact (Follows.of_gives hgives).trans (.of_mark hactive (hover.of_gives hgives))

theorem follows_poll (player : Player) : Follows player (poll player).2 := by
  rcases poll_cases player with
    ⟨-, hpoll⟩ | ⟨active, -, -, hpoll⟩ | ⟨active, device, hactive, hover, hgives, hpoll⟩
  · rw [hpoll]
    exact .refl player
  · rw [hpoll]
    exact .refl player
  · rw [hpoll]
    exact (Follows.of_gives hgives).trans (.of_forget hactive (hover.of_gives hgives))

theorem follows_stop (player : Player) : Follows player (stop player).2 := by
  rcases stop_cases player with
    ⟨-, hstop⟩ | ⟨active, hactive, hover, hstop⟩ | ⟨active, device, hactive, hover, hgives, hstop⟩
  · rw [hstop]
    exact .refl player
  · rw [hstop]
    exact .of_halt hactive hover
  · rw [hstop]
    exact (Follows.of_gives hgives).trans (.of_forget hactive (hover.of_gives hgives))

theorem follows_waitForEnd {result : Option Nat} (h : waitForEnd player = some (result, after)) :
    Follows player after := by
  rcases waitForEnd_cases h with ⟨-, -, rfl⟩ | ⟨active, device, ids, hactive, hgives, hover, -, rfl⟩
  · exact .refl _
  · have hafter : IsOver ⟨device, player.active⟩ active := by
      rcases hover with hover | hpending
      · exact hover.of_gives hgives
      · exact .inr hpending
    exact (Follows.of_gives hgives).trans (.of_forget hactive hafter)

/-- What happens at the device does not start anything. -/
theorem follows_release (id : Nat) (send : Bool) (player : Player) :
    Follows player (release id send player).2 := by
  obtain ⟨ids, hgives⟩ := gives_release id send (player.listensTo id) player.device
  exact .of_gives hgives

theorem follows_elapse (time : Nat) (player : Player) :
    Follows player (elapse time player).2 := by
  obtain ⟨ids, hgives⟩ := gives_advance time player.device
  exact .of_gives hgives

theorem follows_settle (player : Player) : Follows player (settle player).2 := by
  obtain ⟨ids, hgives⟩ := gives_settle player.device
  exact .of_gives hgives

theorem follows_setConduct (conduct : Conduct) (player : Player) :
    Follows player (setConduct conduct player).2 :=
  .of_gives (gives_conduct conduct)

/-! ## After a start -/

/-- A player stays coherent when it starts. -/
theorem Coherent.start (h : player.Coherent) (index : Nat) (buffer : Buffer) :
    (Player.start index buffer player).2.Coherent := by
  have hstop := (follows_stop player).coherent h
  have hnone := active_stop player
  rcases start_cases index buffer player with
    ⟨failure, hstart⟩ | ⟨deadline, ids, after, hgives, hstart⟩
  · rw [hstart]
    exact hstop.refused hnone
  · rw [hstart]
    exact (hstop.launch hnone index buffer deadline).gives hgives

/-- After a start only the new playback can be held. -/
theorem preview_start (index : Nat) (buffer : Buffer) (player : Player) :
    ∀ x ∈ (start index buffer player).2.preview?, x = (index, buffer) := by
  intro x hx
  rcases start_cases index buffer player with
    ⟨failure, hstart⟩ | ⟨deadline, ids, after, hgives, hstart⟩
  · rw [hstart] at hx
    cases hx
  · have hbuffer : after.buffers[(stop player).2.device.playbacks.length]? = some buffer := by
      rw [hgives.buffers]
      simp [buffers, Device.launch, record]
    rw [hstart] at hx
    simp only [preview?, Option.bind_eq_bind, Option.bind_some, hbuffer, Option.pure_def,
      Option.mem_def, Option.some.injEq] at hx
    exact hx.symm

/-- A player that could not start is idle. -/
theorem state_of_start_eq_error {index : Nat} {buffer : Buffer} {failure : Failure}
    (h : (start index buffer player).1 = .error failure) :
    (state (start index buffer player).2).1 = .idle := by
  rcases start_cases index buffer player with
    ⟨failure, hstart⟩ | ⟨deadline, ids, after, hgives, hstart⟩
  · rw [hstart]
    rfl
  · rw [hstart] at h
    cases h

/-- What a coherent player says that it plays is live at the device, and it is the only live
playback. -/
theorem Coherent.live_iff_of_state (h : player.Coherent) {index : Nat}
    (hstate : (state player).1 = .playing index) :
    ∃ id buffer, (index, buffer) ∈ player.preview? ∧
      ∀ n b, Live player.device.log n b ↔ n = id ∧ b = buffer := by
  rcases state_cases player with
    ⟨-, hidle⟩ | ⟨active, hactive, hover, hplaying⟩ | ⟨active, device, -, -, -, hidle⟩
  · rw [hidle] at hstate
    cases hstate
  · rw [hplaying] at hstate
    obtain rfl : active.index = index := PlayState.playing.inj hstate
    obtain ⟨buffer, hlive⟩ := h.live_of_not_isOver hactive hover
    have hbuffer := h.device.started_mem_iff.1 hlive.1
    refine ⟨active.id, buffer, by simp [preview?, hactive, hbuffer], fun n b ↦ ⟨fun hn ↦ ?_, ?_⟩⟩
    · obtain ⟨held, hheld, rfl⟩ := h.active_of_live n b hn
      obtain rfl : active = held := Option.some.inj (hactive.symm.trans hheld)
      have hb := h.device.started_mem_iff.1 hn.1
      exact ⟨rfl, Option.some.inj (hb.symm.trans hbuffer)⟩
    · rintro ⟨rfl, rfl⟩
      exact hlive
  · rw [hidle] at hstate
    cases hstate

end Player
end WaveMill
