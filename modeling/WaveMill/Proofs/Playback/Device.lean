import Mathlib.Data.List.Nodup
import Mathlib.Tactic.Tauto
import WaveMill.Proofs.Playback.Log

/-!
# What a device does, and what its log says about it

Whatever happens at a device between two requests of its player comes down to one thing: some
signals that were still on their way are given or let go of.  `Device.Gives` says so, with the
numbers of the playbacks, and every function of the device other than starting and stopping is shown
to be an instance of it.

## What is here

* `Device.buffers`, `Device.IsPending` — what the device knows of its playbacks that counts: their
  buffers, and which signals are on their way.
* `Device.Gives` — some signals were given; `Device.gives_listen`, `Device.gives_release`,
  `Device.gives_settle`, `Device.gives_advance`.
* `Device.start_cases` — a device that is asked to start refuses, or launches a playback.
* `Device.Coherent` — the log is orderly and agrees with the playbacks.  It is kept by every step
  (`Coherent.gives`, `Coherent.refused`, `Coherent.launch`, `Coherent.stop`).
-/

set_option autoImplicit false
namespace WaveMill
namespace Device

open Log

/-- The buffers of all playbacks so far. -/
def buffers (device : Device) : List Buffer := device.playbacks.map Playback.buffer

/-- The signal of a playback is still on its way. -/
def IsPending (device : Device) (id : Nat) : Prop :=
  ∃ playback, device.playbacks[id]? = some playback ∧ playback.signal = .pending

/-- Some signals that were on their way have been given or let go of, and the log says so; nothing
else has changed, except perhaps the clock, what the device will do when it is asked to start, and
whether a signal that was given has been seen. -/
structure Gives (ids : List Nat) (device after : Device) : Prop where
  kind : after.kind = device.kind
  buffers : after.buffers = device.buffers
  log : after.log = device.log ++ ids.map .ended
  nodup : ids.Nodup
  isPending_of_mem : ∀ id ∈ ids, device.IsPending id
  isPending_iff : ∀ id, after.IsPending id ↔ device.IsPending id ∧ id ∉ ids

variable {device after : Device} {id : Nat} {ids : List Nat} {buffer : Buffer}

/-- A signal that is still on its way was so before. -/
theorem Gives.isPending (h : Gives ids device after) (hid : after.IsPending id) :
    device.IsPending id :=
  ((h.isPending_iff id).1 hid).1

theorem buffers_update (device : Device) (id : Nat) {change : Playback → Playback}
    (h : ∀ playback, (change playback).buffer = playback.buffer) :
    (device.update id change).buffers = device.buffers := by
  refine List.ext_getElem? fun n ↦ ?_
  simp only [buffers, update, List.getElem?_map, List.getElem?_modify]
  cases device.playbacks[n]? with
  | none => rfl
  | some playback => by_cases hn : id = n <;> simp [hn, h]

theorem isPending_update (device : Device) (id : Nat) {change : Playback → Playback} {n : Nat} :
    (device.update id change).IsPending n ↔ ∃ playback, device.playbacks[n]? = some playback ∧
      (if id = n then change playback else playback).signal = .pending := by
  simp only [IsPending, update, List.getElem?_modify]
  by_cases hn : id = n <;> cases device.playbacks[n]? <;> simp [hn]

theorem lt_of_isPending (h : device.IsPending id) : id < device.playbacks.length := by
  obtain ⟨playback, hplayback, -⟩ := h
  exact (List.getElem?_eq_some_iff.1 hplayback).1

/-! ## Signals -/

theorem gives_refl : Gives [] device device where
  kind := rfl
  buffers := rfl
  log := by simp
  nodup := List.nodup_nil
  isPending_of_mem := by simp
  isPending_iff := by simp

/-- A device that is told what to do when it is asked to start does nothing yet. -/
theorem gives_conduct (conduct : Conduct) : Gives [] device { device with conduct } :=
  { gives_refl with }

/-- A player that looks for a signal learns whether it is still on its way. -/
theorem listen_eq_false_iff : (device.listen id).1 = false ↔ device.IsPending id := by
  unfold listen IsPending
  cases device.playbacks[id]? with
  | none => simp
  | some playback => cases h : playback.signal <;> simp [h]

/-- Looking for a signal changes nothing that counts. -/
theorem gives_listen (id : Nat) (device : Device) : Gives [] device (device.listen id).2 := by
  unfold listen
  split
  · exact gives_refl
  · rename_i hdelivered
    refine ⟨rfl, buffers_update _ _ fun _ ↦ rfl, by simp [update], List.nodup_nil, by simp,
      fun n ↦ ?_⟩
    rw [isPending_update]
    by_cases hn : id = n
    · subst hn
      have hpending : ¬device.IsPending id := by
        rintro ⟨playback, hplayback, hpending⟩
        simp [hplayback, hpending] at hdelivered
      simp [hpending]
    · simp [IsPending, hn]
  · exact gives_refl

theorem listen_of_isPending (h : device.IsPending id) : device.listen id = (false, device) := by
  obtain ⟨playback, hplayback, hpending⟩ := h
  simp [listen, hplayback, hpending]

theorem gives_give {signal : Signal} (h : device.IsPending id) (hsignal : signal ≠ .pending) :
    Gives [id] device (device.give id signal) where
  kind := rfl
  buffers := buffers_update _ _ fun _ ↦ rfl
  log := rfl
  nodup := List.nodup_singleton id
  isPending_of_mem := by simpa using h
  isPending_iff n := by
    have hgive : (device.give id signal).IsPending n ↔
        (device.update id fun playback ↦ { playback with signal }).IsPending n := Iff.rfl
    rw [hgive, isPending_update]
    by_cases hn : id = n
    · simp [hn, hsignal]
    · simp [IsPending, hn, Ne.symm hn]

theorem isPending_of_holds (h : device.holds id = true) : device.IsPending id := by
  simp only [holds, Bool.and_eq_true, Option.any_eq_true, beq_iff_eq] at h
  exact h.2

/-- A release gives the signal that the device holds, if it does. -/
theorem gives_release (id : Nat) (send listening : Bool) (device : Device) :
    ∃ ids, Gives ids device (device.release id send listening).2 := by
  unfold release
  split
  · rename_i hholds
    have hpending := isPending_of_holds hholds
    refine ⟨[id], ?_⟩
    split
    · exact gives_give hpending (by decide)
    · exact gives_give hpending (by decide)
    · exact gives_give hpending (by decide)
  · exact ⟨[], gives_refl⟩

theorem isPending_settle : device.settle.IsPending id ↔
    ∃ playback, device.playbacks[id]? = some playback ∧ playback.signal = .pending ∧
      isDue device.clock playback = false := by
  simp only [IsPending, settle, List.getElem?_map]
  cases device.playbacks[id]? with
  | none => simp
  | some playback => cases h : isDue device.clock playback <;> simp [h]

/-- A device that settles gives the signals that are due. -/
theorem gives_settle (device : Device) : ∃ ids, Gives ids device device.settle := by
  refine ⟨(List.range device.playbacks.length).filter fun id ↦
    device.playbacks[id]?.any (isDue device.clock), ?_⟩
  have hmem : ∀ id, (id ∈ (List.range device.playbacks.length).filter fun id ↦
      device.playbacks[id]?.any (isDue device.clock)) ↔
      ∃ playback, device.playbacks[id]? = some playback ∧ isDue device.clock playback = true := by
    intro id
    rw [List.mem_filter, List.mem_range, Option.any_eq_true]
    exact and_iff_right_of_imp fun ⟨_, h, _⟩ ↦ (List.getElem?_eq_some_iff.1 h).1
  refine ⟨rfl, ?_, rfl, List.nodup_range.filter _, fun id hid ↦ ?_, fun id ↦ ?_⟩
  · refine List.ext_getElem? fun n ↦ ?_
    simp only [buffers, settle, List.getElem?_map]
    cases device.playbacks[n]? with
    | none => rfl
    | some playback => cases h : isDue device.clock playback <;> simp [h]
  · obtain ⟨playback, hplayback, hdue⟩ := (hmem id).1 hid
    simp only [isDue, Bool.and_eq_true, beq_iff_eq] at hdue
    exact ⟨playback, hplayback, hdue.1⟩
  · rw [isPending_settle, hmem, IsPending]
    cases device.playbacks[id]? with
    | none => simp
    | some playback => cases h : isDue device.clock playback <;> simp [h]

theorem gives_advance (time : Nat) (device : Device) :
    ∃ ids, Gives ids device (device.advance time) := by
  obtain ⟨ids, h⟩ := gives_settle { device with clock := device.clock + time }
  exact ⟨ids, { h with }⟩

/-- If a playback comes to an end when time goes by, then it has ended at its deadline. -/
theorem gives_advanceTo (h : device.advanceTo id = some after) :
    (∃ ids, Gives ids device after) ∧ ¬after.IsPending id := by
  simp only [advanceTo, Option.bind_eq_bind, Option.pure_def, Option.bind_eq_some_iff,
    Option.some.injEq] at h
  obtain ⟨playback, hplayback, deadline, hdeadline, rfl⟩ := h
  refine ⟨gives_advance _ _, ?_⟩
  rw [advance, isPending_settle]
  rintro ⟨later, hlater, hpending, hdue⟩
  obtain rfl : playback = later := Option.some.inj (hplayback.symm.trans hlater)
  have hreached : deadline ≤ device.clock + (deadline - device.clock) := by omega
  simp [isDue, hpending, hdeadline, hreached] at hdue

/-! ## Starting and stopping -/

/-- A device refuses, or it launches a playback and perhaps gives its signal at once. -/
theorem start_cases (buffer : Buffer) (device : Device) :
    (∃ failure, device.start buffer = (.error failure, device.record .refused)) ∨
      ∃ deadline ids after, Gives ids (device.launch buffer deadline) after ∧
        device.start buffer = (.ok device.playbacks.length, after) := by
  unfold start
  split
  · exact .inr ⟨_, [], _, gives_refl, rfl⟩
  · exact .inl ⟨_, rfl⟩
  · exact .inr ⟨_, [], _, gives_refl, rfl⟩
  · rename_i send _ _
    obtain ⟨ids, hgives⟩ :=
      gives_release device.playbacks.length send true (device.launch buffer none)
    exact .inr ⟨none, ids, _, hgives, rfl⟩

theorem buffers_stop : (device.stop id).buffers = device.buffers :=
  buffers_update _ _ fun _ ↦ rfl

/-- A timed device lets go of the signal of a playback that it stops; a manual one keeps it. -/
theorem isPending_stop {n : Nat} :
    (device.stop id).IsPending n ↔ device.IsPending n ∧ ¬(device.kind = .timed ∧ id = n) := by
  refine (isPending_update device id).trans ?_
  rw [IsPending]
  by_cases hid : id = n
  · simp only [hid, and_true, if_true]
    cases device.playbacks[n]? with
    | none => simp
    | some playback =>
      by_cases hkind : device.kind = .timed <;> by_cases hsignal : playback.signal = .pending <;>
        simp [hkind, hsignal]
  · simp [hid]

/-! ## Coherence -/

/-- The log is orderly, and it tells of every playback which buffer it had and whether its signal is
still on its way.  A timed device lets go of the signal of a playback when it stops it. -/
structure Coherent (device : Device) : Prop where
  orderly : Orderly device.log
  started : device.log.filterMap DeviceEvent.started? = device.buffers.mapIdx Prod.mk
  isPending_iff : ∀ id < device.buffers.length, device.IsPending id ↔
    .ended id ∉ device.log ∧ ¬(device.kind = .timed ∧ .stopped id ∈ device.log)

theorem coherent_new (kind : DeviceKind) : Coherent (.new kind) where
  orderly := orderly_nil
  started := rfl
  isPending_iff id h := absurd h (Nat.not_lt_zero id)

namespace Coherent

variable (h : device.Coherent)
include h

/-- The number of a playback is its place among all playbacks. -/
theorem started_mem_iff : .started id buffer ∈ device.log ↔ device.buffers[id]? = some buffer := by
  have hmem : .started id buffer ∈ device.log ↔
      (id, buffer) ∈ device.log.filterMap DeviceEvent.started? := by
    rw [List.mem_filterMap]
    constructor
    · exact fun hid ↦ ⟨_, hid, rfl⟩
    · rintro ⟨event, hevent, he⟩
      cases event with
      | started n b => cases he; exact hevent
      | refused => cases he
      | stopped => cases he
      | ended => cases he
  rw [hmem, h.started, List.mem_mapIdx, List.getElem?_eq_some_iff]
  constructor
  · rintro ⟨n, hn, he⟩
    cases he
    exact ⟨hn, rfl⟩
  · rintro ⟨hid, rfl⟩
    exact ⟨id, hid, rfl⟩

theorem lt_of_started (hid : .started id buffer ∈ device.log) : id < device.buffers.length :=
  (List.getElem?_eq_some_iff.1 (h.started_mem_iff.1 hid)).1

theorem lt_of_ended (hid : .ended id ∈ device.log) : id < device.buffers.length := by
  obtain ⟨buffer, hbuffer⟩ := h.orderly.started_of_ended hid
  exact h.lt_of_started hbuffer

theorem lt_of_stopped (hid : .stopped id ∈ device.log) : id < device.buffers.length := by
  obtain ⟨buffer, hbuffer⟩ := h.orderly.started_of_stopped hid
  exact h.lt_of_started hbuffer

theorem exists_started (hid : id < device.buffers.length) :
    ∃ buffer, .started id buffer ∈ device.log :=
  ⟨device.buffers[id], h.started_mem_iff.2 (List.getElem?_eq_getElem hid)⟩

theorem not_ended_of_isPending (hid : device.IsPending id) : .ended id ∉ device.log := by
  have hlt : id < device.buffers.length := by simpa [buffers] using lt_of_isPending hid
  exact ((h.isPending_iff id hlt).1 hid).1

/-- A signal that was given was on its way, so that no playback ends twice. -/
theorem gives (hgives : Gives ids device after) : after.Coherent where
  orderly := by
    rw [hgives.log]
    refine h.orderly.append_ended hgives.nodup (fun id hid ↦ ?_) fun id hid ↦ ?_
    · have hlt := lt_of_isPending (hgives.isPending_of_mem id hid)
      exact h.exists_started (by simpa [buffers] using hlt)
    · exact h.not_ended_of_isPending (hgives.isPending_of_mem id hid)
  started := by
    rw [hgives.log, hgives.buffers, List.filterMap_append, h.started]
    simp [List.filterMap_map, DeviceEvent.started?, Function.comp_def]
  isPending_iff id hid := by
    rw [hgives.buffers] at hid
    rw [hgives.isPending_iff, h.isPending_iff id hid, hgives.log, hgives.kind]
    simp
    tauto

/-- A device refuses only when nothing is live. -/
theorem refused (hlive : ∀ id buffer, ¬Live device.log id buffer) :
    (device.record .refused).Coherent where
  orderly := orderly_snoc_iff.2 ⟨h.orderly, hlive⟩
  started := by
    rw [record, List.filterMap_append, h.started]
    simp [DeviceEvent.started?, buffers]
  isPending_iff id hid := by
    have hpending : (device.record .refused).IsPending id ↔ device.IsPending id := Iff.rfl
    rw [hpending, h.isPending_iff id hid]
    simp [record]

/-- A playback is started only when no other one is live. -/
theorem launch (hlive : ∀ id buffer, ¬Live device.log id buffer) (deadline : Option Nat) :
    (device.launch buffer deadline).Coherent where
  orderly := orderly_snoc_iff.2 ⟨h.orderly, hlive⟩
  started := by
    rw [Device.launch, record, List.filterMap_append, h.started]
    simp [DeviceEvent.started?, buffers, List.mapIdx_append]
  isPending_iff id hid := by
    have hlen : (device.launch buffer deadline).buffers.length = device.buffers.length + 1 := by
      simp [Device.launch, record, buffers]
    have hlength : device.playbacks.length = device.buffers.length := by simp [buffers]
    rcases Nat.lt_or_ge id device.buffers.length with hlt | hge
    · have hpending : (device.launch buffer deadline).IsPending id ↔ device.IsPending id := by
        simp [IsPending, Device.launch, record, List.getElem?_append_left (hlength ▸ hlt)]
      rw [hpending, h.isPending_iff id hlt]
      simp [Device.launch, record]
    · -- the new playback has a number that no entry of the log mentions
      obtain rfl : id = device.playbacks.length := by omega
      have hended : .ended device.playbacks.length ∉ device.log := fun hid ↦ by
        have := h.lt_of_ended hid
        omega
      have hstopped : .stopped device.playbacks.length ∉ device.log := fun hid ↦ by
        have := h.lt_of_stopped hid
        omega
      simp [IsPending, Device.launch, record, hended, hstopped]

/-- Only a live playback is stopped. -/
theorem stop (hlive : Live device.log id buffer) : (device.stop id).Coherent where
  orderly := orderly_snoc_iff.2 ⟨h.orderly, buffer, hlive⟩
  started := by
    rw [buffers_stop, Device.stop, record, List.filterMap_append]
    exact (List.append_nil _).trans h.started
  isPending_iff n hn := by
    rw [buffers_stop] at hn
    rw [isPending_stop, h.isPending_iff n hn]
    simp [Device.stop, record, update]
    tauto

end Coherent

end Device
end WaveMill
