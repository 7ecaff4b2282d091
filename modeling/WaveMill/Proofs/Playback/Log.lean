import Mathlib.Data.List.Induction
import Mathlib.Tactic.Tauto
import WaveMill.Playback.Device

/-!
# Logs of a playback device

A device writes down what it is asked to do and when a playback is over, so what a player does with
it can be read off the log.  A playback is *live* from its start until it is stopped or has ended.

A log is orderly if every entry was allowed when it was made: nothing is started while a playback is
live, only a live playback is stopped, and a playback ends once.  That is a property of each entry
and of the entries before it, so a log is shown to be orderly one entry at a time
(`Log.orderly_snoc_iff`), and what matters to the listener follows from it
(`Log.Orderly.exclusive`).

## What is here

* `Log.Over`, `Log.Live` — what became of a playback.
* `Log.Exclusive` — no two playbacks sound at a time, and none is stopped twice or after its end.
* `Log.Allowed`, `Log.Orderly` — the same entry by entry, with the laws that extend a log.
-/

set_option autoImplicit false
namespace WaveMill

/-- Whether an entry tells that the device was asked to start. -/
def DeviceEvent.isStart : DeviceEvent → Bool
  | refused => true
  | started _ _ => true
  | stopped _ => false
  | ended _ => false

/-- The number and the buffer of a playback that an entry tells the start of. -/
def DeviceEvent.started? : DeviceEvent → Option (Nat × Buffer)
  | started id buffer => some (id, buffer)
  | _ => none

namespace Log

variable {log before after : List DeviceEvent} {event : DeviceEvent} {id : Nat} {buffer : Buffer}

/-- A playback was stopped, or its signal was given or let go of. -/
def Over (log : List DeviceEvent) (id : Nat) : Prop := .stopped id ∈ log ∨ .ended id ∈ log

/-- A playback of a buffer was started and is not over. -/
def Live (log : List DeviceEvent) (id : Nat) (buffer : Buffer) : Prop :=
  .started id buffer ∈ log ∧ ¬Over log id

/-- **No two playbacks sound at a time.** -/
structure Exclusive (log : List DeviceEvent) : Prop where
  /-- When the device is asked to start, every earlier playback is over, even if the device
  refuses. -/
  over_of_isStart : ∀ before event after, log = before ++ event :: after → event.isStart = true →
    ∀ id buffer, .started id buffer ∈ before → Over before id
  /-- No playback is stopped twice. -/
  count_stopped_le : ∀ id, log.count (.stopped id) ≤ 1
  /-- A playback is stopped after it was started, and not after it has ended. -/
  of_stopped : ∀ before id after, log = before ++ .stopped id :: after →
    (∃ buffer, .started id buffer ∈ before) ∧ .ended id ∉ before

theorem live_append_ended_iff {ids : List Nat} :
    Live (log ++ ids.map .ended) id buffer ↔ Live log id buffer ∧ id ∉ ids := by
  simp [Live, Over, not_or, and_assoc]

theorem live_snoc_stopped_iff {stopped : Nat} :
    Live (log ++ [.stopped stopped]) id buffer ↔ Live log id buffer ∧ id ≠ stopped := by
  simp only [Live, Over, List.mem_append, List.mem_singleton, DeviceEvent.stopped.injEq,
    reduceCtorEq, or_false, not_or, ne_eq]
  tauto

/-! ## Entry by entry -/

/-- What may be added to a log. -/
def Allowed (before : List DeviceEvent) : DeviceEvent → Prop
  | .refused => ∀ id buffer, ¬Live before id buffer
  | .started _ _ => ∀ id buffer, ¬Live before id buffer
  | .stopped id => ∃ buffer, Live before id buffer
  | .ended id => (∃ buffer, .started id buffer ∈ before) ∧ .ended id ∉ before

/-- Every entry was allowed when it was made. -/
def Orderly (log : List DeviceEvent) : Prop :=
  ∀ before event, before ++ [event] <+: log → Allowed before event

theorem orderly_nil : Orderly [] := by
  intro before event h
  simp at h

/-- **A log is orderly up to its last entry, and that entry was allowed.** -/
theorem orderly_snoc_iff : Orderly (log ++ [event]) ↔ Orderly log ∧ Allowed log event := by
  constructor
  · intro h
    exact ⟨fun before e he ↦ h before e (he.trans (List.prefix_append ..)),
      h log event List.prefix_rfl⟩
  · rintro ⟨hlog, hevent⟩ before e he
    rcases List.prefix_concat_iff.1 he with he | he
    · obtain ⟨rfl, hlast⟩ := List.append_inj' he rfl
      rwa [(List.cons.inj hlast).1]
    · exact hlog before e he

theorem Orderly.allowed (h : Orderly (before ++ event :: after)) : Allowed before event :=
  h before event ⟨after, by simp⟩

/-- Playbacks that have not ended may do so in any order. -/
theorem Orderly.append_ended {ids : List Nat} (h : Orderly log) (hids : ids.Nodup)
    (hstarted : ∀ id ∈ ids, ∃ buffer, .started id buffer ∈ log)
    (hended : ∀ id ∈ ids, .ended id ∉ log) :
    Orderly (log ++ ids.map .ended) := by
  induction ids using List.reverseRecOn with
  | nil => simpa using h
  | append_singleton ids id ih =>
    obtain ⟨hids, hid⟩ : ids.Nodup ∧ id ∉ ids := by
      simpa [List.nodup_append, List.forall_mem_ne'] using hids
    have hlog := ih hids (fun n hn ↦ hstarted n (by simp [hn])) fun n hn ↦ hended n (by simp [hn])
    rw [List.map_append, ← List.append_assoc]
    refine orderly_snoc_iff.2 ⟨hlog, ?_, ?_⟩
    · obtain ⟨buffer, hbuffer⟩ := hstarted id (by simp)
      exact ⟨buffer, List.mem_append_left _ hbuffer⟩
    · have := hended id (by simp)
      simp [this, hid]

/-! ## What an orderly log tells -/

theorem Orderly.started_of_ended (h : Orderly log) (hid : .ended id ∈ log) :
    ∃ buffer, .started id buffer ∈ log := by
  obtain ⟨before, after, rfl⟩ := List.append_of_mem hid
  obtain ⟨⟨buffer, hbuffer⟩, -⟩ := h.allowed
  exact ⟨buffer, List.mem_append_left _ hbuffer⟩

theorem Orderly.started_of_stopped (h : Orderly log) (hid : .stopped id ∈ log) :
    ∃ buffer, .started id buffer ∈ log := by
  obtain ⟨before, after, rfl⟩ := List.append_of_mem hid
  obtain ⟨buffer, hbuffer, -⟩ := h.allowed
  exact ⟨buffer, List.mem_append_left _ hbuffer⟩

theorem Orderly.count_stopped_le (h : Orderly log) : log.count (.stopped id) ≤ 1 := by
  induction log using List.reverseRecOn with
  | nil => simp
  | append_singleton log event ih =>
    obtain ⟨hlog, hevent⟩ := orderly_snoc_iff.1 h
    rw [List.count_append]
    by_cases he : event = .stopped id
    · subst he
      obtain ⟨buffer, -, hover⟩ := hevent
      have hnot : .stopped id ∉ log := fun hid ↦ hover (.inl hid)
      rw [List.count_eq_zero_of_not_mem hnot]
      simp
    · rw [List.count_eq_zero_of_not_mem (l := [event]) (by simpa using Ne.symm he)]
      exact ih hlog

theorem Orderly.exclusive (h : Orderly log) : Exclusive log where
  over_of_isStart := by
    rintro before event after rfl hevent id buffer hid
    have hlive : ∀ id buffer, ¬Live before id buffer := by
      have := h.allowed
      cases event with
      | refused => exact this
      | started => exact this
      | stopped => cases hevent
      | ended => cases hevent
    by_contra hover
    exact hlive id buffer ⟨hid, hover⟩
  count_stopped_le _ := h.count_stopped_le
  of_stopped := by
    rintro before id after rfl
    obtain ⟨buffer, hstarted, hover⟩ := h.allowed
    exact ⟨⟨buffer, hstarted⟩, fun hid ↦ hover (.inr hid)⟩

end Log
end WaveMill
