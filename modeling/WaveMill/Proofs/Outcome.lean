import WaveMill.Failure

/-!
# Steps of which each may fail

An operation in several steps goes on with what a step returns and stops at the first failure.
These laws work such an operation out when the outcome of its first step is known, and take it apart
when the outcome of the whole is.

## What is here

* `Outcome.ok_bind`, `Outcome.error_bind` — what follows a step that succeeded or failed.
* `Outcome.bind_eq_ok_iff`, `Outcome.bind_eq_error_iff` — the whole succeeds if every step does, and
  fails with the failure of the first step that does not.
* `Outcome.map_eq_ok_iff`, `Outcome.map_eq_error_iff` — what is done with the result changes nothing
  about the failures.
* `Outcome.OnlyAborts` — an operation that has no failures of its own.
-/

set_option autoImplicit false
namespace WaveMill
namespace Outcome

variable {ε α β : Type}

@[simp]
theorem ok_bind (a : α) (f : α → Except ε β) : (Except.ok a >>= f) = f a := rfl

@[simp]
theorem error_bind (e : ε) (f : α → Except ε β) : (Except.error e >>= f) = .error e := rfl

@[simp]
theorem pure_eq_ok (a : α) : (pure a : Except ε α) = .ok a := rfl

theorem bind_eq_ok_iff {x : Except ε α} {f : α → Except ε β} {b : β} :
    (x >>= f) = .ok b ↔ ∃ a, x = .ok a ∧ f a = .ok b := by
  cases x with
  | error e => simp
  | ok a => simp

theorem bind_eq_error_iff {x : Except ε α} {f : α → Except ε β} {e : ε} :
    (x >>= f) = .error e ↔ x = .error e ∨ ∃ a, x = .ok a ∧ f a = .error e := by
  cases x with
  | error e' => simp
  | ok a => simp

theorem map_eq_ok_iff {x : Except ε α} {f : α → β} {b : β} :
    x.map f = .ok b ↔ ∃ a, x = .ok a ∧ f a = b := by
  cases x with
  | error e => simp [Except.map]
  | ok a => simp [Except.map]

theorem map_eq_error_iff {x : Except ε α} {f : α → β} {e : ε} :
    x.map f = .error e ↔ x = .error e := by
  cases x with
  | error e' => simp [Except.map]
  | ok a => simp [Except.map]

/-- Whatever goes wrong, the operation was aborted. -/
def OnlyAborts (x : Outcome α) : Prop :=
  ∀ failure, x = .error failure → ∃ abort, failure = .aborted abort

theorem OnlyAborts.ok (a : α) : OnlyAborts (.ok a) := fun _ h ↦ nomatch h

theorem OnlyAborts.bind {x : Outcome α} {f : α → Outcome β} (hx : OnlyAborts x)
    (hf : ∀ a, OnlyAborts (f a)) : OnlyAborts (x >>= f) := by
  intro failure h
  cases x with
  | error e =>
    obtain rfl : e = failure := Except.error.inj h
    exact hx e rfl
  | ok a => exact hf a failure h

/-- A check that stops with an abort. -/
theorem OnlyAborts.check {condition : Prop} [Decidable condition] (a : α) (abort : Abort) :
    OnlyAborts (if condition then .ok a else .error (.aborted abort)) := by
  intro failure h
  split at h
  · cases h
  · cases h
    exact ⟨abort, rfl⟩

end Outcome
end WaveMill
