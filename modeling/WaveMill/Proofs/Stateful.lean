/-!
# Actions that pass a state on

What an action does to a given state, for every way in which actions are put together.  With these
laws an action that is applied to a state is worked out step by step, whatever it was written with.
-/

set_option autoImplicit false
namespace WaveMill
namespace Stateful

variable {σ α β : Type}

@[simp]
theorem bind_apply (x : StateM σ α) (f : α → StateM σ β) (s : σ) :
    (x >>= f) s = f (x s).1 (x s).2 := rfl

@[simp]
theorem pure_apply (a : α) (s : σ) : (pure a : StateM σ α) s = (a, s) := rfl

@[simp]
theorem map_apply (f : α → β) (x : StateM σ α) (s : σ) : (f <$> x) s = (f (x s).1, (x s).2) := rfl

@[simp]
theorem get_apply (s : σ) : (get : StateM σ σ) s = (s, s) := rfl

@[simp]
theorem set_apply (s t : σ) : (set t : StateM σ PUnit) s = (⟨⟩, t) := rfl

@[simp]
theorem modify_apply (f : σ → σ) (s : σ) : (modify f : StateM σ PUnit) s = (⟨⟩, f s) := rfl

@[simp]
theorem ite_apply {c : Prop} [Decidable c] (x y : StateM σ α) (s : σ) :
    (if c then x else y) s = if c then x s else y s := by
  split <;> rfl

/-- Actions that leave a state as it is may be carried out one after the other on it. -/
theorem mapM_apply_of_unchanged {f : α → StateM σ β} {g : α → β} {s : σ}
    (h : ∀ a, f a s = (g a, s)) (xs : List α) : xs.mapM f s = (xs.map g, s) := by
  induction xs with
  | nil => rfl
  | cons a rest ih => rw [List.mapM_cons, bind_apply, h, bind_apply, ih, pure_apply, List.map_cons]

/-! ## Actions with further effects -/

section Effects

variable {τ : Type} {m : Type → Type} [Monad m] [LawfulMonad m]

/-- Some actions, one after the other, come to what the first comes to and then the others. -/
theorem mapM_cons_apply (f : α → StateT σ m β) (a : α) (rest : List α) (s : σ) :
    (a :: rest).mapM f s = f a s >>= fun result ↦
      Prod.map (result.1 :: ·) id <$> rest.mapM f result.2 := by
  have hbind : ∀ {γ δ : Type} (x : StateT σ m γ) (g : γ → StateT σ m δ) (s : σ),
      (x >>= g) s = x s >>= fun result ↦ g result.1 result.2 := fun _ _ _ ↦ rfl
  rw [List.mapM_cons, hbind]
  refine bind_congr fun result ↦ ?_
  rw [hbind, map_eq_pure_bind]
  rfl

/-- If a view of the state tells what each action comes to, then it tells what some of them come to,
one after the other. -/
theorem map_mapM (view : σ → τ) {f : α → StateT σ m β} {g : α → StateT τ m β}
    (h : ∀ a s, Prod.map id view <$> f a s = g a (view s)) (xs : List α) (s : σ) :
    Prod.map id view <$> xs.mapM f s = xs.mapM g (view s) := by
  induction xs generalizing s with
  | nil => exact map_pure ..
  | cons a rest ih =>
    rw [mapM_cons_apply, mapM_cons_apply, ← h, map_bind, bind_map_left]
    refine bind_congr fun result ↦ ?_
    rw [Prod.map_snd, ← ih, Functor.map_map, Functor.map_map]
    rfl

end Effects

end Stateful
end WaveMill
