import Zen.Lib.Wp

/-!
# Programs run side by side

`Respects R x` says that `x`, run from two related states, does the same in both: it returns the same
result or throws the same exception, and the states it ends in are related again.
-/

namespace Zen.Lib

variable {ε σ α β : Type} {R : σ → σ → Prop}

inductive Paired (R : σ → σ → Prop) : EStateM.Result ε σ α → EStateM.Result ε σ α → Prop where
  | ok {a : α} {s t : σ} : R s t → Paired R (.ok a s) (.ok a t)
  | error {e : ε} {s t : σ} : R s t → Paired R (.error e s) (.error e t)

def Respects (R : σ → σ → Prop) (x : EStateM ε σ α) : Prop := ∀ s t, R s t → Paired R (x.run s) (x.run t)

theorem Respects.pure (a : α) : Respects R (Pure.pure a : EStateM ε σ α) := fun _ _ related => .ok related

theorem Respects.throw (e : ε) : Respects R (MonadExcept.throw e : EStateM ε σ α) :=
  fun _ _ related => .error related

theorem Respects.modify {f : σ → σ} (h : ∀ s t, R s t → R (f s) (f t)) :
    Respects R (modifyThe σ f : EStateM ε σ PUnit) :=
  fun s t related => .ok (h s t related)

theorem Respects.bind {x : EStateM ε σ α} {f : α → EStateM ε σ β} (first : Respects R x)
    (rest : ∀ a, Respects R (f a)) : Respects R (x >>= f) := by
  intro s t related
  rw [EStateM.run_bind, EStateM.run_bind]
  have step := first s t related
  generalize x.run s = r at step
  generalize x.run t = r' at step
  cases step with
  | ok related' => exact rest _ _ _ related'
  | error related' => exact .error related'

theorem Respects.get {f : σ → EStateM ε σ α}
    (rest : ∀ s t, R s t → Paired R ((f s).run s) ((f t).run t)) : Respects R (MonadState.get >>= f) :=
  fun s t related => rest s t related

end Zen.Lib
