import Zen.Lib.Wp

/-!
# One program in the place of another

`Matches R A x y` says that `x` and `y`, run from states that `R` relates, end alike: both with results
that `A` relates or both with an exception, and in states that `R` relates again.
-/

namespace Zen.Lib

variable {ε ε' σ τ α α' β β' : Type} {R : σ → τ → Prop}

inductive Matched (R : σ → τ → Prop) (A : α → β → Prop) : EStateM.Result ε σ α → EStateM.Result ε' τ β → Prop
  | ok {a : α} {b : β} {s : σ} {t : τ} (same : A a b) (related : R s t) : Matched R A (.ok a s) (.ok b t)
  | error {e : ε} {e' : ε'} {s : σ} {t : τ} (related : R s t) : Matched R A (.error e s) (.error e' t)

def Matches (R : σ → τ → Prop) (A : α → β → Prop) (x : EStateM ε σ α) (y : EStateM ε' τ β) : Prop :=
  ∀ s t, R s t → Matched R A (x.run s) (y.run t)

namespace Matches

theorem pure {A : α → β → Prop} {a : α} {b : β} (same : A a b) :
    Matches R A (Pure.pure a : EStateM ε σ α) (Pure.pure b : EStateM ε' τ β) :=
  fun _ _ related => .ok same related

theorem throw {A : α → β → Prop} (e : ε) (e' : ε') :
    Matches R A (MonadExcept.throw e : EStateM ε σ α) (MonadExcept.throw e' : EStateM ε' τ β) :=
  fun _ _ related => .error related

theorem modify {f : σ → σ} {g : τ → τ} (h : ∀ s t, R s t → R (f s) (g t)) :
    Matches R Eq (modifyThe σ f : EStateM ε σ PUnit) (modifyThe τ g : EStateM ε' τ PUnit) :=
  fun s t related => .ok rfl (h s t related)

/-- As long as the first halves run, more may be known of the states than at the end. -/
theorem within {P : σ → τ → Prop} (weaker : ∀ s t, P s t → R s t) {A : α → α' → Prop} {B : β → β' → Prop}
    {x : EStateM ε σ α} {y : EStateM ε' τ α'} {f : α → EStateM ε σ β} {g : α' → EStateM ε' τ β'} {s : σ} {t : τ}
    (related : P s t) (first : Matches P A x y)
    (rest : ∀ a b, A a b → ∀ s t, P s t → Matched R B ((f a).run s) ((g b).run t)) :
    Matched R B ((x >>= f).run s) ((y >>= g).run t) := by
  rw [EStateM.run_bind, EStateM.run_bind]
  have step := first s t related
  generalize x.run s = r at step
  generalize y.run t = r' at step
  cases step with
  | ok same related' => exact rest _ _ same _ _ related'
  | error related' => exact .error (weaker _ _ related')

theorem bind {A : α → α' → Prop} {B : β → β' → Prop} {x : EStateM ε σ α} {y : EStateM ε' τ α'}
    {f : α → EStateM ε σ β} {g : α' → EStateM ε' τ β'} (first : Matches R A x y)
    (rest : ∀ a b, A a b → Matches R B (f a) (g b)) : Matches R B (x >>= f) (y >>= g) :=
  fun _ _ related => within (fun _ _ related => related) related first rest

theorem get {B : β → β' → Prop} {f : σ → EStateM ε σ β} {g : τ → EStateM ε' τ β'}
    (rest : ∀ s t, R s t → Matched R B ((f s).run s) ((g t).run t)) :
    Matches R B (MonadState.get >>= f) (MonadState.get >>= g) :=
  fun s t related => rest s t related

end Matches

theorem Matched.mono {R' : σ → τ → Prop} {A : α → β → Prop} {r : EStateM.Result ε σ α} {r' : EStateM.Result ε' τ β}
    (h : Matched R A r r') (weaker : ∀ s t, R s t → R' s t) : Matched R' A r r' := by
  cases h with
  | ok same related => exact .ok same (weaker _ _ related)
  | error related => exact .error (weaker _ _ related)

end Zen.Lib
