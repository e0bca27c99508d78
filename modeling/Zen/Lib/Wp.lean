import Mathlib.Data.List.Basic

/-!
# Weakest preconditions of stateful, throwing programs

`wp x s Q` says that running `x` from `s` ends, with a result or an exception, in a state for which
`Q` holds. The state at a throw is kept.
-/

namespace Zen.Lib

variable {ε σ α β : Type}

def wp (x : EStateM ε σ α) (s : σ) (Q : Except ε α → σ → Prop) : Prop :=
  match x.run s with
  | .ok a s' => Q (.ok a) s'
  | .error e s' => Q (.error e) s'

def andThen (f : α → EStateM ε σ β) (Q : Except ε β → σ → Prop) : Except ε α → σ → Prop
  | .ok a, s => wp (f a) s Q
  | .error e, s => Q (.error e) s

@[simp] theorem andThen_ok {f : α → EStateM ε σ β} {Q : Except ε β → σ → Prop} {a : α} {s : σ} :
    andThen f Q (.ok a) s = wp (f a) s Q := rfl

@[simp] theorem andThen_error {f : α → EStateM ε σ β} {Q : Except ε β → σ → Prop} {e : ε} {s : σ} :
    andThen f Q (.error e) s = Q (.error e) s := rfl

@[simp] theorem wp_pure {a : α} {s : σ} {Q : Except ε α → σ → Prop} :
    wp (pure a) s Q ↔ Q (.ok a) s := Iff.rfl

@[simp] theorem wp_throw {e : ε} {s : σ} {Q : Except ε α → σ → Prop} :
    wp (throw e) s Q ↔ Q (.error e) s := Iff.rfl

@[simp] theorem wp_bind {x : EStateM ε σ α} {f : α → EStateM ε σ β} {s : σ} {Q : Except ε β → σ → Prop} :
    wp (x >>= f) s Q ↔ wp x s (andThen f Q) := by
  rw [wp, wp, EStateM.run_bind]
  cases x.run s <;> rfl

@[simp] theorem wp_get {s : σ} {Q : Except ε σ → σ → Prop} :
    wp (get : EStateM ε σ σ) s Q ↔ Q (.ok s) s := Iff.rfl

@[simp] theorem wp_modify {f : σ → σ} {s : σ} {Q : Except ε PUnit → σ → Prop} :
    wp (modify f : EStateM ε σ PUnit) s Q ↔ Q (.ok ⟨⟩) (f s) := Iff.rfl

-- the state that a program leaves, however it ends
def leaves : EStateM.Result ε σ α → σ
  | .ok _ s => s
  | .error _ s => s

theorem wp_mono {x : EStateM ε σ α} {s : σ} {Q Q' : Except ε α → σ → Prop} (h : wp x s Q)
    (weaker : ∀ r s', Q r s' → Q' r s') : wp x s Q' := by
  unfold wp at *
  cases run : x.run s with
  | ok a s' =>
      rw [run] at h
      exact weaker _ _ h
  | error e s' =>
      rw [run] at h
      exact weaker _ _ h

theorem wp_and {x : EStateM ε σ α} {s : σ} {Q Q' : Except ε α → σ → Prop} (h : wp x s Q) (h' : wp x s Q') :
    wp x s fun r s' => Q r s' ∧ Q' r s' := by
  unfold wp at *
  cases run : x.run s with
  | ok a s' =>
      rw [run] at h h'
      exact ⟨h, h'⟩
  | error e s' =>
      rw [run] at h h'
      exact ⟨h, h'⟩

theorem wp_leaves {x : EStateM ε σ α} {s : σ} {Q : σ → Prop} (h : wp x s fun _ s' => Q s') : Q (leaves (x.run s)) := by
  unfold wp at h
  cases run : x.run s with
  | ok a s' =>
      rw [run] at h
      exact h
  | error e s' =>
      rw [run] at h
      exact h

theorem wp_intro {x : EStateM ε σ α} {s : σ} {Q : Except ε α → σ → Prop}
    (ok : ∀ a s', x.run s = .ok a s' → Q (.ok a) s')
    (error : ∀ e s', x.run s = .error e s' → Q (.error e) s') : wp x s Q := by
  unfold wp
  cases run : x.run s with
  | ok a s' => exact ok a s' run
  | error e s' => exact error e s' run

theorem wp_of_ok {x : EStateM ε σ α} {s s' : σ} {a : α} {Q : Except ε α → σ → Prop}
    (run : x.run s = .ok a s') : wp x s Q ↔ Q (.ok a) s' := by
  rw [wp, run]

theorem wp_ok {x : EStateM ε σ α} {s s' : σ} {a : α} {Q : Except ε α → σ → Prop} (h : wp x s Q)
    (run : x.run s = .ok a s') : Q (.ok a) s' := by
  rwa [wp, run] at h

theorem wp_succeeds {x : EStateM ε σ α} {s : σ} {Q : α → σ → Prop}
    (h : wp x s fun r s' => ∃ a, r = .ok a ∧ Q a s') : ∃ a s', x.run s = .ok a s' ∧ Q a s' := by
  unfold wp at h
  cases run : x.run s with
  | ok a s' =>
      rw [run] at h
      obtain ⟨_, same, holds⟩ := h
      cases same
      exact ⟨a, s', rfl, holds⟩
  | error e s' =>
      rw [run] at h
      obtain ⟨_, failed, _⟩ := h
      cases failed

theorem wp_error {x : EStateM ε σ α} {s s' : σ} {e : ε} {Q : Except ε α → σ → Prop} (h : wp x s Q)
    (run : x.run s = .error e s') : Q (.error e) s' := by
  rwa [wp, run] at h

end Zen.Lib
