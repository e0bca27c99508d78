import Mathlib.Data.List.Basic

/-!
# Programs that ask

A `Dialogue` asks queries, goes on with the answers and ends in a result. `through` puts another
dialogue in the place of each query; `Agree` compares two dialogues query by query.
-/

namespace Zen.Lib

variable {Q Q' Q'' A A' A'' B B' α β γ δ : Type}

inductive Dialogue (Q A α : Type) where
  | done (a : α)
  | ask (q : Q) (next : A → Dialogue Q A α)

namespace Dialogue

def bind : Dialogue Q A α → (α → Dialogue Q A β) → Dialogue Q A β
  | done a, f => f a
  | ask q next, f => ask q fun answer => (next answer).bind f

def map (f : α → β) (d : Dialogue Q A α) : Dialogue Q A β := d.bind fun a => done (f a)

def through (via : Q → Dialogue Q' A' A) : Dialogue Q A α → Dialogue Q' A' α
  | done a => done a
  | ask q next => (via q).bind fun answer => (next answer).through via

theorem bind_assoc (d : Dialogue Q A α) (f : α → Dialogue Q A β) (g : β → Dialogue Q A γ) :
    (d.bind f).bind g = d.bind fun a => (f a).bind g := by
  induction d with
  | done a => rfl
  | ask q next ih =>
      simp only [bind]
      congr 1
      funext answer
      exact ih answer

theorem through_bind (via : Q → Dialogue Q' A' A) (d : Dialogue Q A α) (f : α → Dialogue Q A β) :
    (d.bind f).through via = (d.through via).bind fun a => (f a).through via := by
  induction d with
  | done a => rfl
  | ask q next ih =>
      simp only [bind, through, bind_assoc]
      congr 1
      funext answer
      exact ih answer

theorem through_map (via : Q → Dialogue Q' A' A) (f : α → β) (d : Dialogue Q A α) :
    (d.map f).through via = (d.through via).map f := through_bind ..

/-- Two interpretations after one another are one. -/
theorem through_through (via : Q → Dialogue Q' A' A) (via' : Q' → Dialogue Q'' A'' A') (d : Dialogue Q A α) :
    (d.through via).through via' = d.through fun q => (via q).through via' := by
  induction d with
  | done a => rfl
  | ask q next ih =>
      simp only [through, through_bind]
      congr 1
      funext answer
      exact ih answer

/-- Whatever is answered, only queries with `P` are asked. -/
inductive Only (P : Q → Prop) : Dialogue Q A α → Prop
  | done (a : α) : Only P (.done a)
  | ask {q : Q} {next : A → Dialogue Q A α} (here : P q) (later : ∀ answer, Only P (next answer)) : Only P (.ask q next)

theorem Only.through_congr {P : Q → Prop} {via via' : Q → Dialogue Q' A' A} {d : Dialogue Q A α} (only : Only P d)
    (same : ∀ q, P q → via q = via' q) : d.through via = d.through via' := by
  induction only with
  | done a => rfl
  | ask here _ ih =>
      rw [through, through, same _ here]
      congr 1
      funext answer
      exact ih answer

theorem map_map (f : α → β) (g : β → γ) (d : Dialogue Q A α) : (d.map f).map g = d.map fun a => g (f a) :=
  bind_assoc ..

/-- The same queries up to `Qs`, the same result up to `R`, whatever answers `As` relates. -/
inductive Agree (Qs : Q → Q' → Prop) (As : A → A' → Prop) (R : α → β → Prop) :
    Dialogue Q A α → Dialogue Q' A' β → Prop
  | done {a : α} {b : β} (same : R a b) : Agree Qs As R (.done a) (.done b)
  | ask {q : Q} {q' : Q'} {next : A → Dialogue Q A α} {next' : A' → Dialogue Q' A' β} (same : Qs q q')
      (rest : ∀ a a', As a a' → Agree Qs As R (next a) (next' a')) : Agree Qs As R (.ask q next) (.ask q' next')

variable {Qs : Q → Q' → Prop} {As : A → A' → Prop} {R : α → β → Prop} {T : γ → δ → Prop}

theorem Agree.mono {Qs' : Q → Q' → Prop} {As' : A → A' → Prop} {R' : α → β → Prop} {d : Dialogue Q A α}
    {d' : Dialogue Q' A' β} (agree : Agree Qs As R d d') (queries : ∀ q q', Qs q q' → Qs' q q')
    (answers : ∀ a a', As' a a' → As a a') (results : ∀ a b, R a b → R' a b) : Agree Qs' As' R' d d' := by
  induction agree with
  | done same => exact .done (results _ _ same)
  | ask same _ ih => exact .ask (queries _ _ same) fun a a' answered => ih a a' (answers a a' answered)

theorem Agree.bind {d : Dialogue Q A α} {d' : Dialogue Q' A' β} {f : α → Dialogue Q A γ} {f' : β → Dialogue Q' A' δ}
    (agree : Agree Qs As R d d') (rest : ∀ a b, R a b → Agree Qs As T (f a) (f' b)) :
    Agree Qs As T (d.bind f) (d'.bind f') := by
  induction agree with
  | done same => exact rest _ _ same
  | ask same _ ih => exact .ask same ih

theorem Agree.map {d : Dialogue Q A α} {d' : Dialogue Q' A' β} {f : α → γ} {f' : β → δ} (agree : Agree Qs As R d d')
    (keeps : ∀ a b, R a b → T (f a) (f' b)) : Agree Qs As T (d.map f) (d'.map f') :=
  agree.bind fun a b same => .done (keeps a b same)

/-- It is enough that related queries are asked through dialogues that agree. -/
theorem Agree.through {P P' : Type} {Qs' : P → P' → Prop} {Bs : B → B' → Prop} {via : Q → Dialogue P B A}
    {via' : Q' → Dialogue P' B' A'} {d : Dialogue Q A α} {d' : Dialogue Q' A' β} (agree : Agree Qs As R d d')
    (each : ∀ q q', Qs q q' → Agree Qs' Bs As (via q) (via' q')) : Agree Qs' Bs R (d.through via) (d'.through via') := by
  induction agree with
  | done same => exact .done same
  | ask same _ ih => exact (each _ _ same).bind ih

end Dialogue
end Zen.Lib
