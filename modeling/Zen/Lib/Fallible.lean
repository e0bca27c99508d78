import Mathlib.Data.List.Forall2

/-!
# Fallible computations

What succeeds, succeeds step by step: a sequence at its first step and then at the rest, a map over a
list at each of its elements.
-/

namespace Zen.Lib

variable {ε ε' α β : Type}

theorem toOption_eq_some {x : Except ε α} {a : α} : x.toOption = some a ↔ x = .ok a := by
  cases x <;> simp [Except.toOption]

theorem except_bind_ok {x : Except ε α} {f : α → Except ε β} {b : β} :
    x >>= f = .ok b ↔ ∃ a, x = .ok a ∧ f a = .ok b := by
  cases x with
  | error e => simp [bind, Except.bind]
  | ok a => simp [bind, Except.bind]

/-! ## Maps -/

theorem mapM_ok_iff {f : α → Except ε β} {xs : List α} {ys : List β} :
    xs.mapM f = .ok ys ↔ List.Forall₂ (fun x y => f x = .ok y) xs ys := by
  induction xs generalizing ys with
  | nil =>
      constructor
      · intro h
        cases h
        exact .nil
      · intro h
        cases h
        rfl
  | cons x xs ih =>
      rw [List.mapM_cons]
      constructor
      · intro h
        obtain ⟨y, first, h⟩ := except_bind_ok.mp h
        obtain ⟨ys, others, h⟩ := except_bind_ok.mp h
        cases h
        exact .cons first (ih.mp others)
      · intro h
        cases h with
        | cons first others =>
            rw [first, ih.mpr others]
            rfl

theorem forall₂_partners {R : α → β → Prop} {xs : List α} {ys : List β} (h : List.Forall₂ R xs ys) :
    (∀ x ∈ xs, ∃ y ∈ ys, R x y) ∧ ∀ y ∈ ys, ∃ x ∈ xs, R x y := by
  induction h with
  | nil => simp
  | cons first others ih =>
      obtain ⟨left, right⟩ := ih
      refine ⟨List.forall_mem_cons.mpr ⟨⟨_, by simp, first⟩, ?_⟩, List.forall_mem_cons.mpr ⟨⟨_, by simp, first⟩, ?_⟩⟩
      · intro x member
        obtain ⟨y, listed, related⟩ := left x member
        exact ⟨y, List.mem_cons_of_mem _ listed, related⟩
      · intro y member
        obtain ⟨x, listed, related⟩ := right y member
        exact ⟨x, List.mem_cons_of_mem _ listed, related⟩

theorem mapM_partners {f : α → Except ε β} {xs : List α} {ys : List β} (h : xs.mapM f = .ok ys) :
    (∀ x ∈ xs, ∃ y ∈ ys, f x = .ok y) ∧ ∀ y ∈ ys, ∃ x ∈ xs, f x = .ok y :=
  forall₂_partners (mapM_ok_iff.mp h)

theorem mapM_some {f : α → Except ε β} {xs : List α} (each : ∀ x ∈ xs, ∃ y, f x = .ok y) :
    ∃ ys, xs.mapM f = .ok ys := by
  induction xs with
  | nil => exact ⟨[], rfl⟩
  | cons x xs ih =>
      obtain ⟨y, first⟩ := each x (by simp)
      obtain ⟨ys, others⟩ := ih fun x member => each x (by simp [member])
      refine ⟨y :: ys, ?_⟩
      rw [List.mapM_cons, first, others]
      rfl

theorem mapM_inverts {f : α → Except ε β} {g : β → Except ε' α} {P : β → Prop} {xs : List α}
    (each : ∀ x ∈ xs, ∃ y, f x = .ok y ∧ P y ∧ g y = .ok x) :
    ∃ ys, xs.mapM f = .ok ys ∧ (∀ y ∈ ys, P y) ∧ ys.mapM g = .ok xs := by
  induction xs with
  | nil => exact ⟨[], rfl, by simp, rfl⟩
  | cons x xs ih =>
      obtain ⟨y, first, holds, back⟩ := each x (by simp)
      obtain ⟨ys, others, hold, backs⟩ := ih fun x member => each x (by simp [member])
      refine ⟨y :: ys, ?_, List.forall_mem_cons.mpr ⟨holds, hold⟩, ?_⟩
      · rw [List.mapM_cons, first, others]
        rfl
      · rw [List.mapM_cons, back, backs]
        rfl

-- two lists that are read as the same list
theorem mapM_alike {g : β → Except ε α} {R : β → β → Prop} {ys ys' : List β} {xs : List α}
    (each : ∀ y ∈ ys, ∀ y' ∈ ys', ∀ x, g y = .ok x → g y' = .ok x → R y y') (read : ys.mapM g = .ok xs)
    (read' : ys'.mapM g = .ok xs) : List.Forall₂ R ys ys' := by
  induction ys generalizing ys' xs with
  | nil =>
      cases read
      cases ys' with
      | nil => exact .nil
      | cons y' ys' =>
          rw [List.mapM_cons] at read'
          obtain ⟨_, _, read'⟩ := except_bind_ok.mp read'
          obtain ⟨_, _, ⟨⟩⟩ := except_bind_ok.mp read'
  | cons y ys ih =>
      rw [List.mapM_cons] at read
      obtain ⟨x, first, read⟩ := except_bind_ok.mp read
      obtain ⟨others, later, ⟨⟩⟩ := except_bind_ok.mp read
      cases ys' with
      | nil => cases read'
      | cons y' ys' =>
          rw [List.mapM_cons] at read'
          obtain ⟨x', first', read'⟩ := except_bind_ok.mp read'
          obtain ⟨others', later', same⟩ := except_bind_ok.mp read'
          cases same
          refine .cons (each y (by simp) y' (by simp) x first first') (ih ?_ later later')
          exact fun z hz z' hz' => each z (List.mem_cons_of_mem y hz) z' (List.mem_cons_of_mem y' hz')

end Zen.Lib
