import Mathlib.Data.List.Basic

/-!
# Properties of list elements among their neighbours

`Everywhere P xs` says that each element of `xs` has the property `P`, which may look at what stands
before it and after it.
-/

namespace Zen.Lib

variable {α : Type} {P : List α → α → List α → Prop}

def Everywhere (P : List α → α → List α → Prop) (xs : List α) : Prop :=
  ∀ before x after, xs = before ++ x :: after → P before x after

theorem Everywhere.nil : Everywhere P [] := by
  intro before x after same
  cases before <;> cases same

theorem Everywhere.cons {x : α} {xs : List α} (first : P [] x xs)
    (rest : Everywhere (fun before => P (x :: before)) xs) : Everywhere P (x :: xs) := by
  intro before y after same
  cases before with
  | nil =>
      obtain ⟨rfl, rfl⟩ := List.cons.inj same
      exact first
  | cons z before =>
      obtain ⟨rfl, tails⟩ := List.cons.inj same
      exact rest before y after tails

theorem Everywhere.append {xs ys : List α} (front : Everywhere (fun before x after => P before x (after ++ ys)) xs)
    (back : Everywhere (fun before => P (xs ++ before)) ys) : Everywhere P (xs ++ ys) := by
  induction xs generalizing P with
  | nil => exact back
  | cons x xs ih =>
      refine .cons (front [] x xs rfl) (ih (fun before y after same => ?_) back)
      exact front (x :: before) y after (congrArg (x :: ·) same)

theorem Everywhere.of_forall {xs : List α} (h : ∀ x ∈ xs, ∀ before after, P before x after) : Everywhere P xs := by
  rintro before x after rfl
  exact h x (by simp) before after

theorem Everywhere.join {xs ys : List α}
    (grow : ∀ before x after earlier later, P before x after → P (earlier ++ before) x (after ++ later))
    (front : Everywhere P xs) (back : Everywhere P ys) : Everywhere P (xs ++ ys) := by
  apply Everywhere.append
  · intro before x after same
    exact grow _ _ _ [] ys (front before x after same)
  · intro before x after same
    simpa only [List.append_nil] using grow _ _ _ xs [] (back before x after same)

end Zen.Lib
