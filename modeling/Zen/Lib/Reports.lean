import Mathlib.Data.List.Basic

/-!
# Checks that report all faults or the first

A check takes a mode and the faults found so far, and gives a result and the faults found then. In
the mode that stops at the first fault its result means something only when there was none.
-/

namespace Zen.Lib

variable {ε α β : Type}

structure Reports (run : Bool → List ε → α × List ε) (result : α) (faults : List ε) : Prop where
  full : ∀ errs, run true errs = (result, errs ++ faults)
  clean : faults = [] → (run false []).1 = result
  first : (run false []).2 = faults.take 1

namespace Reports

theorem done (result : α) : Reports (fun _ (errs : List ε) => (result, errs)) result [] :=
  ⟨fun errs => by rw [List.append_nil], fun _ => rfl, rfl⟩

theorem fault (result : α) (e : ε) : Reports (fun _ errs => (result, errs ++ [e])) result [e] :=
  ⟨fun _ => rfl, fun none => absurd none (by simp), rfl⟩

theorem congr {run run' : Bool → List ε → α × List ε} {result : α} {faults : List ε}
    (h : Reports run result faults) (full : ∀ errs, run' true errs = run true errs)
    (first : run' false [] = run false []) : Reports run' result faults :=
  ⟨fun errs => (full errs).trans (h.full errs), fun none => first ▸ h.clean none, first ▸ h.first⟩

/-- A second check after the first, which does nothing once there is a fault. -/
theorem seq {run : Bool → List ε → α × List ε} {next : α → Bool → List ε → β × List ε} {a : α} {b : β}
    {faults later : List ε} (h : Reports run a faults) (stops : ∀ a' e, (next a' false [e]).2 = [e])
    (h' : Reports (next a) b later) :
    Reports (fun all errs => next (run all errs).1 all (run all errs).2) b (faults ++ later) := by
  constructor
  · intro errs
    simp only [h.full errs, h'.full, List.append_assoc]
  · intro none
    obtain ⟨rfl, rfl⟩ := List.append_eq_nil_iff.mp none
    simp only [h.clean rfl, h.first]
    exact h'.clean rfl
  · cases faults with
    | nil =>
        simp only [h.clean rfl, h.first]
        exact h'.first
    | cons e faults =>
        simp only [h.first]
        exact stops _ e

theorem after {run : Bool → List ε → α × List ε} {next : Bool → List ε → β × List ε} {a : α} {b : β}
    {faults later : List ε} (h' : Reports next b later) (stops : ∀ e, (next false [e]).2 = [e])
    (h : Reports run a faults) : Reports (fun all errs => next all (run all errs).2) b (faults ++ later) := by
  let second (_ : α) := next
  exact h.seq (fun _ e => stops e) (show Reports (second a) b later from h')

theorem map {run : Bool → List ε → α × List ε} {a : α} {faults : List ε} (f : α → β) (h : Reports run a faults) :
    Reports (fun all errs => (f (run all errs).1, (run all errs).2)) (f a) faults := by
  refine ⟨fun errs => by simp only [h.full errs], fun none => ?_, h.first⟩
  simp only [h.clean none]

end Reports
end Zen.Lib
