import Mathlib.Data.List.Range
import Mathlib.Data.List.Basic

/-!
# A first-in first-out dispatcher with a journal

Tickets are numbered from 1 in the order they are issued. A loop takes the first waiting ticket and
decides it, or calls a handler for it and decides it when the handler returns; tickets may be issued
at any time. `stack` holds the calls in progress, innermost first: `none` is the loop, `some n` the
handler of ticket `n`.
-/

namespace Zen.Lib

variable {ρ : Type}

structure Ledger (ρ : Type) where
  waiting : List Nat
  journal : List (Option ρ)
  dispatching : Bool
  stack : List (Option Nat)
  dequeued : List Nat
  decided : List Nat

namespace Ledger

inductive Step : Ledger ρ → Ledger ρ → Prop where
  | issue (l : Ledger ρ) (count : Nat) : Step l { l with
      waiting := l.waiting ++ List.range' l.journal.length count
      journal := l.journal ++ List.replicate count none }
  | start (l : Ledger ρ) : l.dispatching = false → Step l { l with
      dispatching := true, stack := none :: l.stack }
  | finish (l : Ledger ρ) {calls : List (Option Nat)} : l.stack = none :: calls → Step l { l with
      dispatching := false, stack := calls }
  | refuse (l : Ledger ρ) {calls : List (Option Nat)} {n : Nat} {rest : List Nat} (r : ρ) :
      l.stack = none :: calls → l.waiting = n :: rest → Step l { l with
        waiting := rest, journal := l.journal.set n (some r)
        dequeued := l.dequeued ++ [n], decided := l.decided ++ [n] }
  | call (l : Ledger ρ) {calls : List (Option Nat)} {n : Nat} {rest : List Nat} :
      l.stack = none :: calls → l.waiting = n :: rest → Step l { l with
        waiting := rest, stack := some n :: l.stack, dequeued := l.dequeued ++ [n] }
  | complete (l : Ledger ρ) {calls : List (Option Nat)} {n : Nat} (r : ρ) : l.stack = some n :: calls →
      Step l { l with
        journal := l.journal.set n (some r), stack := calls, decided := l.decided ++ [n] }

/-- An exception of a handler leaves the loop with it. -/
inductive Throw : Ledger ρ → Ledger ρ → Prop where
  | throw (l : Ledger ρ) {calls : List (Option Nat)} {n : Nat} : l.stack = some n :: none :: calls →
      Throw l { l with stack := calls }

/-! ## Without exceptions -/

/-- The first ticket that has not been taken from the queue is `next`. -/
inductive Phase (l : Ledger ρ) (done : Nat) : (next : Nat) → Prop where
  | idle : l.stack = [] → l.dispatching = false → Phase l done (done + 1)
  | looping : l.stack = [none] → l.dispatching = true → Phase l done (done + 1)
  | handling : l.stack = [some (done + 1), none] → l.dispatching = true → Phase l done (done + 2)

structure InOrder (l : Ledger ρ) (done next : Nat) : Prop where
  phase : Phase l done next
  bound : next ≤ l.journal.length
  dequeued : l.dequeued = List.range' 1 (next - 1)
  decided : l.decided = List.range' 1 done
  waiting : l.waiting = List.range' next (l.journal.length - next)
  finished : ∀ n, 1 ≤ n → n ≤ done → ∃ r, l.journal[n]? = some (some r)
  unfinished : ∀ n, done < n → n < l.journal.length → l.journal[n]? = some none

def Extends (l l' : Ledger ρ) : Prop := ∀ (n : Nat) (r : ρ), l.journal[n]? = some (some r) →
  l'.journal[n]? = some (some r)

theorem InOrder.next_le {l : Ledger ρ} {done next : Nat} (h : InOrder l done next) :
    done < next ∧ next ≤ done + 2 := by
  cases h.phase <;> omega

theorem InOrder.waiting_cons {l : Ledger ρ} {done next n : Nat} {rest : List Nat}
    (h : InOrder l done next) (front : l.waiting = n :: rest) :
    n = next ∧ next < l.journal.length ∧
      rest = List.range' (next + 1) (l.journal.length - (next + 1)) := by
  rw [h.waiting] at front
  cases size : l.journal.length - next with
  | zero =>
      rw [size] at front
      cases front
  | succ k =>
      rw [size, List.range'_succ, List.cons.injEq] at front
      obtain ⟨rfl, rfl⟩ := front
      refine ⟨rfl, by omega, ?_⟩
      congr 1
      omega

theorem range_snoc (n : Nat) : List.range' 1 n ++ [n + 1] = List.range' 1 (n + 1) := by
  rw [List.range'_1_concat, Nat.add_comm 1]

-- deciding the ticket after the last finished one
theorem InOrder.decide {l : Ledger ρ} {done next : Nat} (h : InOrder l done next)
    (open' : done + 1 < l.journal.length) (r : ρ) :
    (∀ n, 1 ≤ n → n ≤ done + 1 → ∃ r', (l.journal.set (done + 1) (some r))[n]? = some (some r')) ∧
    (∀ n, done + 1 < n → n < (l.journal.set (done + 1) (some r)).length →
      (l.journal.set (done + 1) (some r))[n]? = some none) ∧
    ∀ (n : Nat) (r' : ρ), l.journal[n]? = some (some r') →
      (l.journal.set (done + 1) (some r))[n]? = some (some r') := by
  refine ⟨?_, ?_, ?_⟩
  · intro n positive small
    by_cases last : n = done + 1
    · subst last
      exact ⟨r, List.getElem?_set_self open'⟩
    · rw [List.getElem?_set_ne (by omega)]
      exact h.finished n positive (by omega)
  · intro n above below
    rw [List.length_set] at below
    rw [List.getElem?_set_ne (by omega)]
    exact h.unfinished n (by omega) below
  · intro n r' old
    have pending := h.unfinished (done + 1) (by omega) open'
    have different : done + 1 ≠ n := by
      rintro rfl
      rw [pending] at old
      cases old
    rw [List.getElem?_set_ne different]
    exact old

def issued (l : Ledger ρ) (count : Nat) : Ledger ρ := { l with
  waiting := l.waiting ++ List.range' l.journal.length count
  journal := l.journal ++ List.replicate count none }

theorem InOrder.issue {l : Ledger ρ} {done next : Nat} (h : InOrder l done next) (count : Nat) :
    InOrder (l.issued count) done next := by
  have reach := h.next_le
  have bound := h.bound
  refine ⟨?_, by simp [issued]; omega, h.dequeued, h.decided, ?_, ?_, ?_⟩
  · cases h.phase with
    | idle stack flag => exact .idle stack flag
    | looping stack flag => exact .looping stack flag
    | handling stack flag => exact .handling stack flag
  · have size : (l.journal ++ List.replicate count none).length - next =
        (l.journal.length - next) + count := by
      simp
      omega
    have total : next + (l.journal.length - next) = l.journal.length := by omega
    rw [issued, size, ← List.range'_append_1, h.waiting, total]
  · intro n positive small
    rw [issued, List.getElem?_append_left (by omega)]
    exact h.finished n positive small
  · intro n above below
    rw [issued, List.length_append, List.length_replicate] at below
    rw [issued]
    by_cases old : n < l.journal.length
    · rw [List.getElem?_append_left old]
      exact h.unfinished n above old
    · rw [List.getElem?_append_right (by omega), List.getElem?_replicate, if_pos (by omega)]

theorem extends_issue (l : Ledger ρ) (count : Nat) : Extends l (l.issued count) := by
  intro n r old
  have inside := (List.getElem?_eq_some_iff.mp old).1
  rw [issued, List.getElem?_append_left inside]
  exact old

theorem InOrder.step {l l' : Ledger ρ} {done next : Nat} (h : InOrder l done next) (action : Step l l') :
    (∃ done' next', InOrder l' done' next') ∧ Extends l l' := by
  have reach := h.next_le
  have bound := h.bound
  cases action with
  | issue count => exact ⟨⟨done, next, h.issue count⟩, extends_issue l count⟩
  | start idle =>
      refine ⟨⟨done, next, ?_⟩, fun _ _ old => old⟩
      refine ⟨?_, h.bound, h.dequeued, h.decided, h.waiting, h.finished, h.unfinished⟩
      cases h.phase with
      | idle stack flag => exact .looping (by simp [stack]) rfl
      | looping stack flag => simp [idle] at flag
      | handling stack flag => simp [idle] at flag
  | finish top =>
      refine ⟨⟨done, next, ?_⟩, fun _ _ old => old⟩
      refine ⟨?_, h.bound, h.dequeued, h.decided, h.waiting, h.finished, h.unfinished⟩
      cases h.phase with
      | idle stack flag => simp [stack] at top
      | looping stack flag =>
          rw [stack, List.cons.injEq] at top
          exact .idle top.2.symm rfl
      | handling stack flag => simp [stack] at top
  | refuse r top front =>
      cases h.phase with
      | idle stack flag => simp [stack] at top
      | handling stack flag => simp [stack] at top
      | looping stack flag =>
          obtain ⟨rfl, below, rfl⟩ := h.waiting_cons front
          obtain ⟨finished, unfinished, kept⟩ := h.decide below r
          refine ⟨⟨done + 1, done + 2, ?_⟩, kept⟩
          refine ⟨.looping stack flag, by simp; omega, ?_, ?_, by simp, finished, unfinished⟩
          · rw [h.dequeued]
            exact range_snoc done
          · rw [h.decided]
            exact range_snoc done
  | call top front =>
      cases h.phase with
      | idle stack flag => simp [stack] at top
      | handling stack flag => simp [stack] at top
      | looping stack flag =>
          obtain ⟨rfl, below, rfl⟩ := h.waiting_cons front
          refine ⟨⟨done, done + 2, ?_⟩, fun _ _ old => old⟩
          refine ⟨.handling (by simp [stack]) flag, below, ?_, h.decided, rfl, h.finished, h.unfinished⟩
          rw [h.dequeued]
          exact range_snoc done
  | complete r top =>
      cases h.phase with
      | idle stack flag => simp [stack] at top
      | looping stack flag => simp [stack] at top
      | handling stack flag =>
          rw [stack, List.cons.injEq, Option.some.injEq] at top
          obtain ⟨rfl, rfl⟩ := top
          obtain ⟨finished, unfinished, kept⟩ := h.decide (by omega) r
          refine ⟨⟨done + 1, done + 2, ?_⟩, kept⟩
          refine ⟨.looping rfl flag, by simp; omega, h.dequeued, ?_, by simpa using h.waiting, finished, unfinished⟩
          rw [h.decided]
          exact range_snoc done

theorem InOrder.handling_of {l : Ledger ρ} {done next n : Nat} {calls : List (Option Nat)}
    (h : InOrder l done next) (top : l.stack = some n :: calls) :
    n = done + 1 ∧ calls = [none] ∧ l.dispatching = true ∧ l.journal[n]? = some none := by
  have bound := h.bound
  cases h.phase with
  | idle stack flag => simp [stack] at top
  | looping stack flag => simp [stack] at top
  | handling stack flag =>
      rw [stack, List.cons.injEq, Option.some.injEq] at top
      obtain ⟨rfl, rfl⟩ := top
      exact ⟨rfl, rfl, flag, h.unfinished _ (by omega) (by omega)⟩

/-! ## After an exception -/

structure Stuck (l : Ledger ρ) (n : Nat) : Prop where
  stack : l.stack = []
  dispatching : l.dispatching = true
  pending : l.journal[n]? = some none

structure Frozen (l l' : Ledger ρ) : Prop where
  waiting : l.waiting <+: l'.waiting
  dequeued : l'.dequeued = l.dequeued
  decided : l'.decided = l.decided

theorem Frozen.refl (l : Ledger ρ) : Frozen l l := ⟨List.prefix_rfl, rfl, rfl⟩

theorem Frozen.trans {l mid l' : Ledger ρ} (first : Frozen l mid) (second : Frozen mid l') : Frozen l l' :=
  ⟨first.waiting.trans second.waiting, second.dequeued.trans first.dequeued,
    second.decided.trans first.decided⟩

theorem InOrder.throw {l l' : Ledger ρ} {done next : Nat} (h : InOrder l done next) (fails : Throw l l') :
    Stuck l' (done + 1) := by
  cases fails with
  | throw top =>
      obtain ⟨rfl, calls, flag, pending⟩ := h.handling_of top
      rw [List.cons.injEq] at calls
      exact ⟨calls.2, flag, pending⟩

theorem Stuck.step {l l' : Ledger ρ} {n : Nat} (h : Stuck l n) (action : Step l l') :
    Stuck l' n ∧ Frozen l l' := by
  have empty := h.stack
  cases action with
  | issue count =>
      have inside := (List.getElem?_eq_some_iff.mp h.pending).1
      refine ⟨⟨h.stack, h.dispatching, ?_⟩, ⟨List.prefix_append _ _, rfl, rfl⟩⟩
      rw [List.getElem?_append_left inside]
      exact h.pending
  | start idle => simp [h.dispatching] at idle
  | finish top => simp [empty] at top
  | refuse r top front => simp [empty] at top
  | call top front => simp [empty] at top
  | complete r top => simp [empty] at top

theorem Stuck.no_throw {l l' : Ledger ρ} {n : Nat} (h : Stuck l n) : ¬ Throw l l' := by
  intro fails
  cases fails with
  | throw top => simp [h.stack] at top

end Ledger
end Zen.Lib
