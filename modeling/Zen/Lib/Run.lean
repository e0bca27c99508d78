import Mathlib.Data.List.Basic

/-!
# Runs of a partial step function

`step input s` is `none` where the input is not enabled.
-/

namespace Zen.Lib

variable {ι σ : Type} {step : ι → σ → Option σ}

inductive Run (step : ι → σ → Option σ) : σ → List ι → σ → Prop where
  | nil (s : σ) : Run step s [] s
  | snoc {s mid s' : σ} {inputs : List ι} {input : ι} :
      Run step s inputs mid → step input mid = some s' → Run step s (inputs ++ [input]) s'

def exec (step : ι → σ → Option σ) : List ι → σ → Option σ
  | [], s => some s
  | input :: inputs, s => (step input s).bind (exec step inputs)

/-- Each input is made in a state where `P` holds of it. -/
def Along (step : ι → σ → Option σ) (P : ι → σ → Prop) : List ι → σ → Prop
  | [], _ => True
  | input :: inputs, s => P input s ∧ ∀ s', step input s = some s' → Along step P inputs s'

/-- The sum of what `count` says of each input in the state it is made in. -/
def tally (step : ι → σ → Option σ) (count : ι → σ → Nat) : List ι → σ → Nat
  | [], _ => 0
  | input :: inputs, s =>
      count input s + match step input s with
        | none => 0
        | some s' => tally step count inputs s'

/-- What `out` says of each input in the state it is made in, in order. -/
def outputs {β : Type} (step : ι → σ → Option σ) (out : ι → σ → List β) : List ι → σ → List β
  | [], _ => []
  | input :: inputs, s =>
      out input s ++ match step input s with
        | none => []
        | some s' => outputs step out inputs s'

/-- Some step of the run is as `E` says. -/
def Passes (step : ι → σ → Option σ) (E : σ → ι → σ → Prop) (s : σ) (inputs : List ι) (s' : σ) : Prop :=
  ∃ before input after mid mid', inputs = before ++ input :: after ∧ Run step s before mid ∧
    step input mid = some mid' ∧ Run step mid' after s' ∧ E mid input mid'

theorem Passes.now {E : σ → ι → σ → Prop} {s mid s' : σ} {inputs : List ι} {input : ι} (run : Run step s inputs mid)
    (action : step input mid = some s') (holds : E mid input s') : Passes step E s (inputs ++ [input]) s' :=
  ⟨inputs, input, [], mid, s', rfl, run, action, .nil s', holds⟩

theorem Passes.later {E E' : σ → ι → σ → Prop} {s mid s' : σ} {inputs : List ι} {input : ι}
    (h : Passes step E s inputs mid) (action : step input mid = some s')
    (weaker : ∀ mid input mid', E mid input mid' → E' mid input mid') : Passes step E' s (inputs ++ [input]) s' := by
  obtain ⟨before, first, after, mid₁, mid₂, rfl, run, action₁, rest, holds⟩ := h
  refine ⟨before, first, after ++ [input], mid₁, mid₂, ?_, run, action₁, .snoc rest action, weaker _ _ _ holds⟩
  rw [List.append_assoc, List.cons_append]

theorem Along.and {P Q : ι → σ → Prop} {inputs : List ι} {s : σ} (h : Along step P inputs s)
    (h' : Along step Q inputs s) : Along step (fun input s => P input s ∧ Q input s) inputs s := by
  induction inputs generalizing s with
  | nil => trivial
  | cons input inputs ih => exact ⟨⟨h.1, h'.1⟩, fun s' action => ih (h.2 s' action) (h'.2 s' action)⟩

theorem Along.of_mem {P : ι → σ → Prop} {inputs : List ι} (each : ∀ input ∈ inputs, ∀ s, P input s) (s : σ) :
    Along step P inputs s := by
  induction inputs generalizing s with
  | nil => trivial
  | cons input inputs ih =>
      obtain ⟨first, rest⟩ := List.forall_mem_cons.mp each
      exact ⟨first s, fun s' _ => ih rest s'⟩

theorem Along.of_forall {P : ι → σ → Prop} (h : ∀ input s, P input s) (inputs : List ι) (s : σ) :
    Along step P inputs s :=
  .of_mem (fun input _ => h input) s

instance Along.decide {P : ι → σ → Prop} [∀ input s, Decidable (P input s)] :
    (inputs : List ι) → (s : σ) → Decidable (Along step P inputs s)
  | [], _ => isTrue trivial
  | input :: inputs, s =>
      match action : step input s with
      | none => decidable_of_iff (P input s) ⟨fun h => ⟨h, by simp [action]⟩, fun h => h.1⟩
      | some s' =>
          have : Decidable (Along step P inputs s') := Along.decide inputs s'
          decidable_of_iff (P input s ∧ Along step P inputs s')
            ⟨fun h => ⟨h.1, by rw [action]; rintro _ ⟨⟩; exact h.2⟩, fun h => ⟨h.1, h.2 s' action⟩⟩

namespace Run

theorem cons {s mid s' : σ} {input : ι} {inputs : List ι} (action : step input s = some mid)
    (run : Run step mid inputs s') : Run step s (input :: inputs) s' := by
  induction run with
  | nil => exact .snoc (.nil s) action
  | snoc _ last ih => exact .snoc ih last

theorem of_exec {inputs : List ι} {s s' : σ} (h : exec step inputs s = some s') :
    Run step s inputs s' := by
  induction inputs generalizing s with
  | nil =>
      cases h
      exact .nil _
  | cons input inputs ih =>
      obtain ⟨mid, action, rest⟩ := Option.bind_eq_some_iff.mp h
      exact .cons action (ih rest)

theorem exec_append {before after : List ι} {s mid s' : σ} (h : exec step before s = some mid)
    (h' : exec step after mid = some s') : exec step (before ++ after) s = some s' := by
  induction before generalizing s with
  | nil =>
      cases h
      exact h'
  | cons input before ih =>
      obtain ⟨next, action, rest⟩ := Option.bind_eq_some_iff.mp h
      exact Option.bind_eq_some_iff.mpr ⟨next, action, ih rest⟩

theorem exec_eq {inputs : List ι} {s s' : σ} (run : Run step s inputs s') : exec step inputs s = some s' := by
  induction run with
  | nil => rfl
  | snoc _ last ih => exact exec_append ih (by rw [exec, last]; rfl)

theorem append {before after : List ι} {s mid s' : σ} (run : Run step s before mid) (run' : Run step mid after s') :
    Run step s (before ++ after) s' :=
  of_exec (exec_append run.exec_eq run'.exec_eq)

theorem outputs_snoc {β : Type} {out : ι → σ → List β} {inputs : List ι} {s mid : σ} (run : Run step s inputs mid)
    (input : ι) : outputs step out (inputs ++ [input]) s = outputs step out inputs s ++ out input mid := by
  have reached := run.exec_eq
  clear run
  induction inputs generalizing s with
  | nil =>
      cases reached
      rw [List.nil_append, outputs, outputs]
      cases step input mid <;> simp [outputs]
  | cons first inputs ih =>
      obtain ⟨next, action, rest⟩ := Option.bind_eq_some_iff.mp reached
      rw [List.cons_append, outputs, outputs, action]
      simp only
      rw [ih rest, List.append_assoc]

theorem uncons {input : ι} {inputs : List ι} {s s' : σ} (run : Run step s (input :: inputs) s') :
    ∃ mid, step input s = some mid ∧ Run step mid inputs s' := by
  obtain ⟨mid, action, rest⟩ := Option.bind_eq_some_iff.mp run.exec_eq
  exact ⟨mid, action, of_exec rest⟩

theorem preserves {I : σ → Prop} {allowed : ι → Prop}
    (each : ∀ input s s', allowed input → I s → step input s = some s' → I s')
    {s s' : σ} {inputs : List ι} (run : Run step s inputs s')
    (within : ∀ input ∈ inputs, allowed input) (h : I s) : I s' := by
  induction run with
  | nil => exact h
  | snoc run action ih =>
      have before := ih fun input hi => within input (by simp [hi])
      exact each _ _ _ (within _ (by simp)) before action

theorem along {I : σ → Prop} {P : ι → σ → Prop}
    (each : ∀ input s s', P input s → I s → step input s = some s' → I s')
    {s s' : σ} {inputs : List ι} (run : Run step s inputs s') (along : Along step P inputs s) (h : I s) : I s' := by
  induction inputs generalizing s with
  | nil =>
      cases run.exec_eq
      exact h
  | cons input inputs ih =>
      obtain ⟨mid, action, rest⟩ := run.uncons
      exact ih rest (along.2 mid action) (each input s mid along.1 h action)

theorem invariant {I : σ → Prop} (each : ∀ input s s', I s → step input s = some s' → I s')
    {s s' : σ} {inputs : List ι} (run : Run step s inputs s') (h : I s) : I s' :=
  @preserves ι σ step I (fun _ => True) (fun input s s' _ => each input s s') s s' inputs run
    (fun _ _ => trivial) h

theorem relates {R : σ → σ → Prop} {I : σ → Prop} {allowed : ι → Prop} (refl : ∀ s, R s s)
    (trans : ∀ {s mid s'}, R s mid → R mid s' → R s s')
    (each : ∀ input s s', allowed input → I s → step input s = some s' → I s' ∧ R s s')
    {s s' : σ} {inputs : List ι} (run : Run step s inputs s')
    (within : ∀ input ∈ inputs, allowed input) (h : I s) : I s' ∧ R s s' := by
  induction run with
  | nil => exact ⟨h, refl s⟩
  | snoc run action ih =>
      obtain ⟨before, kept⟩ := ih fun input hi => within input (by simp [hi])
      obtain ⟨after, last⟩ := each _ _ _ (within _ (by simp)) before action
      exact ⟨after, trans kept last⟩

/-- What is counted is paid from a store that no input fills up. -/
theorem tally_le {I : σ → Prop} {P : ι → σ → Prop} {count : ι → σ → Nat} {left : σ → Nat}
    (each : ∀ input s s', P input s → I s → step input s = some s' → I s' ∧ count input s + left s' ≤ left s)
    {s s' : σ} {inputs : List ι} (run : Run step s inputs s') (along : Along step P inputs s) (h : I s) :
    tally step count inputs s + left s' ≤ left s := by
  induction inputs generalizing s with
  | nil =>
      cases run.exec_eq
      exact Nat.le_of_eq (Nat.zero_add _)
  | cons input inputs ih =>
      obtain ⟨mid, action, rest⟩ := run.uncons
      obtain ⟨after, paid⟩ := each input s mid along.1 h action
      have later := ih rest (along.2 mid action) after
      rw [tally, action]
      simp only
      omega

theorem tally_eq {I : σ → Prop} {count : ι → σ → Nat} {total : σ → Nat}
    (each : ∀ input s s', I s → step input s = some s' → I s' ∧ total s' = total s + count input s)
    {s s' : σ} {inputs : List ι} (run : Run step s inputs s') (h : I s) :
    total s' = total s + tally step count inputs s := by
  induction inputs generalizing s with
  | nil =>
      cases run.exec_eq
      rfl
  | cons input inputs ih =>
      obtain ⟨mid, action, rest⟩ := run.uncons
      obtain ⟨after, raised⟩ := each input s mid h action
      have later := ih rest after
      rw [tally, action]
      simp only
      omega

end Run
end Zen.Lib
