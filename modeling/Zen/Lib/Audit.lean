import Mathlib.Algebra.GroupWithZero.Nat
import Zen.Lib.Reader

/-!
# Readers that keep an account

The state of an audited reader holds, next to the input not read yet, an account of what it has done.
`Erases` says which reader is left when the account is forgotten. `Pays` bounds what is booked by what is
read, whatever the outcome.
-/

namespace Zen.Lib

variable {ε β ω α γ : Type}

abbrev Audited (ε β ω α : Type) := EStateM ε (List β × ω) α

namespace Audited

def of (read : Reader ε β α) : Audited ε β ω α := fun s =>
  match read.run s.1 with
  | .ok a rest => .ok a (rest, s.2)
  | .error e rest => .error e (rest, s.2)

def book (f : ω → ω) : Audited ε β ω Unit := fun s => .ok () (s.1, f s.2)

/-- What `audited` does, and a booking for its result. -/
def booking (f : ω → ω) (audited : Audited ε β ω α) : Audited ε β ω α := do
  let a ← audited
  book f
  return a

def each (read : Nat → Audited ε β ω α) : (count k : Nat) → Audited ε β ω (List α)
  | 0, _ => pure []
  | count + 1, k => do
    let a ← read k
    let as ← each read count (k + 1)
    return a :: as

theorem of_run (read : Reader ε β α) (s : List β × ω) : (of read).run s =
    match read.run s.1 with
    | .ok a rest => .ok a (rest, s.2)
    | .error e rest => .error e (rest, s.2) := rfl

theorem bind_ran {audited : Audited ε β ω α} {f : α → Audited ε β ω γ} {s s' : List β × ω} {a : α}
    (ran : audited.run s = .ok a s') : (audited >>= f).run s = (f a).run s' := by
  rw [EStateM.run_bind, ran]

theorem bind_ok {audited : Audited ε β ω α} {f : α → Audited ε β ω γ} {s s' : List β × ω} {c : γ}
    (ran : (audited >>= f).run s = .ok c s') : ∃ a mid, audited.run s = .ok a mid ∧ (f a).run mid = .ok c s' := by
  rw [EStateM.run_bind] at ran
  cases first : audited.run s with
  | ok a mid =>
      rw [first] at ran
      exact ⟨a, mid, rfl, ran⟩
  | error e mid =>
      rw [first] at ran
      cases ran

end Audited

/-- The state that a run ends in, whatever the outcome. -/
def ended {σ : Type} : EStateM.Result ε σ α → σ
  | .ok _ s => s
  | .error _ s => s

/-! ## Forgetting the account -/

def erased : EStateM.Result ε (List β × ω) α → EStateM.Result ε (List β) α
  | .ok a s => .ok a s.1
  | .error e s => .error e s.1

def Erases (audited : Audited ε β ω α) (read : Reader ε β α) : Prop :=
  ∀ s, erased (audited.run s) = read.run s.1

namespace Erases

theorem of (read : Reader ε β α) : Erases (Audited.of (ω := ω) read) read := by
  intro s
  rw [Audited.of_run]
  cases read.run s.1 <;> rfl

theorem pure (a : α) : Erases (Pure.pure a : Audited ε β ω α) (Pure.pure a) := fun _ => rfl

theorem throw (e : ε) : Erases (MonadExcept.throw e : Audited ε β ω α) (MonadExcept.throw e) := fun _ => rfl

theorem bind {audited : Audited ε β ω α} {read : Reader ε β α} {f : α → Audited ε β ω γ} {g : α → Reader ε β γ}
    (first : Erases audited read) (second : ∀ a, Erases (f a) (g a)) : Erases (audited >>= f) (read >>= g) := by
  intro s
  have here := first s
  rw [EStateM.run_bind, EStateM.run_bind, ← here]
  cases audited.run s with
  | ok a s' => exact second a s'
  | error e s' => rfl

theorem book {audited : Audited ε β ω α} {read : Reader ε β α} (f : ω → ω) (later : Erases audited read) :
    Erases (Audited.book f >>= fun _ => audited) read :=
  fun s => later (s.1, f s.2)

theorem guard {audited audited' : Audited ε β ω α} {read read' : Reader ε β α} {c : Prop} [Decidable c]
    (yes : Erases audited read) (no : Erases audited' read') :
    Erases (if c then audited else audited') (if c then read else read') := by
  split
  · exact yes
  · exact no

theorem each {audited : Nat → Audited ε β ω α} {read : Nat → Reader ε β α} (all : ∀ k, Erases (audited k) (read k))
    (count k : Nat) : Erases (Audited.each audited count k) (readEach read count k) := by
  induction count generalizing k with
  | zero => exact pure []
  | succ count ih => exact (all k).bind fun a => (ih (k + 1)).bind fun as => pure (a :: as)

theorem booking {audited : Audited ε β ω α} {read : Reader ε β α} (f : ω → ω) (same : Erases audited read) :
    Erases (Audited.booking f audited) read := by
  have whole := same.bind fun a => book f (pure a)
  rwa [bind_pure] at whole

end Erases

/-! ## Paying for what is booked -/

/-- What a computation books is paid for by what it reads, whatever the outcome; a result leaves `k` over. -/
def Pays {σ : Type} (unread : σ → List β) (booked : σ → Nat) (k : Nat) (m : EStateM ε σ α) : Prop :=
  ∀ s, match m.run s with
    | .ok _ s' => ∃ used, unread s = used ++ unread s' ∧ booked s' + k ≤ booked s + used.length
    | .error _ s' => ∃ used, unread s = used ++ unread s' ∧ booked s' ≤ booked s + used.length

namespace Pays

variable {σ : Type} {unread : σ → List β} {booked : σ → Nat} {k : Nat} {m : EStateM ε σ α}

theorem ended (pays : Pays unread booked k m) (s : σ) : ∃ used,
    unread s = used ++ unread (Lib.ended (m.run s)) ∧ booked (Lib.ended (m.run s)) ≤ booked s + used.length := by
  have here := pays s
  cases ran : m.run s with
  | ok a s' =>
      rw [ran] at here
      obtain ⟨used, split, paid⟩ := here
      exact ⟨used, split, Nat.le_of_add_right_le paid⟩
  | error e s' =>
      rw [ran] at here
      exact here

theorem pure (a : α) : Pays unread booked 0 (Pure.pure a : EStateM ε σ α) := fun _ => ⟨[], rfl, Nat.le_refl _⟩

theorem throw (k : Nat) (e : ε) : Pays unread booked k (MonadExcept.throw e : EStateM ε σ α) :=
  fun _ => ⟨[], rfl, Nat.le_refl _⟩

theorem mono {j : Nat} (pays : Pays unread booked k m) (less : j ≤ k) : Pays unread booked j m := by
  intro s
  have here := pays s
  cases ran : m.run s with
  | ok a s' =>
      rw [ran] at here
      obtain ⟨used, split, paid⟩ := here
      exact ⟨used, split, by omega⟩
  | error e s' =>
      rw [ran] at here
      exact here

theorem bind {j : Nat} {f : α → EStateM ε σ γ} (first : Pays unread booked k m) (second : ∀ a, Pays unread booked j (f a)) :
    Pays unread booked (k + j) (m >>= f) := by
  intro s
  have here := first s
  rw [EStateM.run_bind]
  cases ran : m.run s with
  | error e s' =>
      rw [ran] at here
      exact here
  | ok a s' =>
      rw [ran] at here
      obtain ⟨used, split, paid⟩ := here
      have there := second a s'
      simp only
      cases final : (f a).run s' with
      | ok c s'' =>
          rw [final] at there
          obtain ⟨used', split', paid'⟩ := there
          refine ⟨used ++ used', by rw [split, split', List.append_assoc], ?_⟩
          rw [List.length_append]
          omega
      | error e s'' =>
          rw [final] at there
          obtain ⟨used', split', paid'⟩ := there
          refine ⟨used ++ used', by rw [split, split', List.append_assoc], ?_⟩
          rw [List.length_append]
          omega

theorem guard {m' : EStateM ε σ α} {c : Prop} [Decidable c] (yes : c → Pays unread booked k m)
    (no : ¬ c → Pays unread booked k m') : Pays unread booked k (if c then m else m') := by
  split
  · rename_i holds
    exact yes holds
  · rename_i fails
    exact no fails

end Pays

/-- A reader that gives a result for at least `k` symbols, and puts none back. -/
abbrev Takes (k : Nat) (read : Reader ε β α) : Prop := Pays id (fun _ => 0) k read

theorem Takes.orThrow {δ : Type} {k : Nat} {read : Reader ε β α} (takes : Takes k read) (e : δ) :
    Takes k (Lib.orThrow read e) := by
  intro input
  have here := takes input
  have run : (Lib.orThrow read e).run input =
      match read.run input with | .ok a rest => .ok a rest | .error _ rest => .error e rest := rfl
  rw [run]
  cases ran : read.run input with
  | ok a rest =>
      rw [ran] at here
      exact here
  | error e' rest =>
      rw [ran] at here
      exact here

/-- An audited reader whose account is a number. -/
abbrev Balanced (k : Nat) (audited : Audited ε β Nat α) : Prop := Pays Prod.fst Prod.snd k audited

namespace Balanced

theorem of {k : Nat} {read : Reader ε β α} (takes : Takes k read) : Balanced k (Audited.of read) := by
  intro s
  have here := takes s.1
  rw [Audited.of_run]
  cases ran : read.run s.1 with
  | ok a rest =>
      rw [ran] at here
      obtain ⟨used, split, paid⟩ := here
      have enough : k ≤ used.length := by simpa using paid
      exact ⟨used, split, Nat.add_le_add_left enough s.2⟩
  | error e rest =>
      rw [ran] at here
      obtain ⟨used, split, _⟩ := here
      exact ⟨used, split, Nat.le_add_right _ _⟩

theorem spend {k : Nat} {audited : Audited ε β Nat α} (balanced : Balanced (k + 1) audited) :
    Balanced k (Audited.booking (· + 1) audited) := by
  intro s
  have here := balanced s
  rw [Audited.booking, EStateM.run_bind]
  cases ran : audited.run s with
  | error e s' =>
      rw [ran] at here
      exact here
  | ok a s' =>
      rw [ran] at here
      obtain ⟨used, split, paid⟩ := here
      refine ⟨used, split, ?_⟩
      change s'.2 + 1 + k ≤ _
      omega

theorem each {read : Nat → Audited ε β Nat α} (all : ∀ i, Balanced 0 (read i)) (count i : Nat) :
    Balanced 0 (Audited.each read count i) := by
  induction count generalizing i with
  | zero => exact Pays.pure []
  | succ count ih => exact (all i).bind fun a => (ih (i + 1)).bind fun as => Pays.pure (a :: as)

end Balanced

/-! ## What a result has booked -/

/-- A result is booked as what `size` says of it. -/
def Books (size : α → Nat) (audited : Audited ε β Nat α) : Prop :=
  ∀ s a s', audited.run s = .ok a s' → s'.2 = s.2 + size a

namespace Books

variable {size : α → Nat} {audited : Audited ε β Nat α}

theorem of {read : Reader ε β α} (free : ∀ input a rest, read.run input = .ok a rest → size a = 0) :
    Books size (Audited.of read) := by
  intro s a s' h
  rw [Audited.of_run] at h
  split at h
  · rename_i ran
    cases h
    rw [free _ _ _ ran]
    rfl
  · cases h

theorem after {read : Reader ε β γ} {f : γ → Audited ε β Nat α} (later : ∀ c, Books size (f c)) :
    Books size (Audited.of read >>= f) := by
  intro s a s' h
  obtain ⟨c, mid, first, second⟩ := Audited.bind_ok h
  rw [later c mid a s' second, (of fun _ _ _ _ => rfl : Books (fun _ => 0) (Audited.of read)) s c mid first]
  rfl

theorem map {f : α → γ} {size' : γ → Nat} (books : Books size audited) (same : ∀ a, size' (f a) = size a) :
    Books size' (audited >>= fun a => Pure.pure (f a)) := by
  intro s c s' h
  obtain ⟨a, mid, first, ⟨⟩⟩ := Audited.bind_ok h
  rw [same, books s a s' first]

theorem spend {size' : α → Nat} (books : Books size audited) (one : ∀ a, size' a = size a + 1) :
    Books size' (Audited.booking (· + 1) audited) := by
  intro s c s' h
  obtain ⟨a, mid, first, ⟨⟩⟩ := Audited.bind_ok h
  have here := books s c mid first
  rw [one]
  exact congrArg (· + 1) here

theorem guard {audited' : Audited ε β Nat α} {c : Prop} [Decidable c] (yes : Books size audited)
    (no : Books size audited') : Books size (if c then audited else audited') := by
  split
  · exact yes
  · exact no

theorem each {read : Nat → Audited ε β Nat α} (all : ∀ i, Books size (read i)) (count i : Nat) :
    Books (fun as => (as.map size).sum) (Audited.each read count i) := by
  induction count generalizing i with
  | zero =>
      intro s as s' h
      cases h
      rfl
  | succ count ih =>
      intro s as s' h
      obtain ⟨a, mid, first, h⟩ := Audited.bind_ok h
      obtain ⟨others, mid', later, ⟨⟩⟩ := Audited.bind_ok h
      rw [ih (i + 1) mid others s' later, all i s a mid first]
      exact Nat.add_assoc _ _ _

end Books
end Zen.Lib
