import Mathlib.Data.List.Basic

/-!
# Readers of a token stream

A reader is a stateful, fallible computation `EStateM ε (List β) α` whose state is the input not
read yet; it keeps that state when it fails. Three facts describe how a reader meets a code:

* `Reads read code` (soundness): whatever `read` accepts and consumes is a code word of the result;
* `Parses read word a` (completeness): in front of any input, `word` is read back as `a`;
* `Rejects read word`: in front of any input, `word` makes the reader fail.

`Decides read word good a` says that `good` is what separates the last two. Each comes with its rules
for `pure`, `bind` and the counted loop `readEach`.
-/

namespace Zen.Lib

variable {ε β α γ : Type}

abbrev Reader (ε β α : Type) := EStateM ε (List β) α

theorem bind_eq_ok {read : Reader ε β α} {f : α → Reader ε β γ} {input rest : List β} {c : γ} :
    (read >>= f).run input = .ok c rest ↔
      ∃ a mid, read.run input = .ok a mid ∧ (f a).run mid = .ok c rest := by
  rw [EStateM.run_bind]
  cases read.run input <;> simp

@[simp] theorem pure_eq_ok {a b : α} {input rest : List β} :
    (pure a : Reader ε β α).run input = .ok b rest ↔ a = b ∧ input = rest := by
  change EStateM.Result.ok a input = _ ↔ _
  simp

@[simp] theorem throw_ne_ok {e : ε} {a : α} {input rest : List β} :
    (throw e : Reader ε β α).run input ≠ .ok a rest := by
  change EStateM.Result.error e input ≠ _
  simp

theorem guard_ok {bad : Prop} [Decidable bad] {e : ε} {read : Reader ε β α} {a : α}
    {input rest : List β} : (if bad then throw e else read).run input = .ok a rest ↔
      ¬ bad ∧ read.run input = .ok a rest := by
  split
  · rename_i b
    exact iff_of_false throw_ne_ok fun both => both.1 b
  · rename_i good
    exact (and_iff_right good).symm

theorem bind_of_ok {read : Reader ε β α} {f : α → Reader ε β γ} {input mid : List β} {a : α}
    (h : read.run input = .ok a mid) : (read >>= f).run input = (f a).run mid := by
  rw [EStateM.run_bind, h]

theorem bind_of_error {read : Reader ε β α} {f : α → Reader ε β γ} {input mid : List β} {e : ε}
    (h : read.run input = .error e mid) : (read >>= f).run input = .error e mid := by
  rw [EStateM.run_bind, h]

theorem bind_run_congr {read read' : Reader ε β α} {f g : α → Reader ε β γ} {input : List β}
    (first : read.run input = read'.run input)
    (same : ∀ a mid, read.run input = .ok a mid → (f a).run mid = (g a).run mid) :
    (read >>= f).run input = (read' >>= g).run input := by
  rw [EStateM.run_bind, EStateM.run_bind, ← first]
  cases ran : read.run input with
  | ok a mid => exact same a mid ran
  | error e mid => rfl

-- `read`, with `e` in place of whatever error it fails with
def orThrow {δ : Type} (read : Reader ε β α) (e : δ) : Reader δ β α := fun input =>
  match read.run input with
  | .ok a rest => .ok a rest
  | .error _ rest => .error e rest

theorem orThrow_ok {δ : Type} {read : Reader ε β α} {e : δ} {input rest : List β} {a : α} :
    (orThrow read e).run input = .ok a rest ↔ read.run input = .ok a rest := by
  simp only [orThrow, EStateM.run]
  split <;> simp_all

def readEach (read : Nat → Reader ε β α) : (count k : Nat) → Reader ε β (List α)
  | 0, _ => pure []
  | count + 1, k => do
    let a ← read k
    let as ← readEach read count (k + 1)
    return a :: as

theorem readEach_all {read : Nat → Reader ε β α} {P : α → Prop}
    (each : ∀ k input a rest, (read k).run input = .ok a rest → P a) {count k : Nat}
    {as : List α} {input rest : List β}
    (h : (readEach read count k).run input = .ok as rest) : ∀ a ∈ as, P a := by
  induction count generalizing k as input rest with
  | zero =>
      obtain ⟨rfl, _⟩ := pure_eq_ok.mp h
      simp
  | succ count ih =>
      obtain ⟨first, mid, hfirst, h⟩ := bind_eq_ok.mp h
      obtain ⟨others, mid', hothers, h⟩ := bind_eq_ok.mp h
      obtain ⟨rfl, _⟩ := pure_eq_ok.mp h
      intro a ha
      rcases List.mem_cons.mp ha with rfl | ha
      · exact each k input a mid hfirst
      · exact ih hothers a ha

inductive Words (code : α → List β → Prop) : List α → List β → Prop where
  | nil : Words code [] []
  | cons {a as word words} : code a word → Words code as words →
      Words code (a :: as) (word ++ words)

theorem Words.mono {code code' : α → List β → Prop} {as : List α} {words : List β}
    (h : Words code as words) (weaker : ∀ a word, code a word → code' a word) :
    Words code' as words := by
  induction h with
  | nil => exact .nil
  | cons first _ ih => exact .cons (weaker _ _ first) ih

theorem Words.forall {code : α → List β → Prop} {P : α → Prop} {as : List α} {words : List β}
    (h : Words code as words) (each : ∀ a word, code a word → P a) : ∀ a ∈ as, P a := by
  induction h with
  | nil => simp
  | cons first _ ih => simpa using ⟨each _ _ first, ih⟩

theorem Words.and {code : α → List β → Prop} {P : α → Prop} {as : List α} {words : List β}
    (h : Words code as words) (each : ∀ a ∈ as, P a) : Words (fun a word => P a ∧ code a word) as words := by
  induction h with
  | nil => exact .nil
  | cons first _ ih =>
      obtain ⟨here, later⟩ := List.forall_mem_cons.mp each
      exact .cons ⟨here, first⟩ (ih later)

def Reads (read : Reader ε β α) (code : α → List β → Prop) : Prop :=
  ∀ input a rest, read.run input = .ok a rest → ∃ word, code a word ∧ input = word ++ rest

def Parses (read : Reader ε β α) (word : List β) (a : α) : Prop :=
  ∀ rest, read.run (word ++ rest) = .ok a rest

def Rejects (read : Reader ε β α) (word : List β) : Prop :=
  ∀ rest, ∃ e left, read.run (word ++ rest) = .error e left

def Decides (read : Reader ε β α) (word : List β) (good : Prop) (a : α) : Prop :=
  (good → Parses read word a) ∧ (¬ good → Rejects read word)

/-! ## Soundness -/

theorem Reads.mono {read : Reader ε β α} {code code' : α → List β → Prop} (h : Reads read code)
    (weaker : ∀ a word, code a word → code' a word) : Reads read code' := by
  intro input a rest ok
  obtain ⟨word, hw, split⟩ := h input a rest ok
  exact ⟨word, weaker a word hw, split⟩

theorem Reads.bind {read : Reader ε β α} {f : α → Reader ε β γ} {first : α → List β → Prop}
    {second : α → γ → List β → Prop} (h : Reads read first) (h' : ∀ a, Reads (f a) (second a)) :
    Reads (read >>= f)
      (fun c word => ∃ a u v, first a u ∧ second a c v ∧ word = u ++ v) := by
  intro input c rest ok
  obtain ⟨a, mid, okFirst, okSecond⟩ := bind_eq_ok.mp ok
  obtain ⟨u, hu, rfl⟩ := h input a mid okFirst
  obtain ⟨v, hv, rfl⟩ := h' a mid c rest okSecond
  exact ⟨u ++ v, ⟨a, u, v, hu, hv, rfl⟩, by simp⟩

theorem Reads.pure (a : α) : Reads (Pure.pure a : Reader ε β α) (fun b word => b = a ∧ word = []) := by
  intro input b rest ok
  obtain ⟨rfl, rfl⟩ := pure_eq_ok.mp ok
  exact ⟨[], ⟨rfl, rfl⟩, rfl⟩

theorem Reads.readEach {read : Nat → Reader ε β α} {code : α → List β → Prop}
    (h : ∀ k, Reads (read k) code) (count k : Nat) :
    Reads (Lib.readEach read count k) (fun as word => as.length = count ∧ Words code as word) := by
  induction count generalizing k with
  | zero =>
      apply (Reads.pure []).mono
      rintro as word ⟨rfl, rfl⟩
      exact ⟨rfl, .nil⟩
  | succ count ih =>
      apply ((h k).bind fun a => (ih (k + 1)).bind fun as => Reads.pure (a :: as)).mono
      rintro _ _ ⟨a, u, v, hu, ⟨as, u', v', ⟨hl, hw⟩, ⟨rfl, rfl⟩, rfl⟩, rfl⟩
      exact ⟨by simp [hl], by simpa using Words.cons hu hw⟩

/-! ## Completeness -/

theorem Parses.pure (a : α) : Parses (Pure.pure a : Reader ε β α) [] a := fun _ => rfl

theorem Parses.bind {read : Reader ε β α} {f : α → Reader ε β γ} {u v : List β} {a : α} {c : γ}
    (h : Parses read u a) (h' : Parses (f a) v c) : Parses (read >>= f) (u ++ v) c := by
  intro rest
  rw [List.append_assoc, bind_of_ok (h _)]
  exact h' rest

theorem Rejects.bind_left {read : Reader ε β α} {f : α → Reader ε β γ} {u v : List β}
    (h : Rejects read u) : Rejects (read >>= f) (u ++ v) := by
  intro rest
  obtain ⟨e, left, fails⟩ := h (v ++ rest)
  exact ⟨e, left, by rw [List.append_assoc, bind_of_error fails]⟩

theorem Rejects.bind_right {read : Reader ε β α} {f : α → Reader ε β γ} {u v : List β} {a : α}
    (h : Parses read u a) (h' : Rejects (f a) v) : Rejects (read >>= f) (u ++ v) := by
  intro rest
  obtain ⟨e, left, fails⟩ := h' rest
  exact ⟨e, left, by rw [List.append_assoc, bind_of_ok (h _), fails]⟩

theorem Rejects.throw (e : ε) (word : List β) :
    Rejects (MonadExcept.throw e : Reader ε β α) word :=
  fun _ => ⟨e, _, rfl⟩

namespace Decides

variable {P Q : Prop} {read : Reader ε β α} {word : List β} {a : α}

theorem of_parses (h : Parses read word a) : Decides read word True a :=
  ⟨fun _ => h, fun absurd => (absurd trivial).elim⟩

theorem iff (same : P ↔ Q) (h : Decides read word P a) : Decides read word Q a :=
  ⟨fun q => h.1 (same.mpr q), fun nq => h.2 fun p => nq (same.mp p)⟩

theorem bind {f : α → Reader ε β γ} {u v : List β} {c : γ} (first : Decides read u P a)
    (second : P → Decides (f a) v Q c) : Decides (read >>= f) (u ++ v) (P ∧ Q) c := by
  constructor
  · rintro ⟨p, q⟩
    exact (first.1 p).bind ((second p).1 q)
  · intro both
    by_cases p : P
    · exact (first.1 p |> Rejects.bind_right) ((second p).2 fun q => both ⟨p, q⟩)
    · exact (first.2 p).bind_left

theorem map (h : Decides read word P a) (f : α → γ) :
    Decides (read >>= fun a => Pure.pure (f a)) word P (f a) := by
  have result : Decides (Pure.pure (f a) : Reader ε β γ) [] True (f a) := of_parses (Parses.pure _)
  have mapped := (h.bind (f := fun a => Pure.pure (f a)) fun _ => result).iff (and_iff_left trivial)
  rwa [List.append_nil] at mapped

theorem guard {bad : Prop} [Decidable bad] {e : ε} (h : ¬ bad → Decides read word P a) :
    Decides (if bad then MonadExcept.throw e else read) word (¬ bad ∧ P) a := by
  by_cases b : bad
  · rw [if_pos b]
    exact ⟨fun both => absurd b both.1, fun _ => Rejects.throw e word⟩
  · rw [if_neg b]
    exact (h b).iff (by simp [b])

theorem readEach {read : Nat → Reader ε β α} {code : γ → List β → Prop} (result : γ → α)
    {good : γ → Prop} {cs : List γ} {word : List β} (words : Words code cs word)
    (each : ∀ c ∈ cs, ∀ w, code c w → ∀ k, Decides (read k) w (good c) (result c)) (k : Nat) :
    Decides (Lib.readEach read cs.length k) word (∀ c ∈ cs, good c) (cs.map result) := by
  induction words generalizing k with
  | nil => exact (of_parses (Parses.pure [])).iff (by simp)
  | @cons c cs u v hu words ih =>
      have first := each c (by simp) u hu k
      have others := ih (fun c hc => each c (by simp [hc])) (k + 1)
      exact (first.bind fun _ => others.map (result c :: ·)).iff (by simp)

end Decides

end Zen.Lib
