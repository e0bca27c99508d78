import Mathlib.Data.List.Basic
import Zen.Lib.Reader

/-!
# Prefix-free codes

A code whose words can be followed by anything and still be told apart, and what keeps it so:
concatenation, and repetition after a count.
-/

namespace Zen.Lib

variable {α β γ : Type}

/-- On `P`, a word followed by anything shows what it encodes and where it ends. -/
def PrefixFree (P : α → Prop) (code : α → List β) : Prop :=
  ∀ ⦃a b : α⦄ ⦃s t : List β⦄, P a → P b → code a ++ s = code b ++ t → a = b ∧ s = t

namespace PrefixFree

variable {P : α → Prop} {Q : γ → Prop} {code : α → List β} {code' : γ → List β}

theorem injective (free : PrefixFree P code) {a b : α} (ha : P a) (hb : P b) (same : code a = code b) : a = b :=
  (free ha hb (s := []) (t := []) (by rw [same])).1

theorem mono {P' : α → Prop} (free : PrefixFree P code) (weaker : ∀ a, P' a → P a) : PrefixFree P' code :=
  fun _ _ _ _ ha hb same => free (weaker _ ha) (weaker _ hb) same

theorem ofLength {n : Nat} (length : ∀ a, P a → (code a).length = n)
    (distinct : ∀ a b, P a → P b → code a = code b → a = b) : PrefixFree P code := by
  intro a b s t ha hb same
  obtain ⟨words, rests⟩ := List.append_inj same (by rw [length a ha, length b hb])
  exact ⟨distinct a b ha hb words, rests⟩

theorem singleton : PrefixFree (fun _ : β => True) fun b => [b] := by
  intro a b s t _ _ same
  exact List.cons.inj same

theorem append (first : PrefixFree P code) (second : PrefixFree Q code') :
    PrefixFree (fun p : α × γ => P p.1 ∧ Q p.2) fun p => code p.1 ++ code' p.2 := by
  rintro ⟨a, c⟩ ⟨b, d⟩ s t ⟨ha, hc⟩ ⟨hb, hd⟩ same
  simp only [List.append_assoc] at same
  obtain ⟨rfl, seconds⟩ := first ha hb same
  obtain ⟨rfl, rests⟩ := second hc hd seconds
  exact ⟨rfl, rests⟩

theorem comap {f : γ → α} (free : PrefixFree P code) (injective : Function.Injective f) :
    PrefixFree (fun c => P (f c)) fun c => code (f c) := by
  intro a b s t ha hb same
  obtain ⟨equal, rests⟩ := free ha hb same
  exact ⟨injective equal, rests⟩

theorem flatMap (free : PrefixFree P code) {xs ys : List α} {s t : List β} (hx : ∀ x ∈ xs, P x) (hy : ∀ y ∈ ys, P y)
    (length : xs.length = ys.length) (same : xs.flatMap code ++ s = ys.flatMap code ++ t) : xs = ys ∧ s = t := by
  induction xs generalizing ys with
  | nil =>
      obtain rfl := List.eq_nil_of_length_eq_zero length.symm
      exact ⟨rfl, same⟩
  | cons x xs ih =>
      cases ys with
      | nil => cases length
      | cons y ys =>
          obtain ⟨here, later⟩ := List.forall_mem_cons.mp hx
          obtain ⟨here', later'⟩ := List.forall_mem_cons.mp hy
          simp only [List.flatMap_cons, List.append_assoc] at same
          obtain ⟨rfl, others⟩ := free here here' same
          obtain ⟨rfl, rests⟩ := ih later later' (Nat.succ.inj length) others
          exact ⟨rfl, rests⟩

theorem counted {R : Nat → Prop} {count : Nat → List β} (number : PrefixFree R count) (each : PrefixFree P code) :
    PrefixFree (fun xs : List α => R xs.length ∧ ∀ x ∈ xs, P x) fun xs => count xs.length ++ xs.flatMap code := by
  rintro xs ys s t ⟨sized, hx⟩ ⟨sized', hy⟩ same
  simp only [List.append_assoc] at same
  obtain ⟨length, same⟩ := number sized sized' same
  exact each.flatMap hx hy length same

end PrefixFree

/-! ## Codes that are relations -/

/-- A word followed by anything shows, up to `norm`, what it encodes, and where it ends. -/
def Tells (code : α → List β → Prop) (norm : α → γ) : Prop :=
  ∀ ⦃a b : α⦄ ⦃u v s t : List β⦄, code a u → code b v → u ++ s = v ++ t → norm a = norm b ∧ s = t

namespace Tells

variable {code : α → List β → Prop} {norm : α → γ}

theorem words (tells : Tells code norm) {as bs : List α} {u v s t : List β} (ha : Words code as u) (hb : Words code bs v)
    (length : as.length = bs.length) (same : u ++ s = v ++ t) : as.map norm = bs.map norm ∧ s = t := by
  induction ha generalizing bs v with
  | nil =>
      obtain rfl := List.eq_nil_of_length_eq_zero length.symm
      cases hb
      exact ⟨rfl, same⟩
  | @cons a as word words first _ ih =>
      cases hb with
      | nil => cases length
      | @cons b bs word' words' first' later' =>
          simp only [List.append_assoc] at same
          obtain ⟨here, same⟩ := tells first first' same
          obtain ⟨others, rests⟩ := ih later' (Nat.succ.inj length) same
          exact ⟨by rw [List.map_cons, List.map_cons, here, others], rests⟩

end Tells
end Zen.Lib
