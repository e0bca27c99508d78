import Mathlib.Data.List.Basic
import Mathlib.Data.List.Pairwise

/-!
# Ordered maps with natural keys

An association list whose keys ascend. Iteration is in key order; `emplace` leaves a key that is
already there alone.
-/

namespace Zen.Lib

@[ext] structure OrdMap (α : Type) where
  entries : List (Nat × α)
  ascending : (entries.map Prod.fst).Pairwise (· < ·)

namespace OrdMap

variable {α : Type}

def empty : OrdMap α := ⟨[], .nil⟩

def values (m : OrdMap α) : List α := m.entries.map Prod.snd

def lookup (k : Nat) : List (Nat × α) → Option α
  | [] => none
  | (k', a) :: entries => if k' = k then some a else lookup k entries

def find (m : OrdMap α) (k : Nat) : Option α := lookup k m.entries

def insert (k : Nat) (a : α) : List (Nat × α) → List (Nat × α)
  | [] => [(k, a)]
  | (k', a') :: entries =>
      if k < k' then (k, a) :: (k', a') :: entries
      else if k = k' then (k', a') :: entries
      else (k', a') :: insert k a entries

theorem mem_insert {k j : Nat} {a : α} {entries : List (Nat × α)}
    (h : j ∈ (insert k a entries).map Prod.fst) : j = k ∨ j ∈ entries.map Prod.fst := by
  induction entries with
  | nil => simpa [insert] using h
  | cons entry entries ih =>
      obtain ⟨k', a'⟩ := entry
      rw [insert] at h
      split at h
      · simpa using h
      · split at h
        · exact Or.inr h
        · rcases List.mem_cons.mp h with rfl | h
          · exact Or.inr (by simp)
          · rcases ih h with same | old
            · exact Or.inl same
            · exact Or.inr (List.mem_cons_of_mem _ old)

theorem insert_ascending {k : Nat} {a : α} {entries : List (Nat × α)}
    (h : (entries.map Prod.fst).Pairwise (· < ·)) :
    ((insert k a entries).map Prod.fst).Pairwise (· < ·) := by
  induction entries with
  | nil => simp [insert]
  | cons entry entries ih =>
      obtain ⟨k', a'⟩ := entry
      rw [List.map_cons, List.pairwise_cons] at h
      rw [insert]
      split
      · rename_i before
        rw [List.map_cons, List.pairwise_cons, List.map_cons, List.pairwise_cons]
        refine ⟨?_, h⟩
        intro j hj
        rcases List.mem_cons.mp hj with rfl | hj
        · exact before
        · exact Nat.lt_trans before (h.1 j hj)
      · split
        · rw [List.map_cons, List.pairwise_cons]
          exact h
        · rw [List.map_cons, List.pairwise_cons]
          refine ⟨?_, ih h.2⟩
          intro j hj
          rcases mem_insert hj with rfl | old
          · omega
          · exact h.1 j old

def emplace (m : OrdMap α) (k : Nat) (a : α) : OrdMap α :=
  ⟨insert k a m.entries, insert_ascending m.ascending⟩

def erase (m : OrdMap α) (k : Nat) : OrdMap α :=
  ⟨m.entries.filter fun entry => entry.1 ≠ k,
    m.ascending.sublist ((List.filter_sublist).map Prod.fst)⟩

def update (m : OrdMap α) (k : Nat) (f : α → α) : OrdMap α :=
  ⟨m.entries.map fun entry => if entry.1 = k then (entry.1, f entry.2) else entry, by
    rw [List.map_map]
    convert m.ascending using 2
    funext entry
    simp only [Function.comp_apply]
    split <;> rfl⟩

/-! ## Lookups -/

theorem lookup_mem {k : Nat} {a : α} {entries : List (Nat × α)} (h : lookup k entries = some a) :
    (k, a) ∈ entries := by
  induction entries with
  | nil => cases h
  | cons entry entries ih =>
      obtain ⟨k', a'⟩ := entry
      rw [lookup] at h
      split at h
      · rename_i same
        cases h
        simp [same]
      · exact List.mem_cons_of_mem _ (ih h)

theorem lookup_eq_some {k : Nat} {a : α} {entries : List (Nat × α)}
    (ascending : (entries.map Prod.fst).Pairwise (· < ·)) :
    lookup k entries = some a ↔ (k, a) ∈ entries := by
  refine ⟨lookup_mem, ?_⟩
  induction entries with
  | nil => simp
  | cons entry entries ih =>
      obtain ⟨k', a'⟩ := entry
      rw [List.map_cons, List.pairwise_cons] at ascending
      intro h
      rw [lookup]
      rcases List.mem_cons.mp h with same | h
      · cases same
        rw [if_pos rfl]
      · have later := ascending.1 k (List.mem_map_of_mem (f := Prod.fst) h)
        rw [if_neg (by omega)]
        exact ih ascending.2 h

theorem find_eq_some {m : OrdMap α} {k : Nat} {a : α} : m.find k = some a ↔ (k, a) ∈ m.entries :=
  lookup_eq_some m.ascending

theorem mem_insert_of_mem {k : Nat} {a : α} {entry : Nat × α} {entries : List (Nat × α)} (h : entry ∈ entries) :
    entry ∈ insert k a entries := by
  induction entries with
  | nil => cases h
  | cons first entries ih =>
      rw [insert]
      split
      · exact List.mem_cons_of_mem _ h
      · split
        · exact h
        · rcases List.mem_cons.mp h with rfl | later
          · exact List.mem_cons_self
          · exact List.mem_cons_of_mem _ (ih later)

theorem emplace_keeps {m : OrdMap α} {k j : Nat} {a b : α} (found : m.find j = some b) :
    (m.emplace k a).find j = some b :=
  find_eq_some.mpr (mem_insert_of_mem (find_eq_some.mp found))

theorem lookup_insert (k j : Nat) (a : α) {entries : List (Nat × α)}
    (ascending : (entries.map Prod.fst).Pairwise (· < ·)) :
    lookup j (insert k a entries) = if j = k then some ((lookup k entries).getD a) else lookup j entries := by
  induction entries with
  | nil => simp [insert, lookup, eq_comm]
  | cons entry entries ih =>
      obtain ⟨k', b⟩ := entry
      rw [List.map_cons, List.pairwise_cons] at ascending
      rw [insert]
      split
      · rename_i before
        have absent : lookup k ((k', b) :: entries) = none := by
          refine Option.eq_none_iff_forall_ne_some.mpr fun c found => ?_
          rcases List.mem_cons.mp (lookup_mem found) with same | later
          · cases same
            exact Nat.lt_irrefl _ before
          · exact Nat.lt_asymm before (ascending.1 k (List.mem_map_of_mem (f := Prod.fst) later))
        rw [lookup, absent]
        simp [eq_comm]
      · split
        · rename_i same
          subst same
          by_cases here : j = k
          · simp [here, lookup]
          · simp [here]
        · rename_i other
          rw [lookup, ih ascending.2]
          by_cases first : k' = j
          · subst first
            simp [lookup, Ne.symm other]
          · simp [lookup, first, Ne.symm other]

theorem find_emplace (m : OrdMap α) (k : Nat) (a : α) (j : Nat) :
    (m.emplace k a).find j = if j = k then some ((m.find k).getD a) else m.find j :=
  lookup_insert k j a m.ascending

theorem insert_last {k : Nat} {a : α} {entries : List (Nat × α)} (fresh : ∀ entry ∈ entries, entry.1 < k) :
    insert k a entries = entries ++ [(k, a)] := by
  induction entries with
  | nil => rfl
  | cons entry entries ih =>
      obtain ⟨k', a'⟩ := entry
      have here := fresh (k', a') (by simp)
      rw [insert, if_neg (by omega), if_neg (by omega),
        ih fun entry h => fresh entry (List.mem_cons_of_mem _ h)]
      rfl

theorem emplace_last {m : OrdMap α} {k : Nat} (fresh : ∀ entry ∈ m.entries, entry.1 < k) (a : α) :
    (m.emplace k a).entries = m.entries ++ [(k, a)] :=
  insert_last fresh

theorem find_emplace_last {m : OrdMap α} {k : Nat} (fresh : ∀ entry ∈ m.entries, entry.1 < k) (a : α)
    (j : Nat) : (m.emplace k a).find j = if j = k then some a else m.find j := by
  apply Option.ext
  intro b
  have absent : (k, b) ∉ m.entries := fun h => Nat.lt_irrefl k (fresh _ h)
  rw [find_eq_some, emplace_last fresh, List.mem_append, List.mem_singleton, Prod.mk.injEq]
  split
  · rename_i same
    subst same
    simp [absent, eq_comm]
  · rename_i different
    simp [different, find_eq_some]

theorem find_erase (m : OrdMap α) (k j : Nat) :
    (m.erase k).find j = if j = k then none else m.find j := by
  apply Option.ext
  intro b
  rw [find_eq_some, erase, List.mem_filter]
  split
  · rename_i same
    simp [same]
  · rename_i different
    simp [different, find_eq_some]

theorem find_update (m : OrdMap α) (k : Nat) (f : α → α) (j : Nat) :
    (m.update k f).find j = if j = k then (m.find j).map f else m.find j := by
  unfold find update
  simp only
  induction m.entries with
  | nil => simp [lookup]
  | cons entry entries ih =>
      obtain ⟨k', a⟩ := entry
      rw [List.map_cons, lookup]
      by_cases same : k' = k <;> by_cases here : k' = j
      · subst here
        simp [same, lookup]
      · simp only [same, ↓reduceIte, lookup] at *
        simp [here, ih]
      · subst here
        simp [same, lookup]
      · simp only [same, ↓reduceIte, lookup, here]
        exact ih

theorem update_comm (m : OrdMap α) (j k : Nat) {f g : α → α} (commute : ∀ a, f (g a) = g (f a)) :
    (m.update j f).update k g = (m.update k g).update j f := by
  apply OrdMap.ext
  simp only [update, List.map_map]
  apply List.map_congr_left
  rintro ⟨key, a⟩ _
  by_cases first : key = j <;> by_cases second : key = k <;> simp_all

/-! ## Other values under the same keys -/

variable {β : Type}

def map (f : α → β) (m : OrdMap α) : OrdMap β :=
  ⟨m.entries.map fun entry => (entry.1, f entry.2), by
    rw [List.map_map]
    exact m.ascending⟩

theorem find_map (f : α → β) (m : OrdMap α) (k : Nat) : (m.map f).find k = (m.find k).map f := by
  unfold find map
  simp only
  induction m.entries with
  | nil => rfl
  | cons entry entries ih =>
      obtain ⟨k', a⟩ := entry
      rw [List.map_cons, lookup, lookup]
      split
      · rfl
      · exact ih

theorem values_map (f : α → β) (m : OrdMap α) : (m.map f).values = m.values.map f := by
  simp [values, map]

theorem map_emplace (f : α → β) (m : OrdMap α) (k : Nat) (a : α) :
    (m.emplace k a).map f = (m.map f).emplace k (f a) := by
  apply OrdMap.ext
  unfold emplace map
  simp only
  induction m.entries with
  | nil => rfl
  | cons entry entries ih =>
      obtain ⟨k', b⟩ := entry
      rw [List.map_cons, insert, insert]
      split
      · rfl
      · split
        · rfl
        · rw [List.map_cons, ih]

theorem map_erase (f : α → β) (m : OrdMap α) (k : Nat) : (m.erase k).map f = (m.map f).erase k := by
  apply OrdMap.ext
  simp only [erase, map, List.filter_map]
  rfl

theorem map_update {f : α → β} {g : α → α} {g' : β → β} (commute : ∀ a, f (g a) = g' (f a)) (m : OrdMap α) (k : Nat) :
    (m.update k g).map f = (m.map f).update k g' := by
  apply OrdMap.ext
  simp only [update, map, List.map_map]
  apply List.map_congr_left
  rintro ⟨key, a⟩ _
  by_cases here : key = k
  · simp [here, commute]
  · simp [here]

end OrdMap
end Zen.Lib
