import Mathlib.Data.Multiset.AddSub
import Mathlib.Data.Multiset.MapFold

/-!
# Custody of items that live in containers

A container is opened and closed, possibly several times at once; the item made last lives in the
container that was asked last, and is reached through a descriptor of it. `Obeys` says of a trace that
no item is used or destroyed that does not live in an open container, and that no container is closed
for the last time on its items.
-/

namespace Zen.Lib.Custody

variable {κ δ ι : Type}

structure Holding (κ δ ι : Type) where
  container : κ
  descriptor : δ
  item : ι
  deriving DecidableEq

inductive Act (κ δ ι : Type) where
  | opens (container : κ)
  | asks (container : κ)
  | creates (descriptor : δ) (item : Option ι)
  | uses (descriptor : δ) (item : ι)
  | destroys (descriptor : δ) (item : ι)
  | closes (container : κ)
  deriving DecidableEq

structure Holdings (κ δ ι : Type) where
  opened : Multiset κ := 0
  asked : Option κ := none
  live : Multiset (Holding κ δ ι) := 0

namespace Holdings

/-- Some live item answers to these two, in an open container. -/
def Has (h : Holdings κ δ ι) (x : Holding κ δ ι) : Prop := x ∈ h.live ∧ x.container ∈ h.opened

/-- Each live item keeps one opening of its container to itself. -/
def Covered (h : Holdings κ δ ι) : Prop := h.live.map Holding.container ≤ h.opened

def Same (h h' : Holdings κ δ ι) : Prop := h'.opened = h.opened ∧ h'.live = h.live

theorem Covered.has {h : Holdings κ δ ι} (covered : h.Covered) {x : Holding κ δ ι} (member : x ∈ h.live) : h.Has x :=
  ⟨member, Multiset.mem_of_le covered (Multiset.mem_map_of_mem _ member)⟩

end Holdings

variable [DecidableEq κ] [DecidableEq δ] [DecidableEq ι]

inductive Lawful : Holdings κ δ ι → Act κ δ ι → Holdings κ δ ι → Prop where
  | opens (h : Holdings κ δ ι) (c : κ) : Lawful h (.opens c) { h with opened := c ::ₘ h.opened }
  | asks {h : Holdings κ δ ι} {c : κ} (opened : c ∈ h.opened) : Lawful h (.asks c) { h with asked := some c }
  | fails {h : Holdings κ δ ι} {c : κ} (asked : h.asked = some c) (opened : c ∈ h.opened) (d : δ) :
      Lawful h (.creates d none) { h with asked := none }
  | creates {h : Holdings κ δ ι} {c : κ} (asked : h.asked = some c) (opened : c ∈ h.opened) (d : δ) (i : ι) :
      Lawful h (.creates d (some i)) { h with asked := none, live := ⟨c, d, i⟩ ::ₘ h.live }
  | uses {h : Holdings κ δ ι} {x : Holding κ δ ι} (has : h.Has x) : Lawful h (.uses x.descriptor x.item) h
  | destroys {h : Holdings κ δ ι} {x : Holding κ δ ι} (has : h.Has x) :
      Lawful h (.destroys x.descriptor x.item) { h with live := h.live.erase x }
  | closes {h : Holdings κ δ ι} {c : κ} (opened : c ∈ h.opened)
      (rest : h.live.map Holding.container ≤ h.opened.erase c) :
      Lawful h (.closes c) { h with opened := h.opened.erase c }

inductive Obeys : Holdings κ δ ι → List (Act κ δ ι) → Holdings κ δ ι → Prop where
  | nil (h : Holdings κ δ ι) : Obeys h [] h
  | cons {h mid h' : Holdings κ δ ι} {act : Act κ δ ι} {acts : List (Act κ δ ι)} :
      Lawful h act mid → Obeys mid acts h' → Obeys h (act :: acts) h'

theorem Obeys.one {h h' : Holdings κ δ ι} {act : Act κ δ ι} (lawful : Lawful h act h') : Obeys h [act] h' :=
  .cons lawful (.nil h')

theorem Obeys.append {h mid h' : Holdings κ δ ι} {acts more : List (Act κ δ ι)} (first : Obeys h acts mid)
    (rest : Obeys mid more h') : Obeys h (acts ++ more) h' := by
  induction first with
  | nil => exact rest
  | cons lawful _ ih => exact .cons lawful (ih rest)

theorem Obeys.uses {h : Holdings κ δ ι} {acts : List (Act κ δ ι)}
    (each : ∀ act ∈ acts, ∃ x, h.Has x ∧ act = .uses x.descriptor x.item) : Obeys h acts h := by
  induction acts with
  | nil => exact .nil h
  | cons act acts ih =>
      obtain ⟨⟨x, has, rfl⟩, rest⟩ := List.forall_mem_cons.mp each
      exact .cons (.uses has) (ih rest)

/-! ## What a lawful trace says -/

/-- How often an item lives. -/
def Holdings.count (h : Holdings κ δ ι) (d : δ) (i : ι) : Nat :=
  (h.live.map fun x => (x.descriptor, x.item)).count (d, i)

omit [DecidableEq κ] in
theorem count_live_cons (opened : Multiset κ) (asked asked' : Option κ) (x : Holding κ δ ι)
    (live : Multiset (Holding κ δ ι)) (d : δ) (i : ι) : Holdings.count ⟨opened, asked, x ::ₘ live⟩ d i =
      Holdings.count ⟨opened, asked', live⟩ d i + if x.descriptor = d ∧ x.item = i then 1 else 0 := by
  rw [Holdings.count, Multiset.map_cons, Multiset.count_cons, Holdings.count]
  simp only [Prod.mk.injEq, eq_comm]

theorem Lawful.count {h h' : Holdings κ δ ι} {act : Act κ δ ι} (lawful : Lawful h act h') (d : δ) (i : ι) :
    [act].count (.destroys d i) + h'.count d i = [act].count (.creates d (some i)) + h.count d i := by
  cases lawful with
  | opens | asks | fails | uses | closes => simp [Holdings.count]
  | creates asked opened d' i' =>
      rw [count_live_cons _ _ h.asked]
      simp [List.count_singleton, Nat.add_comm]
  | @destroys x has =>
      obtain ⟨opened, asked, live⟩ := h
      have kept := count_live_cons opened asked asked x (live.erase x) d i
      rw [Multiset.cons_erase has.1] at kept
      rw [kept]
      simp [List.count_singleton, Nat.add_comm]

/-- An item is destroyed as often as it was created, less where it still lives. -/
theorem Obeys.destroyed_once {h h' : Holdings κ δ ι} {acts : List (Act κ δ ι)} (obeys : Obeys h acts h') (d : δ) (i : ι) :
    acts.count (.destroys d i) + h'.count d i = acts.count (.creates d (some i)) + h.count d i := by
  induction obeys with
  | nil => simp
  | @cons h mid h' act acts lawful _ ih =>
      have first := lawful.count d i
      rw [← List.singleton_append, List.count_append, List.count_append]
      omega

end Zen.Lib.Custody
