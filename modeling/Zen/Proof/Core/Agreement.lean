import Zen.Spec.Agreement

/-!
# When registrations agree

A registration adds the occurrences of one schema, and of the pairs it brings together the registry
has compared the published ones. Agreement is kept exactly where none of the others clash.
-/

namespace Zen.Proof

open Zen.Lib

variable {r r' : Registry} {schema : Schema}

theorem agrees_symm {a b : Raw.Schema} (h : a.Agrees b) : b.Agrees a :=
  fun name version => (h name.symm version.symm).symm

theorem publish_cases (action : r.publish schema = some r') :
    (∃ known, r.lookup schema.name schema.version = some known) ∧ r' = r ∨
      r.lookup schema.name schema.version = none ∧ r' = { r with published := r.published ++ [schema] } := by
  unfold Registry.publish Registry.registerSchema at action
  cases found : r.lookup schema.name schema.version with
  | none =>
      rw [found] at action
      cases action
      exact .inr ⟨rfl, rfl⟩
  | some known =>
      rw [found] at action
      simp only at action
      split at action
      · cases action
        exact .inl ⟨⟨known, rfl⟩, rfl⟩
      · cases action

theorem mem_occurrences {a : Raw.Schema} :
    a ∈ r.occurrences ↔ (∃ s ∈ r.published, a = s.raw) ∨ a ∈ r.nested := by
  simp only [Registry.occurrences, Registry.nested, List.mem_flatMap, Raw.Schema.schemas_eq, List.mem_cons]
  constructor
  · rintro ⟨s, published, same | below⟩
    · exact .inl ⟨s, published, same⟩
    · exact .inr ⟨s, published, below⟩
  · rintro (⟨s, published, same⟩ | ⟨s, published, below⟩)
    · exact ⟨s, published, .inl same⟩
    · exact ⟨s, published, .inr below⟩

theorem nested_mem {s n : Raw.Schema} (below : n ∈ s.nested) : n ∈ s.schemas := by
  rw [Raw.Schema.schemas_eq]
  exact List.mem_cons_of_mem _ below

theorem occurrences_publish : Registry.occurrences { r with published := r.published ++ [schema] } =
    r.occurrences ++ schema.raw.schemas := by
  simp [Registry.occurrences]

-- two published schemas are never both new
theorem published_agrees (absent : r.lookup schema.name schema.version = none) {s : Schema}
    (published : s ∈ r.published) : s.raw.Agrees schema.raw := by
  intro name version
  have other := List.find?_eq_none.mp absent s published
  refine absurd ?_ other
  simp only [Bool.and_eq_true, beq_iff_eq]
  exact ⟨name, version⟩

theorem coherent_snoc (absent : r.lookup schema.name schema.version = none) :
    Registry.Coherent { r with published := r.published ++ [schema] } ↔
      r.Coherent ∧ Registry.Unclashing schema r := by
  unfold Registry.Coherent Registry.Unclashing
  rw [occurrences_publish]
  constructor
  · intro coherent
    refine ⟨fun a ha b hb => coherent a (by simp [ha]) b (by simp [hb]), fun _ => ⟨?_, ?_⟩⟩
    · intro n below o ho
      exact coherent n (List.mem_append_right _ (nested_mem below)) o ho
    · intro n below
      exact coherent n (by simp [mem_occurrences, below]) schema.raw (by simp [Raw.Schema.schemas_eq])
  · rintro ⟨coherent, unclashing⟩
    obtain ⟨inner, outer⟩ := unclashing absent
    have top : ∀ a ∈ r.occurrences, a.Agrees schema.raw := by
      intro a ha
      rcases mem_occurrences.mp ha with ⟨s, published, rfl⟩ | below
      · exact published_agrees absent published
      · exact outer a below
    have split : ∀ {a}, a ∈ r.occurrences ++ schema.raw.schemas →
        a ∈ r.occurrences ∨ a = schema.raw ∨ a ∈ schema.raw.nested := by
      intro a ha
      simpa [Raw.Schema.schemas_eq, Raw.Schema.nested] using ha
    intro a ha b hb
    rcases split ha with old | rfl | below
    · rcases split hb with old' | rfl | below'
      · exact coherent a old b old'
      · exact top a old
      · exact agrees_symm (inner b below' a ha)
    · rcases split hb with old' | rfl | below'
      · exact agrees_symm (top b old')
      · exact fun _ _ => rfl
      · exact agrees_symm (inner b below' _ ha)
    · exact inner a below b hb

theorem publish_coherent (action : r.publish schema = some r') :
    r'.Coherent ↔ r.Coherent ∧ Registry.Unclashing schema r := by
  rcases publish_cases action with ⟨⟨known, found⟩, rfl⟩ | ⟨absent, rfl⟩
  · have idle : Registry.Unclashing schema r' := by
      intro absent
      rw [found] at absent
      cases absent
    simp [idle]
  · exact coherent_snoc absent

theorem run_coherent {schemas : List Schema} (run : Run Registry.publish r schemas r') :
    r'.Coherent ↔ r.Coherent ∧ Along Registry.publish Registry.Unclashing schemas r := by
  induction schemas generalizing r with
  | nil =>
      cases run.exec_eq
      simp [Along]
  | cons schema schemas ih =>
      obtain ⟨mid, action, rest⟩ := run.uncons
      have later : (∀ s', r.publish schema = some s' → Along Registry.publish Registry.Unclashing schemas s') ↔
          Along Registry.publish Registry.Unclashing schemas mid := by
        simp [action]
      rw [ih rest, publish_coherent action, Along, later, and_assoc]

/-! ## The registry -/

/-- Every state that successful registrations reach is coherent exactly if each of them was
unclashing where it was made. -/
theorem registrations_agree {schemas : List Schema} {r : Registry}
    (run : Run Registry.publish {} schemas r) :
    r.Coherent ↔ Along Registry.publish Registry.Unclashing schemas {} := by
  have start : Registry.Coherent {} := by
    intro a ha
    cases ha
  rw [run_coherent run]
  exact and_iff_right start

def Part : Schema := ⟨⟨ascii "Part", 1, [⟨ascii "n", .int, true⟩]⟩, by decide⟩

def Whole : Schema := ⟨⟨ascii "Whole", 1, [⟨ascii "parts", .list (.message Part.raw), true⟩]⟩, by decide⟩

theorem registrations_agree_whole : Registry.Coherent ⟨[Part, Whole]⟩ := by
  have run : Run Registry.publish {} [Part, Whole] ⟨[Part, Whole]⟩ := .of_exec rfl
  exact (registrations_agree run).mpr (by decide +kernel)

-- the (name, version) that Whole nests, with another shape
def OtherPart : Schema := ⟨⟨ascii "Part", 1, [⟨ascii "n", .text, true⟩]⟩, by decide⟩

theorem nested_disagreement_is_published :
    Run Registry.publish {} [Whole, OtherPart] ⟨[Whole, OtherPart]⟩ ∧ ¬ Registry.Coherent ⟨[Whole, OtherPart]⟩ := by
  refine ⟨.of_exec rfl, ?_⟩
  intro coherent
  have clash := coherent Part.raw (by simp [Registry.occurrences, Whole, Raw.Schema.schemas, Raw.fieldSchemas,
    Raw.TypeRef.schemas, Part]) OtherPart.raw (by simp [Registry.occurrences, OtherPart, Raw.Schema.schemas]) rfl rfl
  revert clash
  decide +kernel

end Zen.Proof
