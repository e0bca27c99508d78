import Zen.Proof.Kernel.Descriptor
import Zen.Proof.Kernel.RoundTrip
import Zen.Spec.Recursion

/-!
# How deep the descriptor decoder recurses

The meter changes no result. It shows the List tokens that the deepest of the decoded types begins with.
-/

namespace Zen.Kernel
open Lib
open Raw (Cell)

/-- A result with what the meter shows. -/
def metered {α : Type} (result : Except Exn α) (n : Nat) : EStateM.Result Exn Nat α :=
  match result with
  | .ok a => .ok a n
  | .error e => .error e n

theorem leadingLists_cons (token : Cell) (rest : List Cell) :
    leadingLists (token :: rest) = if isListToken token then leadingLists rest + 1 else 0 := by
  rw [leadingLists, List.takeWhile_cons]
  cases isListToken token <;> rfl

theorem entered_bind {α : Type} (level n : Nat) (f : Unit → Metered α) :
    (entered level >>= f).run n = (f ()).run (max level n) := rfl

theorem bind_ran {α β : Type} {m : Metered α} {a : α} {n n' : Nat} (ran : m.run n = .ok a n') (f : α → Metered β) :
    (m >>= f).run n = (f a).run n' := by
  change EStateM.bind m f n = _
  unfold EStateM.bind
  rw [show m n = .ok a n' from ran]
  rfl

theorem bind_failed {α β : Type} {m : Metered α} {e : Exn} {n n' : Nat} (ran : m.run n = .error e n')
    (f : α → Metered β) : (m >>= f).run n = .error e n' := by
  change EStateM.bind m f n = _
  unfold EStateM.bind
  rw [show m n = .error e n' from ran]

theorem meteredType_spec (deps : Registry) (level : Nat) (tokens : List Cell) (n : Nat) :
    (meteredType deps level tokens).run n = metered (decodeType deps tokens) (max (level + leadingLists tokens) n) := by
  induction tokens generalizing level n with
  | nil => rfl
  | cons token rest ih =>
      rw [meteredType, decodeType, leadingLists_cons, entered_bind]
      simp only
      by_cases list : isListToken token = true
      · have raw : Cell.asInt ((Cell.asMessage (some token)).get "kind") = 6 := by simpa [isListToken] using list
        have deepest : max (level + 1 + leadingLists rest) (max level n) = max (level + (leadingLists rest + 1)) n := by
          omega
        have inner := ih (level + 1) (max level n)
        rw [deepest] at inner
        rw [if_pos list, raw, if_neg (by decide), if_neg (by decide), if_pos rfl, if_neg (by decide),
          if_neg (by decide), if_pos rfl]
        cases decoded : decodeType deps rest with
        | error e =>
            rw [decoded] at inner
            rw [bind_failed inner]
            rfl
        | ok result =>
            rw [decoded] at inner
            rw [bind_ran inner]
            rfl
      · have raw : Cell.asInt ((Cell.asMessage (some token)).get "kind") ≠ 6 := by simpa [isListToken] using list
        rw [if_neg list, Nat.add_zero, if_neg raw, if_neg raw]
        split
        · rfl
        · split
          · cases (Cell.asMessage (some token)).get "ref_name" with
            | none => rfl
            | some refName =>
                cases (Cell.asMessage (some token)).get "ref_version" with
                | none => rfl
                | some refVersion =>
                    simp only
                    cases deps.lookup (Cell.asText (some refName)) (Cell.asInt (some refVersion)).toUInt64.toUInt32 <;> rfl
          · rfl

theorem meteredField_spec (deps : Registry) (c : Cell) (n : Nat) :
    (meteredField deps (Cell.asMessage (some c))).run n =
      metered (decodeField deps (Cell.asMessage (some c))) (max (fieldLists c) n) := by
  have typed := meteredType_spec deps 0 (Cell.asList ((Cell.asMessage (some c)).get "type")) n
  rw [Nat.zero_add] at typed
  rw [meteredField, decodeField, fieldLists]
  cases decoded : decodeType deps (Cell.asList ((Cell.asMessage (some c)).get "type")) with
  | error e =>
      rw [decoded] at typed
      rw [bind_failed typed]
      rfl
  | ok result =>
      obtain ⟨type, rest⟩ := result
      rw [decoded] at typed
      rw [bind_ran typed]
      cases rest <;> rfl

/-- The fields that the decoder reads: up to the first that it refuses. -/
def fieldsRead (deps : Registry) : List Cell → List Cell
  | [] => []
  | c :: cells =>
      match decodeField deps (Cell.asMessage (some c)) with
      | .ok _ => c :: fieldsRead deps cells
      | .error _ => [c]

def deepest (cells : List Cell) (n : Nat) : Nat := cells.foldl (fun n c => max (fieldLists c) n) n

theorem meteredFields_spec (deps : Registry) (cells : List Cell) (n : Nat) :
    (cells.mapM fun c => meteredField deps (Cell.asMessage (some c))).run n =
      metered (cells.mapM fun c => decodeField deps (Cell.asMessage (some c))) (deepest (fieldsRead deps cells) n) := by
  induction cells generalizing n with
  | nil => rfl
  | cons c cells ih =>
      have first := meteredField_spec deps c n
      have others := ih (max (fieldLists c) n)
      rw [List.mapM_cons, List.mapM_cons, fieldsRead]
      cases decoded : decodeField deps (Cell.asMessage (some c)) with
      | error e =>
          rw [decoded] at first
          rw [bind_failed first]
          rfl
      | ok f =>
          rw [decoded] at first
          rw [bind_ran first]
          cases rest : cells.mapM fun c => decodeField deps (Cell.asMessage (some c)) with
          | error e =>
              rw [rest] at others
              rw [bind_failed others]
              rfl
          | ok fs =>
              rw [rest] at others
              rw [bind_ran others]
              rfl

theorem meteredSchema_spec (deps : Registry) (desc : Raw.Value) (n : Nat) : (meteredSchema desc deps).run n =
    metered (decodeSchema desc deps) (deepest (fieldsRead deps (Cell.asList (desc.get "fields"))) n) := by
  have fields := meteredFields_spec deps (Cell.asList (desc.get "fields")) n
  rw [meteredSchema, decodeSchema]
  cases decoded : (Cell.asList (desc.get "fields")).mapM fun c => decodeField deps (Cell.asMessage (some c)) with
  | error e =>
      rw [decoded] at fields
      rw [bind_failed fields]
      rfl
  | ok rebuilt =>
      rw [decoded] at fields
      rw [bind_ran fields]
      change (Metered.of (Schema.make _ _ rebuilt)).run _ = metered (Schema.make _ _ rebuilt) _
      cases Schema.make (Cell.asText (desc.get "name")) (Cell.asInt (desc.get "version")).toUInt64.toUInt32 rebuilt <;> rfl

theorem recursionDepth_eq (desc : Raw.Value) (deps : Registry) :
    recursionDepth desc deps = deepest (fieldsRead deps (Cell.asList (desc.get "fields"))) 0 := by
  rw [recursionDepth, meteredSchema_spec]
  cases decodeSchema desc deps <;> rfl

/-! ## The depth is bounded for shallow descriptors only -/

theorem deepest_le {cells : List Cell} {n m : Nat} : deepest cells n ≤ m ↔ n ≤ m ∧ ∀ c ∈ cells, fieldLists c ≤ m := by
  induction cells generalizing n with
  | nil => simp [deepest]
  | cons c cells ih =>
      rw [deepest, List.foldl_cons, ← deepest, ih, List.forall_mem_cons, Nat.max_le]
      exact ⟨fun ⟨⟨here, start⟩, later⟩ => ⟨start, here, later⟩, fun ⟨start, here, later⟩ => ⟨⟨here, start⟩, later⟩⟩

theorem mem_fieldsRead {deps : Registry} {cells : List Cell} {c : Cell} : c ∈ fieldsRead deps cells ↔
    ∃ before after, cells = before ++ c :: after ∧
      ∀ b ∈ before, ∃ f, decodeField deps (Cell.asMessage (some b)) = .ok f := by
  induction cells with
  | nil => simp [fieldsRead]
  | cons d cells ih =>
      rw [fieldsRead]
      constructor
      · intro read
        split at read
        · rename_i f decoded
          rcases List.mem_cons.mp read with rfl | later
          · exact ⟨[], cells, rfl, by simp⟩
          · obtain ⟨before, after, rfl, fine⟩ := ih.mp later
            exact ⟨d :: before, after, rfl, List.forall_mem_cons.mpr ⟨⟨f, decoded⟩, fine⟩⟩
        · obtain rfl := List.mem_singleton.mp read
          exact ⟨[], cells, rfl, by simp⟩
      · rintro ⟨before, after, split, fine⟩
        cases before with
        | nil =>
            obtain ⟨rfl, rfl⟩ := List.cons.inj split
            split <;> simp
        | cons b before =>
            obtain ⟨rfl, rfl⟩ := List.cons.inj split
            obtain ⟨⟨f, decoded⟩, fine⟩ := List.forall_mem_cons.mp fine
            rw [decoded]
            exact List.mem_cons_of_mem _ (ih.mpr ⟨before, after, rfl, fine⟩)

theorem recursionDepth_bounded (desc : Raw.Value) (deps : Registry) :
    recursionDepth desc deps ≤ kMaxBinaryDepth ↔ Shallow desc deps := by
  rw [recursionDepth_eq, deepest_le]
  simp only [mem_fieldsRead, Nat.zero_le, true_and]
  constructor
  · intro bounded before c after split fine
    exact bounded c ⟨before, after, split, fine⟩
  · rintro shallow c ⟨before, after, split, fine⟩
    exact shallow before c after split fine

theorem typeOf_nesting (kind : Int64) : (typeOf kind).raw.nesting = 0 := by
  unfold typeOf
  split <;> rfl

theorem decoded_nesting {deps : Registry} {tokens rest : List Cell} {type : TypeRef}
    (decoded : decodeType deps tokens = .ok (type, rest)) : type.raw.nesting = leadingLists tokens := by
  induction tokens generalizing type rest with
  | nil => cases decoded
  | cons token cells ih =>
      rw [decodeType] at decoded
      simp only at decoded
      rw [leadingLists_cons]
      split at decoded
      · cases decoded
      · split at decoded
        · rename_i message
          have other : ¬isListToken token = true := by simp [isListToken, message]
          rw [if_neg other]
          split at decoded
          · split at decoded
            · cases decoded
              rfl
            · cases decoded
          · cases decoded
        · split at decoded
          · rename_i list
            have list : isListToken token = true := by simpa [isListToken] using list
            obtain ⟨⟨element, left⟩, inner, made⟩ := except_bind_ok.mp decoded
            cases made
            rw [if_pos list, ← ih inner]
            rfl
          · rename_i other
            have other : ¬isListToken token = true := by simpa [isListToken] using other
            rw [if_neg other]
            cases decoded
            exact typeOf_nesting _

theorem decodedField_nesting {deps : Registry} {c : Cell} {f : Field}
    (decoded : decodeField deps (Cell.asMessage (some c)) = .ok f) : f.type.raw.nesting = fieldLists c := by
  rw [decodeField] at decoded
  obtain ⟨⟨type, rest⟩, typed, made⟩ := except_bind_ok.mp decoded
  cases rest with
  | cons token rest => cases made
  | nil =>
      cases made
      exact decoded_nesting typed

theorem decodedSchema_nesting {deps : Registry} {desc : Raw.Value} {s : Schema}
    (decoded : decodeSchema desc deps = .ok s) (shallow : Shallow desc deps) :
    ∀ f ∈ s.fields, f.type.nesting ≤ kMaxBinaryDepth := by
  obtain ⟨rebuilt, each, made⟩ := except_bind_ok.mp decoded
  obtain ⟨fine, partners⟩ := mapM_partners each
  have fields : s.fields = rebuilt.map Field.raw := by rw [Schema.fields, make_ok made]
  intro f member
  rw [fields] at member
  obtain ⟨g, listed, rfl⟩ := List.mem_map.mp member
  obtain ⟨c, read, here⟩ := partners g listed
  obtain ⟨before, after, split⟩ := List.append_of_mem read
  have earlier : ∀ b ∈ before, ∃ g, decodeField deps (Cell.asMessage (some b)) = .ok g := by
    intro b member
    obtain ⟨g, _, read⟩ := fine b (by rw [split]; simp [member])
    exact ⟨g, read⟩
  have bounded := shallow before c after split earlier
  rw [← decodedField_nesting here] at bounded
  exact bounded

/-- The decoder recurses within the cap, and the types it returns nest within it, on the shallow descriptors
and on no others. -/
theorem descriptor_recursion_is_bounded (desc : Raw.Value) (deps : Registry) :
    (recursionDepth desc deps ≤ kMaxBinaryDepth ∧
      ∀ s, decodeSchema desc deps = .ok s → ∀ f ∈ s.fields, f.type.nesting ≤ kMaxBinaryDepth) ↔ Shallow desc deps := by
  rw [recursionDepth_bounded]
  exact ⟨And.left, fun shallow => ⟨shallow, fun s decoded => decodedSchema_nesting decoded shallow⟩⟩

def nestedLists : Nat → Raw.TypeRef
  | 0 => .int
  | n + 1 => .list (nestedLists n)

/-- A field of 65 lists. -/
def deepSchema : Schema := ⟨⟨ascii "Deep", 1, [⟨ascii "x", nestedLists 65, true⟩]⟩, by decide⟩

theorem deep_descriptor_is_decoded : ∃ bytes manifest,
    admitUnverified (parse bytes) manifestSchema .firstError = .accept manifest ∧
    let desc := Cell.asMessage (manifest.get "state")
    decodeSchema desc {} = .ok deepSchema ∧ kMaxBinaryDepth < recursionDepth desc {} ∧
      ∃ f ∈ deepSchema.fields, kMaxBinaryDepth < f.type.nesting := by
  obtain ⟨bytes, _, admitted⟩ := @manifest_admitted [] deepSchema (by decide) (by decide +kernel)
  have unreferenced : ∀ n, n ∉ deepSchema.raw.references := by
    have none : deepSchema.raw.references = [] := rfl
    simp [none]
  obtain ⟨s, decoded⟩ := @decodeSchema_of_known {} deepSchema
    fun n refers => (unreferenced n refers).elim
  obtain rfl := decoded_eq decoded fun n refers => (unreferenced n refers).elim
  refine ⟨bytes, _, admitted, ?_, ?_, ?_⟩
  · exact decoded
  · decide +kernel
  · exact ⟨_, .head _, by decide⟩

end Zen.Kernel
