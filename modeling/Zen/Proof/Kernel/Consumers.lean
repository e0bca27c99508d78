import Zen.Author.Shape
import Zen.Kernel.Unguarded
import Zen.Proof.Core.Gate
import Zen.Proof.Kernel.SchemaCodec

/-!
# The gate protects its consumers

Each access of a consumer is matched with the check that the validator made at that position.
-/

namespace Zen.Kernel
open Lib
open Raw (Cell Conforms FieldsConform ValueConforms)

/-! ## One access -/

theorem conforms_present {fields : List Raw.Field} {v : Raw.Value} (conforms : FieldsConform fields v)
    {f : Raw.Field} (declared : f ∈ fields) (required : f.required = true) :
    ∃ c, v.get f.name = some c ∧ Conforms f.type c := by
  induction fields with
  | nil => cases declared
  | cons g fields ih =>
      obtain ⟨name, type, req⟩ := g
      rw [FieldsConform] at conforms
      rcases List.mem_cons.mp declared with rfl | later
      · cases found : v.get name with
        | none =>
            rw [found] at conforms
            cases required.symm.trans conforms.1
        | some c =>
            rw [found] at conforms
            exact ⟨c, rfl, conforms.1⟩
      · exact ih conforms.2 later

theorem conforms_found {fields : List Raw.Field} {v : Raw.Value} (conforms : FieldsConform fields v)
    {f : Raw.Field} (declared : f ∈ fields) {c : Cell} (found : v.get f.name = some c) : Conforms f.type c := by
  induction fields with
  | nil => cases declared
  | cons g fields ih =>
      obtain ⟨name, type, req⟩ := g
      rw [FieldsConform] at conforms
      rcases List.mem_cons.mp declared with rfl | later
      · simp only at found
        rw [found] at conforms
        exact conforms.1
      · exact ih conforms.2 later

theorem get!_of_get {v : Raw.Value} {name : ByteString} {c : Cell} (found : v.get name = some c) :
    v.get! name = .ok c := by
  rw [Raw.Value.get!, found]

theorem reads_int {c : Cell} (conforms : Conforms .int c) : c.asInt! = .ok (Cell.asInt (some c)) := by
  cases c with
  | int v => rfl
  | _ => cases conforms

theorem reads_float {c : Cell} (conforms : Conforms .float c) : ∃ bits, c.asFloat! = .ok bits := by
  cases c with
  | float bits => exact ⟨bits, rfl⟩
  | _ => cases conforms

theorem reads_text {c : Cell} (conforms : Conforms .text c) : c.asText! = .ok (Cell.asText (some c)) := by
  cases c with
  | text s => rfl
  | _ => cases conforms

theorem reads_bool {c : Cell} (conforms : Conforms .bool c) : c.asBool! = .ok (Cell.asBool (some c)) := by
  cases c with
  | bool b => rfl
  | _ => cases conforms

theorem reads_bytes {c : Cell} (conforms : Conforms .bytes c) : ∃ b, c.asBytes! = .ok b := by
  cases c with
  | bytes b => exact ⟨b, rfl⟩
  | _ => cases conforms

theorem reads_message {schema : Raw.Schema} {c : Cell} (conforms : Conforms (.message schema) c) :
    c.asMessage! = .ok (Cell.asMessage (some c)) ∧ ValueConforms schema (Cell.asMessage (some c)) := by
  rw [Conforms] at conforms
  obtain ⟨nested, rfl, -, inner⟩ := conforms
  exact ⟨rfl, inner⟩

theorem reads_list {element : Raw.TypeRef} {c : Cell} (conforms : Conforms (.list element) c) :
    c.asList! = .ok (Cell.asList (some c)) ∧ ∀ e ∈ Cell.asList (some c), Conforms element e := by
  rw [Conforms] at conforms
  obtain ⟨cells, rfl, inner⟩ := conforms
  exact ⟨rfl, inner⟩

/-! ## Descriptors -/

theorem read_bind {α β : Type} {x : Except Fault α} {a : α} (read : x = .ok a) (f : α → Unguarded β) :
    (liftM x : Unguarded α) >>= f = f a := by
  rw [read]
  rfl

theorem decodeType_unguarded (deps : Registry) {tokens : List Cell}
    (conforms : ∀ c ∈ tokens, Conforms (.message typeTokenSchema.raw) c) :
    decodeType! deps tokens = .ok (decodeType deps tokens) := by
  induction tokens with
  | nil => rfl
  | cons token rest ih =>
      obtain ⟨dereferenced, fields⟩ := reads_message (conforms token (by simp))
      have later := ih fun c member => conforms c (by simp [member])
      obtain ⟨k, found, kind⟩ := conforms_present (f := ⟨ascii "kind", .int, true⟩) fields (.head _) rfl
      rw [decodeType!, read_bind dereferenced, read_bind (get!_of_get found), read_bind (reads_int kind), decodeType]
      rw [← found]
      split
      · rfl
      · split
        · cases name : (Cell.asMessage (some token)).get "ref_name" with
          | none => rfl
          | some refName =>
              have text := conforms_found (f := ⟨ascii "ref_name", .text, false⟩) fields (.tail _ (.head _)) name
              cases version : (Cell.asMessage (some token)).get "ref_version" with
              | none => rfl
              | some refVersion =>
                  have int := conforms_found (f := ⟨ascii "ref_version", .int, false⟩) fields
                    (.tail _ (.tail _ (.head _))) version
                  simp only
                  rw [read_bind (reads_text text), read_bind (reads_int int)]
                  cases deps.lookup (Cell.asText (some refName)) (Cell.asInt (some refVersion)).toUInt64.toUInt32 <;> rfl
        · split
          · rw [later]
            cases decodeType deps rest <;> rfl
          · rfl

theorem decodeField_unguarded (deps : Registry) {c : Cell} (conforms : Conforms (.message fieldDescSchema.raw) c) :
    decodeField! deps c = .ok (decodeField deps (Cell.asMessage (some c))) := by
  obtain ⟨dereferenced, fields⟩ := reads_message conforms
  obtain ⟨n, named, text⟩ := conforms_present (f := ⟨ascii "name", .text, true⟩) fields (.head _) rfl
  obtain ⟨r, marked, bool⟩ := conforms_present (f := ⟨ascii "required", .bool, true⟩) fields (.tail _ (.head _)) rfl
  obtain ⟨t, typed, list⟩ := conforms_present (f := ⟨ascii "type", .list (.message typeTokenSchema.raw), true⟩) fields
    (.tail _ (.tail _ (.head _))) rfl
  obtain ⟨listed, tokens⟩ := reads_list list
  rw [decodeField!, read_bind dereferenced, read_bind (get!_of_get named), read_bind (reads_text text),
    read_bind (get!_of_get marked), read_bind (reads_bool bool), read_bind (get!_of_get typed), read_bind listed,
    decodeType_unguarded deps tokens, decodeField, ← named, ← marked, ← typed]
  cases decodeType deps (Cell.asList ((Cell.asMessage (some c)).get "type")) with
  | error e => rfl
  | ok result =>
      obtain ⟨type, rest⟩ := result
      cases rest <;> rfl

theorem decodeFields_unguarded (deps : Registry) {cells : List Cell}
    (conforms : ∀ c ∈ cells, Conforms (.message fieldDescSchema.raw) c) :
    cells.mapM (decodeField! deps) = .ok (cells.mapM fun c => decodeField deps (Cell.asMessage (some c))) := by
  induction cells with
  | nil => rfl
  | cons c cells ih =>
      have later := ih fun d member => conforms d (by simp [member])
      rw [List.mapM_cons, List.mapM_cons, decodeField_unguarded deps (conforms c (by simp)), later]
      cases decodeField deps (Cell.asMessage (some c)) with
      | error e => rfl
      | ok field => cases cells.mapM fun c => decodeField deps (Cell.asMessage (some c)) <;> rfl

theorem decodeSchema_unguarded (deps : Registry) {desc : Raw.Value} (conforms : ValueConforms schemaDescSchema.raw desc) :
    decodeSchema! desc deps = .ok (decodeSchema desc deps) := by
  obtain ⟨n, named, text⟩ := conforms_present (f := ⟨ascii "name", .text, true⟩) conforms (.head _) rfl
  obtain ⟨v, versioned, int⟩ := conforms_present (f := ⟨ascii "version", .int, true⟩) conforms (.tail _ (.head _)) rfl
  obtain ⟨f, listed, list⟩ := conforms_present (f := ⟨ascii "fields", .list (.message fieldDescSchema.raw), true⟩) conforms
    (.tail _ (.tail _ (.head _))) rfl
  obtain ⟨read, cells⟩ := reads_list list
  rw [decodeSchema!, read_bind (get!_of_get named), read_bind (reads_text text), read_bind (get!_of_get versioned),
    read_bind (reads_int int), read_bind (get!_of_get listed), read_bind read, decodeFields_unguarded deps cells,
    decodeSchema, ← named, ← versioned, ← listed]
  cases (Cell.asList (desc.get "fields")).mapM fun c => decodeField deps (Cell.asMessage (some c)) <;> rfl

/-- The exceptions that a descriptor is refused with. -/
inductive DescriptorError : Exn → Prop where
  | truncated : DescriptorError (.runtimeError "schema descriptor: truncated type-token stream")
  | outOfRange : DescriptorError (.runtimeError "schema descriptor: kind out of range")
  | unreferenced : DescriptorError (.runtimeError "schema descriptor: Message token missing its reference")
  | unresolved (name : ByteString) : DescriptorError (.runtimeError
      (ascii "schema descriptor: unresolved nested schema '" ++ name ++ ascii "'"))
  | trailing : DescriptorError (.runtimeError "schema descriptor: trailing type tokens")
  | unnamed : DescriptorError (.invalidArgument "field name must not be empty")
  | duplicate (name : ByteString) : DescriptorError (.invalidArgument
      (ascii "duplicate field name '" ++ name ++ ascii "'"))

theorem except_bind_error {ε α β : Type} {x : Except ε α} {f : α → Except ε β} {e : ε}
    (h : x >>= f = .error e) : x = .error e ∨ ∃ a, x = .ok a ∧ f a = .error e := by
  cases x with
  | error e' =>
      cases h
      exact .inl rfl
  | ok a => exact .inr ⟨a, rfl, h⟩

theorem decodeType_error {deps : Registry} {tokens : List Cell} {e : Exn} (h : decodeType deps tokens = .error e) :
    DescriptorError e := by
  induction tokens with
  | nil =>
      cases h
      exact .truncated
  | cons token rest ih =>
      rw [decodeType] at h
      simp only at h
      split at h
      · cases h
        exact .outOfRange
      · split at h
        · split at h
          · split at h
            · cases h
            · cases h
              exact .unresolved _
          · cases h
            exact .unreferenced
        · split at h
          · rcases except_bind_error h with early | ⟨_, _, late⟩
            · exact ih early
            · cases late
          · cases h

theorem decodeField_error {deps : Registry} {fd : Raw.Value} {e : Exn} (h : decodeField deps fd = .error e) :
    DescriptorError e := by
  rcases except_bind_error h with early | ⟨⟨type, rest⟩, _, late⟩
  · exact decodeType_error early
  · cases rest with
    | nil => cases late
    | cons token rest =>
        cases late
        exact .trailing

theorem decodeFields_error {deps : Registry} {cells : List Cell} {e : Exn}
    (h : cells.mapM (fun c => decodeField deps (Cell.asMessage (some c))) = .error e) : DescriptorError e := by
  induction cells with
  | nil => cases h
  | cons c cells ih =>
      rw [List.mapM_cons] at h
      rcases except_bind_error h with early | ⟨_, _, h⟩
      · exact decodeField_error early
      · rcases except_bind_error h with early | ⟨_, _, late⟩
        · exact ih early
        · cases late

theorem checkFields_error {seen : List ByteString} {fields : List Field} {e : Exn}
    (h : Schema.checkFields seen fields = .error e) : DescriptorError e := by
  induction fields generalizing seen with
  | nil => cases h
  | cons f fields ih =>
      rw [Schema.checkFields] at h
      split at h
      · cases h
        exact .unnamed
      · split at h
        · cases h
          exact .duplicate _
        · exact ih h

theorem decodeSchema_error {deps : Registry} {desc : Raw.Value} {e : Exn} (h : decodeSchema desc deps = .error e) :
    DescriptorError e := by
  rcases except_bind_error h with early | ⟨rebuilt, _, late⟩
  · exact decodeFields_error early
  · unfold Schema.make at late
    split at late
    · cases late
    · rename_i refused
      cases late
      exact checkFields_error refused

end Zen.Kernel

/-! ## Shapes -/

namespace Zen.Author
open Lib Kernel Sb
open Raw (Cell Conforms FieldsConform ValueConforms)

mutual

theorem fromCell_reads (member : Member) {type : TypeRef} (deduced : member.typeRef = .ok type) (c : Cell)
    (conforms : Conforms type.raw c) : ∃ d, fromCell member c = .ok d := by
  match member with
  | .int64 =>
      cases deduced
      exact ⟨_, reads_int conforms⟩
  | .double =>
      cases deduced
      exact reads_float conforms
  | .string =>
      cases deduced
      exact ⟨_, reads_text conforms⟩
  | .bool =>
      cases deduced
      exact ⟨_, reads_bool conforms⟩
  | .bytes =>
      cases deduced
      exact reads_bytes conforms
  | .vector element =>
      rw [Member.typeRef] at deduced
      obtain ⟨inner, known, built⟩ := except_bind_ok.mp deduced
      cases built
      obtain ⟨read, cells⟩ := reads_list conforms
      obtain ⟨ds, all⟩ := mapM_some fun e listed => fromCell_reads element known e (cells e listed)
      rw [fromCell, read]
      exact ⟨ds, all⟩
  | .shape s =>
      rw [Member.typeRef] at deduced
      obtain ⟨schema, known, built⟩ := except_bind_ok.mp deduced
      cases built
      obtain ⟨dereferenced, fields⟩ := reads_message conforms
      rw [fromCell, dereferenced]
      exact fromValue_reads s known _ fields

theorem fromValue_reads (s : Shape) {schema : Schema} (derived : s.schemaOf = .ok schema) (v : Raw.Value)
    (conforms : ValueConforms schema.raw v) : ∃ obj, fromValue s v = .ok obj := by
  match s with
  | ⟨zenName, zenVersion, entries⟩ =>
      rw [Shape.schemaOf] at derived
      obtain ⟨fields, built, made⟩ := except_bind_ok.mp derived
      rw [make_ok made, ValueConforms] at conforms
      rw [fromValue]
      exact fromFields_reads entries built v conforms

theorem fromFields_reads (entries : List FieldEntry) {fields : List Field} (built : buildFields entries = .ok fields)
    (v : Raw.Value) (conforms : FieldsConform (fields.map Field.raw) v) : ∃ d, fromFields entries v = .ok d := by
  match entries with
  | [] => exact ⟨(), rfl⟩
  | ⟨name, member⟩ :: entries =>
      rw [buildFields] at built
      obtain ⟨type, deduced, built⟩ := except_bind_ok.mp built
      obtain ⟨others, later, built⟩ := except_bind_ok.mp built
      cases built
      obtain ⟨c, found, inner⟩ := conforms_present (f := ⟨name, type.raw, true⟩) conforms (.head _) rfl
      obtain ⟨d, read⟩ := fromCell_reads member deduced c inner
      obtain ⟨ds, rest⟩ := fromFields_reads entries later v conforms.2
      rw [fromFields, get!_of_get found]
      refine ⟨(d, ds), ?_⟩
      change (fromCell member c >>= fun d => fromFields entries v >>= fun ds => .ok (d, ds)) = _
      rw [read]
      change (fromFields entries v >>= fun ds => .ok (d, ds)) = _
      rw [rest]
      rfl

end

/-! ## Every consumer -/

/-- The gate accepts the value at the door, whichever report it writes. -/
def Accepted (v : Raw.Value) (door : Schema) : Prop :=
  ∃ collectAll, Raw.validateInto v door.raw collectAll = []

theorem Accepted.conforms {v : Raw.Value} {door : Schema} (accepted : Accepted v door) : ValueConforms door.raw v := by
  obtain ⟨_, clean⟩ := accepted
  exact (Raw.validateInto_eq_nil.mp clean).2

theorem policy_reads {policy : Value} (conforms : ValueConforms lifecyclePolicySchema.raw policy.raw) :
    ∃ n, policyReads! policy.raw = .ok (n, reviveFromLastGood policy) ∧ n.toInt = maxReloads policy := by
  obtain ⟨m, limited, int⟩ := conforms_present (f := ⟨ascii "max_reloads", .int, true⟩) conforms (.head _) rfl
  obtain ⟨r, revives, bool⟩ := conforms_present (f := ⟨ascii "revive_from_last_good", .bool, true⟩) conforms
    (.tail _ (.head _)) rfl
  have limit : policy.get "max_reloads" = some m := limited
  have choice : policy.get "revive_from_last_good" = some r := revives
  rw [policyReads!, get!_of_get limited, get!_of_get revives, maxReloads, reviveFromLastGood, limit, choice]
  cases m with
  | int n =>
      cases r with
      | bool b => exact ⟨n, rfl, rfl⟩
      | _ => cases bool
  | _ => cases int

/-- No consumer of an accepted value faults: a descriptor gives a schema or an exception of the decoder's own,
a value of a shape gives an object, and a policy gives what `reload` uses. -/
theorem gate_protects_its_consumers :
    (∀ (desc : Raw.Value) (deps : Registry), Accepted desc schemaDescSchema →
      decodeSchema! desc deps = .ok (decodeSchema desc deps) ∧
        ∀ e, decodeSchema desc deps = .error e → DescriptorError e) ∧
    (∀ (s : Shape) (schema : Schema) (v : Raw.Value), s.schemaOf = .ok schema → Accepted v schema →
      ∃ obj, fromValue s v = .ok obj) ∧
    ∀ policy : Value, Accepted policy.raw lifecyclePolicySchema →
      ∃ n, policyReads! policy.raw = .ok (n, reviveFromLastGood policy) ∧ n.toInt = maxReloads policy := by
  refine ⟨?_, ?_, ?_⟩
  · intro desc deps accepted
    exact ⟨decodeSchema_unguarded deps accepted.conforms, fun e refused => decodeSchema_error refused⟩
  · intro s schema v derived accepted
    exact fromValue_reads s derived v accepted.conforms
  · intro policy accepted
    exact policy_reads accepted.conforms

def innerShape : Shape := ⟨ascii "Inner", 1, [⟨ascii "x", .int64⟩]⟩
def outerShape : Shape := ⟨ascii "Outer", 1, [⟨ascii "name", .string⟩, ⟨ascii "items", .vector (.shape innerShape)⟩]⟩

def innerSchema : Raw.Schema := ⟨ascii "Inner", 1, [⟨ascii "x", .int, true⟩]⟩

def outerSchema : Schema :=
  ⟨⟨ascii "Outer", 1, [⟨ascii "name", .text, true⟩, ⟨ascii "items", .list (.message innerSchema), true⟩]⟩, by decide⟩

def outerValue : Raw.Value :=
  ⟨outerSchema.raw, [some (.text "box"), some (.list [.message ⟨innerSchema, [some (.int 7)]⟩])]⟩

theorem gate_protects_its_consumers_nested : ∃ obj, fromValue outerShape outerValue = .ok obj :=
  gate_protects_its_consumers.2.1 outerShape outerSchema outerValue rfl ⟨false, by decide +kernel⟩

end Zen.Author
