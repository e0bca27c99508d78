import Zen.Core.Serialize

/-!
# Schemas as values

A schema crosses the C seam as a value of a fixed meta-schema. A type is a list of tokens in prefix
order; a Message token names its nested schema by (name, version) only, and the host resolves it
against the schemas it knows.
-/

namespace Zen.Kernel

/-! ## The meta-schemas -/

def typeTokenSchema : Schema :=
  ⟨⟨ascii "zen.TypeToken", 1, [⟨ascii "kind", .int, true⟩, ⟨ascii "ref_name", .text, false⟩,
    ⟨ascii "ref_version", .int, false⟩]⟩, by decide⟩

def fieldDescSchema : Schema :=
  ⟨⟨ascii "zen.Field", 1, [⟨ascii "name", .text, true⟩, ⟨ascii "required", .bool, true⟩,
    ⟨ascii "type", .list (.message typeTokenSchema.raw), true⟩]⟩, by decide⟩

def schemaDescSchema : Schema :=
  ⟨⟨ascii "zen.SchemaDesc", 1, [⟨ascii "name", .text, true⟩, ⟨ascii "version", .int, true⟩,
    ⟨ascii "fields", .list (.message fieldDescSchema.raw), true⟩]⟩, by decide⟩

def manifestSchema : Schema :=
  ⟨⟨ascii "zen.Manifest", 1, [⟨ascii "accepted", .list (.message schemaDescSchema.raw), true⟩,
    ⟨ascii "state", .message schemaDescSchema.raw, true⟩]⟩, by decide⟩

end Zen.Kernel

/-! ## Encoding, in the library -/

namespace Zen.Raw
open Kernel

-- Slots are in the order of the fields of the meta-schema.
def makeTypeToken (k : Kind) (ref : Option Schema) : Value :=
  ⟨typeTokenSchema.raw, [some (.int (Int64.ofNat k.code.toNat)), ref.map fun s => .text s.name,
    ref.map fun s => .int (Int64.ofNat s.version.toNat)]⟩

def encodeType : TypeRef → List Cell
  | .message schema => [.message (makeTypeToken .message (some schema))]
  | .list element => .message (makeTypeToken .list none) :: encodeType element
  | t => [.message (makeTypeToken t.kind none)]

def encodeField (f : Field) : Value :=
  ⟨fieldDescSchema.raw, [some (.text f.name), some (.bool f.required), some (.list (encodeType f.type))]⟩

def encodeSchema (s : Schema) : Value :=
  ⟨schemaDescSchema.raw, [some (.text s.name), some (.int (Int64.ofNat s.version.toNat)),
    some (.list (s.fields.map fun f => .message (encodeField f)))]⟩

def encodeManifest (accepted : List Schema) (state : Schema) : Value :=
  ⟨manifestSchema.raw, [some (.list (accepted.map fun s => .message (encodeSchema s))),
    some (.message (encodeSchema state))]⟩

theorem makeTypeToken_wf (k : Kind) (ref : Option Schema) : (makeTypeToken k ref).wf := by
  cases ref <;> rfl

theorem encodeType_wf (t : TypeRef) : ∀ c ∈ encodeType t, c.wf := by
  induction t with
  | list element ih =>
      rw [encodeType, List.forall_mem_cons]
      exact ⟨makeTypeToken_wf .list none, ih⟩
  | int | float | text | bool | bytes => simp [encodeType, makeTypeToken_wf]
  | message schema _ => simp [encodeType, makeTypeToken_wf]

theorem encodeField_wf (f : Field) : (encodeField f).wf := by
  rw [Value.wf_iff]
  refine ⟨fieldDescSchema.wf, rfl, ?_⟩
  simpa [encodeField, cellsWf_iff, Cell.wf] using encodeType_wf f.type

theorem encodeSchema_wf (s : Schema) : (encodeSchema s).wf := by
  rw [Value.wf_iff]
  refine ⟨schemaDescSchema.wf, rfl, ?_⟩
  simp [encodeSchema, cellsWf_iff, encodeField_wf, Cell.wf]

theorem encodeManifest_wf (accepted : List Schema) (state : Schema) : (encodeManifest accepted state).wf := by
  rw [Value.wf_iff]
  refine ⟨manifestSchema.wf, rfl, ?_⟩
  simp [encodeManifest, Cell.wf_list, encodeSchema_wf]

/-! ## Cells the gate has seen

A descriptor is decoded after it has passed the gate, so no default here is ever taken.
-/

def Cell.asInt : Option Cell → Int64
  | some (.int v) => v
  | _ => 0

def Cell.asText : Option Cell → ByteString
  | some (.text s) => s
  | _ => []

def Cell.asBool : Option Cell → Bool
  | some (.bool b) => b
  | _ => false

def Cell.asList : Option Cell → List Cell
  | some (.list cells) => cells
  | _ => []

def Cell.asMessage : Option Cell → Value
  | some (.message v) => v
  | _ => ⟨⟨[], 0, []⟩, []⟩

end Zen.Raw

/-! ## Decoding, in the host -/

namespace Zen.Kernel
open Raw (Cell)

def encodeManifest (accepted : List Schema) (state : Schema) : Value :=
  ⟨Raw.encodeManifest (accepted.map Schema.raw) state.raw, Raw.encodeManifest_wf _ _⟩

def typeMessage (schema : Schema) : TypeRef := ⟨.message schema.raw, by simp [schema.wf]⟩
def typeList (element : TypeRef) : TypeRef := ⟨.list element.raw, by simp [element.wf]⟩

def typeOf : (kind : Int64) → TypeRef
  | 0 => ⟨.int, Eq.refl true⟩
  | 1 => ⟨.float, Eq.refl true⟩
  | 2 => ⟨.text, Eq.refl true⟩
  | 3 => ⟨.bool, Eq.refl true⟩
  | _ => ⟨.bytes, Eq.refl true⟩

-- The index into the tokens is the list of those that are left.
def decodeType (deps : Registry) : (tokens : List Cell) → Except Exn (TypeRef × List Cell)
  | [] => .error (.runtimeError "schema descriptor: truncated type-token stream")
  | token :: rest =>
      let tok := Cell.asMessage (some token)
      let raw := Cell.asInt (tok.get "kind")
      if raw < 0 ∨ raw > 6 then .error (.runtimeError "schema descriptor: kind out of range")
      else if raw = 5 then
        match tok.get "ref_name", tok.get "ref_version" with
        | some refName, some refVersion =>
            let name := Cell.asText (some refName)
            match deps.lookup name (Cell.asInt (some refVersion)).toUInt64.toUInt32 with
            | some ref => .ok (typeMessage ref, rest)
            | none => .error (.runtimeError
                (ascii "schema descriptor: unresolved nested schema '" ++ name ++ ascii "'"))
        | _, _ => .error (.runtimeError "schema descriptor: Message token missing its reference")
      else if raw = 6 then do
        let (element, rest) ← decodeType deps rest
        return (typeList element, rest)
      else .ok (typeOf raw, rest)

def decodeField (deps : Registry) (fd : Raw.Value) : Except Exn Field := do
  let (type, rest) ← decodeType deps (Cell.asList (fd.get "type"))
  if !rest.isEmpty then throw (.runtimeError "schema descriptor: trailing type tokens")
  return ⟨Cell.asText (fd.get "name"), type, Cell.asBool (fd.get "required")⟩

def decodeSchema (desc : Raw.Value) (deps : Registry) : Except Exn Schema := do
  let rebuilt ← (Cell.asList (desc.get "fields")).mapM fun c =>
    decodeField deps (Cell.asMessage (some c))
  Schema.make (Cell.asText (desc.get "name")) (Cell.asInt (desc.get "version")).toUInt64.toUInt32 rebuilt

end Zen.Kernel
