import Zen.Kernel.Unguarded

/-!
# Descriptors

A descriptor as data, without the cells that carry it, and the types that a stream of tokens
denotes. Each of its fields is read as the gate has checked it, so nothing that it holds is lost.
-/

namespace Zen.Kernel
open Raw (Cell)

structure Token where
  kind : Int64
  refName : Option ByteString
  refVersion : Option Int64
  deriving DecidableEq

structure FieldDesc where
  name : ByteString
  required : Bool
  tokens : List Token
  deriving DecidableEq

structure Descriptor where
  name : ByteString
  version : Int64
  fields : List FieldDesc
  deriving DecidableEq

/-! ## The descriptor that a value holds -/

def optional {α : Type} (read : Cell → Except Fault α) : Option Cell → Except Fault (Option α)
  | some c => (read c).map some
  | none => .ok none

def describeToken (c : Cell) : Except Fault Token := do
  let tok ← c.asMessage!
  let kind ← (← tok.get! "kind").asInt!
  let refName ← optional Cell.asText! (tok.get "ref_name")
  let refVersion ← optional Cell.asInt! (tok.get "ref_version")
  return ⟨kind, refName, refVersion⟩

def describeField (c : Cell) : Except Fault FieldDesc := do
  let fd ← c.asMessage!
  let name ← (← fd.get! "name").asText!
  let required ← (← fd.get! "required").asBool!
  let tokens ← (← (← fd.get! "type").asList!).mapM describeToken
  return ⟨name, required, tokens⟩

def describe (desc : Raw.Value) : Except Fault Descriptor := do
  let name ← (← desc.get! "name").asText!
  let version ← (← desc.get! "version").asInt!
  let fields ← (← (← desc.get! "fields").asList!).mapM describeField
  return ⟨name, version, fields⟩

/-! ## The descriptor of a schema -/

def version64 (version : UInt32) : Int64 := Int64.ofNat version.toNat

def Token.plain (kind : Kind) : Token := ⟨Int64.ofNat kind.code.toNat, none, none⟩

def tokensOf : Raw.TypeRef → List Token
  | .message schema => [⟨5, some schema.name, some (version64 schema.version)⟩]
  | .list element => Token.plain .list :: tokensOf element
  | t => [Token.plain t.kind]

def FieldDesc.ofField (f : Raw.Field) : FieldDesc := ⟨f.name, f.required, tokensOf f.type⟩

def Descriptor.ofSchema (s : Raw.Schema) : Descriptor := ⟨s.name, version64 s.version, s.fields.map FieldDesc.ofField⟩

/-! ## What a descriptor denotes -/

def narrow (version : Int64) : UInt32 := version.toUInt64.toUInt32

/-- The tokens of one type, and the type. References stand on any token, versions are narrowed. -/
inductive Denotes (deps : Registry) : List Token → TypeRef → Prop where
  | leaf (t : Token) (least : 0 ≤ t.kind) (most : t.kind ≤ 4) : Denotes deps [t] (typeOf t.kind)
  | message (t : Token) (name : ByteString) (version : Int64) {schema : Schema} (kind : t.kind = 5)
      (named : t.refName = some name) (versioned : t.refVersion = some version)
      (found : deps.lookup name (narrow version) = some schema) : Denotes deps [t] (typeMessage schema)
  | list (t : Token) {ts : List Token} {element : TypeRef} (kind : t.kind = 6) (inner : Denotes deps ts element) :
      Denotes deps (t :: ts) (typeList element)

structure FieldDesc.Denotes (deps : Registry) (fd : FieldDesc) (f : Field) : Prop where
  name : f.name = fd.name
  required : f.required = fd.required
  type : Kernel.Denotes deps fd.tokens f.type

structure Descriptor.Denotes (deps : Registry) (d : Descriptor) (s : Schema) : Prop where
  name : s.name = d.name
  version : s.version = narrow d.version
  fields : ∃ fs : List Field, s.fields = fs.map Field.raw ∧ List.Forall₂ (FieldDesc.Denotes deps) d.fields fs

/-! ## Canonical descriptors -/

def inRange (version : Int64) : Prop := 0 ≤ version ∧ version ≤ 0xFFFFFFFF

instance (version : Int64) : Decidable (inRange version) := inferInstanceAs (Decidable (_ ∧ _))

/-- A Message token refers to a version that fits, and no other token refers to anything. -/
def Token.Canonical (t : Token) : Prop :=
  if t.kind = 5 then ∀ version ∈ t.refVersion, inRange version else t.refName = none ∧ t.refVersion = none

def Descriptor.Canonical (d : Descriptor) : Prop :=
  inRange d.version ∧ ∀ fd ∈ d.fields, ∀ t ∈ fd.tokens, t.Canonical

end Zen.Kernel
