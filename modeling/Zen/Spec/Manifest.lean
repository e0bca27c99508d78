import Zen.Kernel.Kernel

/-!
# What a manifest means

A nested schema crosses the seam as a (name, version). It comes back as the library meant it where
that pair leads the host to a schema of the same content id: one the host knew before, or else one
that the manifest lists earlier.
-/

namespace Zen

namespace Raw

/-- The one schema that a type can refer to, below any number of lists. -/
def TypeRef.reference : TypeRef → Option Schema
  | .message schema => some schema
  | .list element => element.reference
  | _ => none

def Schema.references (s : Schema) : List Schema := s.fields.filterMap fun f => f.type.reference

def Schema.nestedIds (s : Schema) : List UInt64 := s.references.map Schema.contentId

/-! ## What can be described -/

/-- The number of tokens of a type. -/
def TypeRef.tokens : TypeRef → Nat
  | .list element => element.tokens + 1
  | _ => 1

def textFits (s : ByteString) : Bool := s.length ≤ kMaxFieldBytes && validUtf8 s

def Field.describable (f : Field) : Bool :=
  textFits f.name && f.type.tokens ≤ kMaxListCount && f.type.reference.all fun n => textFits n.name

/-- Names are valid UTF-8 and all sizes are within the caps of the wire. -/
def Schema.describable (s : Schema) : Bool :=
  textFits s.name && s.fields.length ≤ kMaxListCount && s.fields.all Field.describable

/-! ## What comes back -/

def Schema.Same (s s' : Schema) : Prop :=
  s'.name = s.name ∧ s'.version = s.version ∧ s'.contentId = s.contentId

/-- Equal types, where a nested schema is known by its name, version and content id. -/
def TypeRef.Alike : TypeRef → TypeRef → Prop
  | .message schema, .message schema' => schema.Same schema'
  | .list element, .list element' => element.Alike element'
  | t, t' => t' = t

structure Field.Alike (f f' : Field) : Prop where
  name : f'.name = f.name
  required : f'.required = f.required
  type : f.type.Alike f'.type

structure Schema.Alike (s s' : Schema) : Prop where
  same : s.Same s'
  fields : List.Forall₂ Field.Alike s.fields s'.fields

end Raw

namespace Kernel

def named (name : ByteString) (version : UInt32) (s : Schema) : Bool := s.name == name && s.version == version

def resolvedId (known : Registry) (earlier : List Schema) (name : ByteString) (version : UInt32) :
    Option UInt64 :=
  ((known.lookup name version).or (earlier.find? (named name version))).map Schema.contentId

/-- Every reference of `listed`, read in order after `earlier`, finds the schema it means. -/
def Resolves (known : Registry) : (earlier listed : List Schema) → Prop
  | _, [] => True
  | earlier, s :: listed =>
      (∀ n ∈ s.raw.references, resolvedId known earlier n.name n.version = some n.contentId) ∧
        Resolves known (earlier ++ [s]) listed

/-- No schema of `listed`, registered in order after `earlier`, meets another one of its name and version. -/
def Unconflicting (known : Registry) : (earlier listed : List Schema) → Prop
  | _, [] => True
  | earlier, s :: listed =>
      (∀ id, resolvedId known earlier s.name s.version = some id → id = s.contentId) ∧
        Unconflicting known (earlier ++ [s]) listed

/-- No schema shares its content id with its reconstruction although they nest different ones. -/
def Uncollided (listed rebuilt : List Schema) : Prop :=
  List.Forall₂ (fun s s' => s'.contentId = s.contentId → s'.raw.nestedIds = s.raw.nestedIds) listed rebuilt

end Kernel
end Zen
