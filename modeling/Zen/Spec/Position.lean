import Zen.Core.Compat

/-!
# Positions of a document

A position is a way down a JSON document, and its text is the path an error gives. Read against a
door, a document has positions where a required member is absent and positions where it is wrong.
-/

namespace Zen
namespace Raw

inductive Step where
  | field (name : ByteString)
  | item (i : Nat)
  deriving DecidableEq

abbrev Position := List Step

def render (base : ByteString) : Position → ByteString
  | [] => base
  | .field name :: p => render (fieldPath base name) p
  | .item i :: p => render (indexPath base i) p

variable (chars : FloatChars)

mutual
/-- Where an object at a Message position has no member for a required field. -/
def absent : TypeRef → JsonValue → List Position
  | .message schema, node =>
      match node with
      | .object members => absentMembers schema members
      | _ => []
  | .list element, node =>
      match node with
      | .array nodes => nodes.zipIdx.flatMap fun x => (absent element x.1).map (.item x.2 :: ·)
      | _ => []
  | _, _ => []

def absentMembers : Schema → List (ByteString × JsonValue) → List Position
  | ⟨_, _, fields⟩, members => absentFields fields members

def absentFields : List Field → List (ByteString × JsonValue) → List Position
  | [], _ => []
  | ⟨name, type, required⟩ :: fields, members =>
      (match (JsonValue.object members).find name with
        | none => if required then [[.field name]] else []
        | some node => (absent type node).map (.field name :: ·)) ++ absentFields fields members
end

/-- No cell of this type can be taken from the node. -/
def undecodable : TypeRef → JsonValue → Bool
  | .message _, .object _ => false
  | .message _, _ => true
  | .list _, .array _ => false
  | .list _, _ => true
  | t, node => (JsonDecoder.scalar chars t node []).toOption.isNone

mutual
/-- Where a member is undeclared or a node cannot be decoded. -/
def wrong : TypeRef → JsonValue → List Position
  | .message schema, node =>
      match node with
      | .object members => wrongMembers schema members
      | _ => [[]]
  | .list element, node =>
      match node with
      | .array nodes => nodes.zipIdx.flatMap fun x => (wrong element x.1).map (.item x.2 :: ·)
      | _ => [[]]
  | .int, node => if undecodable chars .int node then [[]] else []
  | .float, node => if undecodable chars .float node then [[]] else []
  | .text, node => if undecodable chars .text node then [[]] else []
  | .bool, node => if undecodable chars .bool node then [[]] else []
  | .bytes, node => if undecodable chars .bytes node then [[]] else []

def wrongMembers : Schema → List (ByteString × JsonValue) → List Position
  | ⟨_, _, fields⟩, members =>
      (members.filter fun member => !fields.any fun f => f.name == member.1).map (fun member => [.field member.1]) ++
        wrongFields fields members

def wrongFields : List Field → List (ByteString × JsonValue) → List Position
  | [], _ => []
  | ⟨name, type, _⟩ :: fields, members =>
      (match (JsonValue.object members).find name with
        | none => []
        | some node => (wrong type node).map (.field name :: ·)) ++ wrongFields fields members
end

mutual
/-- Somewhere inside a required field is absent or cannot be decoded. -/
def lacks : TypeRef → JsonValue → Bool
  | .message schema, node =>
      match node with
      | .object members => lacksMember schema members
      | _ => false
  | .list element, node =>
      match node with
      | .array nodes => nodes.any fun node => lacks element node
      | _ => false
  | _, _ => false

def lacksMember : Schema → List (ByteString × JsonValue) → Bool
  | ⟨_, _, fields⟩, members => lacksField fields members

def lacksField : List Field → List (ByteString × JsonValue) → Bool
  | [], _ => false
  | ⟨name, type, required⟩ :: fields, members =>
      (match (JsonValue.object members).find name with
        | none => required
        | some node => if undecodable chars type node then required else lacks type node) || lacksField fields members
end

mutual
/-- In no array does an item that cannot be decoded stand before one that lacks a field. -/
def orderly : TypeRef → JsonValue → Prop
  | .message schema, node =>
      match node with
      | .object members => orderlyMembers schema members
      | _ => True
  | .list element, node =>
      match node with
      | .array nodes => (∀ node ∈ nodes, orderly element node) ∧
          nodes.Pairwise fun a b => undecodable chars element a = true → lacks chars element b = false
      | _ => True
  | _, _ => True

def orderlyMembers : Schema → List (ByteString × JsonValue) → Prop
  | ⟨_, _, fields⟩, members => orderlyFields fields members

def orderlyFields : List Field → List (ByteString × JsonValue) → Prop
  | [], _ => True
  | ⟨name, type, _⟩ :: fields, members =>
      (match (JsonValue.object members).find name with
        | none => True
        | some node => orderly type node) ∧ orderlyFields fields members
end

/-! ## Texts of positions -/

/-- The names on the way have nothing of the path's punctuation. -/
def Legible (p : Position) : Prop :=
  ∀ name, Step.field name ∈ p → name ≠ [] ∧ (0x2E : UInt8) ∉ name ∧ (0x5B : UInt8) ∉ name

mutual
def TypeRef.legible : TypeRef → Prop
  | .message schema => schema.legible
  | .list element => element.legible
  | _ => True

def Schema.legible : Schema → Prop
  | ⟨_, _, fields⟩ => fieldsLegible fields

def fieldsLegible : List Field → Prop
  | [] => True
  | ⟨name, type, _⟩ :: fields =>
      ((0x2E : UInt8) ∉ name ∧ (0x5B : UInt8) ∉ name) ∧ type.legible ∧ fieldsLegible fields
end

end Raw

def Admission.errors : Admission → List Error
  | .accept _ => []
  | .reject errors => errors

/-- The missing fields of a report are those of the document, each at its own path. -/
structure PointsAtFaults (door : Schema) (members : List (ByteString × JsonValue)) (errors : List Error) : Prop where
  real : ∀ e ∈ errors, e.kind = .missingField →
    ∃ p ∈ Raw.absentMembers door.raw members, e.path = Raw.render [] p
  reported : ∀ p ∈ Raw.absentMembers door.raw members,
    ∃ e ∈ errors, e.kind = .missingField ∧ e.path = Raw.render [] p

/-- No wrong position has the text of an absent member. -/
def NoClash (chars : FloatChars) (door : Schema) (members : List (ByteString × JsonValue)) : Prop :=
  ∀ p ∈ Raw.absentMembers door.raw members, ∀ q ∈ Raw.wrongMembers chars door.raw members,
    Raw.render [] p ≠ Raw.render [] q

/-- Neither the door nor an undeclared member has a name that could be read as a path. -/
def PlainNames (chars : FloatChars) (door : Schema) (members : List (ByteString × JsonValue)) : Prop :=
  door.raw.legible ∧ ∀ p ∈ Raw.wrongMembers chars door.raw members, Raw.Legible p

end Zen
