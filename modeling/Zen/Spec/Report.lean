import Zen.Core.Compat

/-!
# What a report is about

The faults the gate finds in a value and the faults a JSON document has for its door, each in the
order of the full report, and the cell a document gives when its faults are passed over. None of
them knows a mode: a report lists all faults or stops at the first.
-/

namespace Zen.Raw

/-! ## The gate -/

def primitiveFaults (t : TypeRef) (c : Cell) (path : ByteString) : List Error :=
  if c.kind ≠ t.kind then [⟨.typeMismatch, path, t.kind.nameOf, c.kind.nameOf, []⟩] else []

mutual
def gateFaults : TypeRef → Cell → ByteString → List Error
  | .message schema, c, path =>
      match c with
      | .message nested =>
          if nested.schema.contentId ≠ schema.contentId then
            [⟨.schemaMismatch, path, (TypeRef.message schema).label, nested.schema.versionLabel,
              "nested value claims a different shape"⟩]
          else gateValueFaults schema nested path
      | .nullMessage => [⟨.nullMessage, path, (TypeRef.message schema).label, "null", []⟩]
      | _ => [⟨.typeMismatch, path, (TypeRef.message schema).label, c.kind.nameOf, []⟩]
  | .list element, c, path =>
      match c with
      | .list cells => cells.zipIdx.flatMap fun x => gateFaults element x.1 (indexPath path x.2)
      | _ => [⟨.typeMismatch, path, (TypeRef.list element).label, c.kind.nameOf, []⟩]
  | .int, c, path => primitiveFaults .int c path
  | .float, c, path => primitiveFaults .float c path
  | .text, c, path => primitiveFaults .text c path
  | .bool, c, path => primitiveFaults .bool c path
  | .bytes, c, path => primitiveFaults .bytes c path

def gateValueFaults : Schema → Value → ByteString → List Error
  | ⟨_, _, fields⟩, v, base => gateFieldFaults fields v base

def gateFieldFaults : List Field → Value → ByteString → List Error
  | [], _, _ => []
  | ⟨name, type, required⟩ :: fields, v, base =>
      (match v.get name with
        | none => if required then [⟨.missingField, fieldPath base name, type.label, "absent", []⟩] else []
        | some c => gateFaults type c (fieldPath base name)) ++ gateFieldFaults fields v base
end

/-! ## JSON documents -/

namespace JsonDecoder

def unknownFaults (declared : List Field) (base : ByteString) (members : List (ByteString × JsonValue)) :
    List Error :=
  (members.filter fun member => !declared.any fun f => f.name == member.1).map fun member =>
    ⟨.unknownField, fieldPath base member.1, "(a declared field)", member.1,
      "the door does not declare this field"⟩

def scalarFaults (chars : FloatChars) (t : TypeRef) (node : JsonValue) (path : ByteString) : List Error :=
  match scalar chars t node path with
  | .ok _ => []
  | .error e => [e]

mutual
def faults (chars : FloatChars) : TypeRef → JsonValue → ByteString → List Error
  | .message schema, node, path =>
      match node with
      | .object members => objectFaults chars schema members path
      | _ => [⟨.typeMismatch, path, (TypeRef.message schema).label, jsonTypeName node, []⟩]
  | .list element, node, path =>
      match node with
      | .array nodes => nodes.zipIdx.flatMap fun x => faults chars element x.1 (indexPath path x.2)
      | _ => [⟨.typeMismatch, path, (TypeRef.list element).label, jsonTypeName node, []⟩]
  | .int, node, path => scalarFaults chars .int node path
  | .float, node, path => scalarFaults chars .float node path
  | .text, node, path => scalarFaults chars .text node path
  | .bool, node, path => scalarFaults chars .bool node path
  | .bytes, node, path => scalarFaults chars .bytes node path

def objectFaults (chars : FloatChars) : Schema → List (ByteString × JsonValue) → ByteString → List Error
  | ⟨_, _, declared⟩, members, base =>
      unknownFaults declared base members ++ memberFaults chars declared members base

def memberFaults (chars : FloatChars) : List Field → List (ByteString × JsonValue) → ByteString → List Error
  | [], _, _ => []
  | ⟨name, type, _⟩ :: declared, members, base =>
      (match (JsonValue.object members).find name with
        | none => []
        | some node => faults chars type node (fieldPath base name)) ++ memberFaults chars declared members base
end

mutual
def taken (chars : FloatChars) : TypeRef → JsonValue → Option Cell
  | .message schema, node =>
      match node with
      | .object members => some (.message (takenValue chars schema members))
      | _ => none
  | .list element, node =>
      match node with
      | .array nodes => some (.list (nodes.filterMap fun node => taken chars element node))
      | _ => none
  | .int, node => (scalar chars .int node []).toOption
  | .float, node => (scalar chars .float node []).toOption
  | .text, node => (scalar chars .text node []).toOption
  | .bool, node => (scalar chars .bool node []).toOption
  | .bytes, node => (scalar chars .bytes node []).toOption

def takenValue (chars : FloatChars) : Schema → List (ByteString × JsonValue) → Value
  | ⟨name, version, fields⟩, members => ⟨⟨name, version, fields⟩, takenSlots chars fields members⟩

def takenSlots (chars : FloatChars) : List Field → List (ByteString × JsonValue) → List (Option Cell)
  | [], _ => []
  | ⟨name, type, _⟩ :: fields, members =>
      (match (JsonValue.object members).find name with
        | none => none
        | some node => taken chars type node) :: takenSlots chars fields members
end

end JsonDecoder
end Zen.Raw

namespace Zen

def FirstOf (full fast : Admission) : Prop :=
  match full with
  | .accept v => fast = .accept v
  | .reject (e :: _) => fast = .reject [e]
  | .reject [] => False

/-- The fast report is the first line of the full one. -/
def ReportsAgree (outcome : Report → Admission) : Prop := FirstOf (outcome .full) (outcome .firstError)

end Zen
