import Zen.Core.Access
import Zen.Kernel.SchemaCodec
import Zen.Lib.Fallible

/-!
# Shapes

A shape is what a struct registers: a name, a version and its members. The schema, the writer and the
reader of a struct are derived from it.
-/

namespace Zen.Author
open Kernel (typeMessage typeList)

mutual

/-- A member type that a schema type is deduced from. -/
inductive Member where
  | int64 | double | string | bool | bytes
  | vector (element : Member)
  | shape (s : Shape)

structure FieldEntry where
  name : ByteString
  member : Member

structure Shape where
  zenName : ByteString
  zenVersion : UInt32
  zenFields : List FieldEntry

end

/-! ## The objects of a shape -/

mutual

def Member.Object : Member → Type
  | .int64 => Int64
  | .double => UInt64
  | .string => ByteString
  | .bool => Bool
  | .bytes => ByteString
  | .vector element => List element.Object
  | .shape s => s.Object

def Shape.Object : Shape → Type
  | ⟨_, _, entries⟩ => Entries entries

def Entries : List FieldEntry → Type
  | [] => Unit
  | ⟨_, member⟩ :: entries => member.Object × Entries entries

end

/-! ## The schema of a shape -/

mutual

def Member.typeRef : Member → Except Exn TypeRef
  | .int64 => .ok ⟨.int, Eq.refl true⟩
  | .double => .ok ⟨.float, Eq.refl true⟩
  | .string => .ok ⟨.text, Eq.refl true⟩
  | .bool => .ok ⟨.bool, Eq.refl true⟩
  | .bytes => .ok ⟨.bytes, Eq.refl true⟩
  | .vector element => do return typeList (← element.typeRef)
  | .shape s => do return typeMessage (← s.schemaOf)

def Shape.schemaOf : Shape → Except Exn Schema
  | ⟨zenName, zenVersion, entries⟩ => do Schema.make zenName zenVersion (← buildFields entries)

def buildFields : List FieldEntry → Except Exn (List Field)
  | [] => .ok []
  | ⟨name, member⟩ :: entries => do
      let type ← member.typeRef
      return ⟨name, type, true⟩ :: (← buildFields entries)

end

/-! ## To a value -/

mutual

def toCell : (member : Member) → member.Object → Except Exn Raw.Cell
  | .int64, v => .ok (.int v)
  | .double, v => .ok (.float v)
  | .string, v => .ok (.text v)
  | .bool, v => .ok (.bool v)
  | .bytes, v => .ok (.bytes v)
  | .vector element, v => do return .list (← v.mapM (toCell element))
  | .shape s, u => do return .message (← toValue s u)

def toValue : (s : Shape) → s.Object → Except Exn Raw.Value
  | ⟨zenName, zenVersion, entries⟩, obj => do
      let schema ← Shape.schemaOf ⟨zenName, zenVersion, entries⟩
      setFields entries obj (.empty schema.raw)

-- the schema that `v` claims has each of these fields, so `set` finds it
def setFields : (entries : List FieldEntry) → Entries entries → Raw.Value → Except Exn Raw.Value
  | [], _, v => .ok v
  | ⟨name, member⟩ :: entries, obj, v => do
      let c ← toCell member obj.1
      setFields entries obj.2 ((v.set name c).getD v)

end

mutual

theorem toCell_wf (member : Member) {obj : member.Object} {c : Raw.Cell} (h : toCell member obj = .ok c) : c.wf := by
  match member with
  | .int64 | .double | .string | .bool | .bytes =>
      cases h
      rfl
  | .vector element =>
      rw [toCell] at h
      cases written : List.mapM (toCell element) obj with
      | error e =>
          rw [written] at h
          cases h
      | ok cells =>
          rw [written] at h
          cases h
          apply Raw.Cell.wf_list.mpr
          intro c listed
          obtain ⟨d, _, each⟩ := (Lib.mapM_partners written).2 c listed
          exact toCell_wf element each
  | .shape s =>
      rw [toCell] at h
      cases written : toValue s obj with
      | error e =>
          rw [written] at h
          cases h
      | ok v =>
          rw [written] at h
          cases h
          rw [Raw.Cell.wf_message]
          exact toValue_wf s written

theorem toValue_wf (s : Shape) {obj : s.Object} {v : Raw.Value} (h : toValue s obj = .ok v) : v.wf := by
  match s with
  | ⟨zenName, zenVersion, entries⟩ =>
      rw [toValue] at h
      cases derived : Shape.schemaOf ⟨zenName, zenVersion, entries⟩ with
      | error e =>
          rw [derived] at h
          cases h
      | ok schema =>
          rw [derived] at h
          exact setFields_wf entries (Raw.Value.empty_wf schema.wf) h

theorem setFields_wf (entries : List FieldEntry) {obj : Entries entries} {v w : Raw.Value} (wf : v.wf)
    (h : setFields entries obj v = .ok w) : w.wf := by
  match entries with
  | [] =>
      cases h
      exact wf
  | ⟨name, member⟩ :: entries =>
      rw [setFields] at h
      cases written : toCell member obj.1 with
      | error e =>
          rw [written] at h
          cases h
      | ok c =>
          rw [written] at h
          have cell := toCell_wf member written
          cases assigned : v.set name c with
          | none =>
              change setFields entries obj.2 ((v.set name c).getD v) = .ok w at h
              rw [assigned] at h
              exact setFields_wf entries wf h
          | some v' =>
              change setFields entries obj.2 ((v.set name c).getD v) = .ok w at h
              rw [assigned] at h
              exact setFields_wf entries (Raw.Value.set_wf wf cell assigned).1 h

end

def Shape.toValue (s : Shape) (obj : s.Object) : Except Exn Value :=
  match h : Author.toValue s obj with
  | .ok v => .ok ⟨v, toValue_wf s h⟩
  | .error e => .error e

/-! ## From a value -/

mutual

def fromCell : (member : Member) → Raw.Cell → Except Fault member.Object
  | .int64, c => c.asInt!
  | .double, c => c.asFloat!
  | .string, c => c.asText!
  | .bool, c => c.asBool!
  | .bytes, c => c.asBytes!
  | .vector element, c => do (← c.asList!).mapM (fromCell element)
  | .shape s, c => do fromValue s (← c.asMessage!)

def fromValue : (s : Shape) → Raw.Value → Except Fault s.Object
  | ⟨_, _, entries⟩, v => fromFields entries v

def fromFields : (entries : List FieldEntry) → Raw.Value → Except Fault (Entries entries)
  | [], _ => .ok ()
  | ⟨name, member⟩ :: entries, v => do
      let d ← fromCell member (← v.get! name)
      return (d, ← fromFields entries v)

end

end Zen.Author
