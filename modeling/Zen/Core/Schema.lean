import Mathlib.Data.List.Nodup
import Zen.Core.Bytes

/-!
# Schemas

The seven kinds, schemas as trees, and their content ids. A `Schema` is what the constructor of
the source lets through: no field name is empty and no two fields share one, at any depth. The
trees themselves, without that promise, live in `Raw`, where the recursions run.
-/

namespace Zen

inductive Kind where
  | int | float | text | bool | bytes | message | list
  deriving DecidableEq

namespace Kind

def code : Kind → UInt8
  | int => 0 | float => 1 | text => 2 | bool => 3 | bytes => 4 | message => 5 | list => 6

def nameOf : Kind → ByteString
  | int => "Int" | float => "Float" | text => "Text" | bool => "Bool" | bytes => "Bytes"
  | message => "Message" | list => "List"

end Kind

/-! ## FNV-1a -/

structure Fnv1a where
  h : UInt64 := 1469598103934665603

namespace Fnv1a

def byte (f : Fnv1a) (b : UInt8) : Fnv1a := ⟨(f.h ^^^ b.toUInt64) * 1099511628211⟩

def bytes (f : Fnv1a) (s : ByteString) : Fnv1a := s.foldl byte f

def u64 (f : Fnv1a) (v : UInt64) : Fnv1a :=
  ((List.range 8).foldl (fun (x : Fnv1a × UInt64) _ => (x.1.byte (x.2 &&& 0xFF).toUInt8, x.2 >>> 8))
    (f, v)).1

def field (f : Fnv1a) (s : ByteString) : Fnv1a := (f.u64 s.length.toUInt64).bytes s

end Fnv1a

/-! ## Schema trees -/

namespace Raw

mutual
inductive TypeRef where
  | int | float | text | bool | bytes
  | message (schema : Schema)
  | list (element : TypeRef)

structure Field where
  name : ByteString
  type : TypeRef
  required : Bool

structure Schema where
  name : ByteString
  version : UInt32
  fields : List Field
end

@[induction_eliminator]
theorem TypeRef.induct {motive : TypeRef → Prop} (int : motive .int) (float : motive .float)
    (text : motive .text) (bool : motive .bool) (bytes : motive .bytes)
    (message : ∀ schema : Schema, (∀ f ∈ schema.fields, motive f.type) → motive (.message schema))
    (list : ∀ element, motive element → motive (.list element)) (t : TypeRef) : motive t := by
  refine @TypeRef.rec motive (fun f => motive f.type) (fun s => ∀ f ∈ s.fields, motive f.type)
    (fun fs => ∀ f ∈ fs, motive f.type) int float text bool bytes message list ?_ ?_ ?_ ?_ t
  · intro name type required h
    exact h
  · intro name version fields h
    exact h
  · simp
  · intro f fs hf hfs
    simpa using ⟨hf, hfs⟩

namespace TypeRef

def kind : TypeRef → Kind
  | int => .int | float => .float | text => .text | bool => .bool | bytes => .bytes
  | message _ => .message | list _ => .list

end TypeRef

mutual
def hashTyperef (h : Fnv1a) : TypeRef → Fnv1a
  | .int => h.byte Kind.int.code
  | .float => h.byte Kind.float.code
  | .text => h.byte Kind.text.code
  | .bool => h.byte Kind.bool.code
  | .bytes => h.byte Kind.bytes.code
  | .message schema => (h.byte Kind.message.code).u64 schema.contentId
  | .list element => hashTyperef (h.byte Kind.list.code) element

def Schema.contentId : Schema → UInt64
  | ⟨name, version, fields⟩ =>
      let h := (({} : Fnv1a).field name).u64 version.toUInt64
      (hashFields (h.u64 fields.length.toUInt64) fields).h

def hashFields (h : Fnv1a) : List Field → Fnv1a
  | [] => h
  | ⟨name, type, required⟩ :: fields =>
      hashFields (hashTyperef ((h.field name).byte (if required then 1 else 0)) type) fields
end

/-! ## What the constructor checks -/

mutual
def TypeRef.wf : TypeRef → Bool
  | .message schema => schema.wf
  | .list element => element.wf
  | _ => true

def Schema.wf : Schema → Bool
  | ⟨_, _, fields⟩ =>
      fields.all (fun f => !f.name.isEmpty) && decide (fields.map Field.name).Nodup && fieldsWf fields

def fieldsWf : List Field → Bool
  | [] => true
  | ⟨_, type, _⟩ :: fields => type.wf && fieldsWf fields
end

theorem fieldsWf_iff {fields : List Field} : fieldsWf fields ↔ ∀ f ∈ fields, f.type.wf := by
  induction fields with
  | nil => simp [fieldsWf]
  | cons f fields ih =>
      obtain ⟨name, type, required⟩ := f
      simp [fieldsWf, ih]

theorem Schema.wf_iff {s : Schema} : s.wf ↔ (∀ f ∈ s.fields, f.name ≠ []) ∧
    (s.fields.map Field.name).Nodup ∧ ∀ f ∈ s.fields, f.type.wf := by
  obtain ⟨name, version, fields⟩ := s
  simp [Schema.wf, fieldsWf_iff, and_assoc]

@[simp] theorem TypeRef.wf_message {schema : Schema} : (TypeRef.message schema).wf = schema.wf := by
  rw [TypeRef.wf]

@[simp] theorem TypeRef.wf_list {element : TypeRef} : (TypeRef.list element).wf = element.wf := by
  rw [TypeRef.wf]

end Raw

structure TypeRef where
  raw : Raw.TypeRef
  wf : raw.wf

structure Field where
  name : ByteString
  type : TypeRef
  required : Bool := true

def Field.raw (f : Field) : Raw.Field := ⟨f.name, f.type.raw, f.required⟩

@[ext] structure Schema where
  raw : Raw.Schema
  wf : raw.wf

namespace Schema

def name (s : Schema) : ByteString := s.raw.name
def version (s : Schema) : UInt32 := s.raw.version
def fields (s : Schema) : List Raw.Field := s.raw.fields
def contentId (s : Schema) : UInt64 := s.raw.contentId

def checkFields : (seen : List ByteString) → List Field → Except Exn Unit
  | _, [] => .ok ()
  | seen, f :: fields =>
      if f.name.isEmpty then .error (.invalidArgument "field name must not be empty")
      else if f.name ∈ seen then
        .error (.invalidArgument (ascii "duplicate field name '" ++ f.name ++ ascii "'"))
      else checkFields (f.name :: seen) fields

theorem checkFields_ok {seen : List ByteString} {fields : List Field}
    (h : checkFields seen fields = .ok ()) :
    (∀ f ∈ fields, f.name ≠ [] ∧ f.name ∉ seen) ∧ (fields.map Field.name).Nodup := by
  induction fields generalizing seen with
  | nil => simp
  | cons f fields ih =>
      rw [checkFields] at h
      split at h
      · cases h
      · split at h
        · cases h
        · rename_i filled unseen
          obtain ⟨names, nodup⟩ := ih h
          refine ⟨?_, ?_⟩
          · intro g hg
            rcases List.mem_cons.mp hg with rfl | hg
            · exact ⟨by simpa using filled, unseen⟩
            · exact ⟨(names g hg).1, fun hs => (names g hg).2 (List.mem_cons_of_mem _ hs)⟩
          · rw [List.map_cons, List.nodup_cons]
            refine ⟨?_, nodup⟩
            intro hf
            obtain ⟨g, hg, same⟩ := List.mem_map.mp hf
            exact (names g hg).2 (by simp [same])

theorem wf_of_checkFields (name : ByteString) (version : UInt32) {fields : List Field}
    (h : checkFields [] fields = .ok ()) : (Raw.Schema.mk name version (fields.map Field.raw)).wf := by
  obtain ⟨names, nodup⟩ := checkFields_ok h
  rw [Raw.Schema.wf_iff]
  refine ⟨?_, ?_, ?_⟩
  · intro f hf
    obtain ⟨g, hg, rfl⟩ := List.mem_map.mp hf
    exact (names g hg).1
  · rw [List.map_map]
    exact nodup
  · intro f hf
    obtain ⟨g, _, rfl⟩ := List.mem_map.mp hf
    exact g.type.wf

def make (name : ByteString) (version : UInt32) (fields : List Field) : Except Exn Schema :=
  match h : checkFields [] fields with
  | .ok () => .ok ⟨⟨name, version, fields.map Field.raw⟩, wf_of_checkFields name version h⟩
  | .error e => .error e

end Schema

def sameIdentity (a b : Schema) : Bool :=
  a.name == b.name && a.version == b.version && a.contentId == b.contentId

def versionLabel (name : ByteString) (version : UInt32) : ByteString :=
  name ++ ascii " v" ++ decimal version.toNat

def Raw.TypeRef.label : Raw.TypeRef → ByteString
  | .message schema => ascii "Message(" ++ versionLabel schema.name schema.version ++ ascii ")"
  | .list element => ascii "List<" ++ element.label ++ ascii ">"
  | t => t.kind.nameOf

end Zen
