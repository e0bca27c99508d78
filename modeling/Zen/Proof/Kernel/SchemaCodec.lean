import Zen.Lib.Fallible
import Zen.Proof.Core.Wire
import Zen.Spec.Manifest

/-!
# Decoding a descriptor

What `decode_schema` makes of an encoded schema: the same schema with each reference replaced by
what the host finds under its name and version.
-/

namespace Zen.Kernel
open Lib
open Raw (Cell)

/-! ## Types -/

def resolve (deps : Registry) : Raw.TypeRef → Option TypeRef
  | .message schema => (deps.lookup schema.name schema.version).map typeMessage
  | .list element => (resolve deps element).map typeList
  | .int => some ⟨.int, Eq.refl true⟩
  | .float => some ⟨.float, Eq.refl true⟩
  | .text => some ⟨.text, Eq.refl true⟩
  | .bool => some ⟨.bool, Eq.refl true⟩
  | .bytes => some ⟨.bytes, Eq.refl true⟩

theorem token_refName (k : Kind) (ref : Option Raw.Schema) :
    (Raw.makeTypeToken k ref).get "ref_name" = ref.map fun s => .text s.name := by
  cases ref <;> rfl

theorem token_refVersion (k : Kind) (ref : Option Raw.Schema) :
    (Raw.makeTypeToken k ref).get "ref_version" = ref.map fun s => .int (Int64.ofNat s.version.toNat) := by
  cases ref <;> rfl

theorem version_round_trip (version : UInt32) : (Int64.ofNat version.toNat).toUInt64.toUInt32 = version := by
  apply UInt32.toNat_inj.mp
  simp

theorem decodeType_encodeType (deps : Registry) (t : Raw.TypeRef) (rest : List Cell) :
    (decodeType deps (Raw.encodeType t ++ rest)).toOption = (resolve deps t).map fun type => (type, rest) := by
  induction t with
  | int | float | text | bool | bytes => rfl
  | message schema _ =>
      have kind : Cell.asInt ((Raw.makeTypeToken .message (some schema)).get "kind") = 5 := rfl
      rw [Raw.encodeType, List.singleton_append, decodeType, Cell.asMessage]
      simp only [kind, token_refName, token_refVersion, Option.map_some, resolve]
      rw [if_neg (by decide), if_pos trivial]
      simp only [Cell.asText, Cell.asInt, version_round_trip]
      cases deps.lookup schema.name schema.version <;> rfl
  | list element ih =>
      have kind : Cell.asInt ((Raw.makeTypeToken .list none).get "kind") = 6 := rfl
      rw [Raw.encodeType, List.cons_append, decodeType, Cell.asMessage]
      simp only [kind, resolve]
      rw [if_neg (by decide), if_neg (by decide), if_pos trivial]
      cases decoded : decodeType deps (Raw.encodeType element ++ rest) with
      | error e =>
          rw [decoded] at ih
          have unresolved : resolve deps element = none := by simpa [Except.toOption] using ih.symm
          rw [unresolved]
          rfl
      | ok result =>
          rw [decoded] at ih
          obtain ⟨type, resolved, rfl⟩ := Option.map_eq_some_iff.mp ih.symm
          rw [resolved]
          rfl

/-! ## Fields and schemas -/

structure FieldResolved (deps : Registry) (f : Raw.Field) (g : Field) : Prop where
  name : g.name = f.name
  required : g.required = f.required
  type : resolve deps f.type = some g.type

theorem decodeField_encodeField {deps : Registry} {f : Raw.Field} {g : Field}
    (h : decodeField deps (Raw.encodeField f) = .ok g) : FieldResolved deps f g := by
  have tokens : Cell.asList ((Raw.encodeField f).get "type") = Raw.encodeType f.type := rfl
  have name : Cell.asText ((Raw.encodeField f).get "name") = f.name := rfl
  have required : Cell.asBool ((Raw.encodeField f).get "required") = f.required := rfl
  rw [decodeField, tokens, name, required] at h
  obtain ⟨⟨type, rest⟩, decoded, built⟩ := except_bind_ok.mp h
  rw [← toOption_eq_some, ← List.append_nil (Raw.encodeType f.type), decodeType_encodeType,
    Option.map_eq_some_iff] at decoded
  obtain ⟨type', resolved, same⟩ := decoded
  cases same
  cases built
  exact ⟨rfl, rfl, resolved⟩

theorem decodeFields_encoded {deps : Registry} {fields : List Raw.Field} {rebuilt : List Field}
    (h : (fields.map fun f => Cell.message (Raw.encodeField f)).mapM (fun c =>
      decodeField deps (Cell.asMessage (some c))) = .ok rebuilt) :
    List.Forall₂ (FieldResolved deps) fields rebuilt := by
  induction fields generalizing rebuilt with
  | nil =>
      cases h
      exact .nil
  | cons f fields ih =>
      rw [List.map_cons, List.mapM_cons] at h
      obtain ⟨g, decoded, h⟩ := except_bind_ok.mp h
      obtain ⟨rest, others, h⟩ := except_bind_ok.mp h
      cases h
      exact .cons (decodeField_encodeField decoded) (ih others)

theorem make_ok {name : ByteString} {version : UInt32} {fields : List Field} {s : Schema}
    (h : Schema.make name version fields = .ok s) : s.raw = ⟨name, version, fields.map Field.raw⟩ := by
  unfold Schema.make at h
  split at h
  · cases h
    rfl
  · cases h

theorem decodeSchema_encodeSchema {deps : Registry} {s : Raw.Schema} {s' : Schema}
    (h : decodeSchema (Raw.encodeSchema s) deps = .ok s') : ∃ rebuilt,
      List.Forall₂ (FieldResolved deps) s.fields rebuilt ∧
        s'.raw = ⟨s.name, s.version, rebuilt.map Field.raw⟩ := by
  have fields : Cell.asList ((Raw.encodeSchema s).get "fields") =
      s.fields.map fun f => .message (Raw.encodeField f) := rfl
  have name : Cell.asText ((Raw.encodeSchema s).get "name") = s.name := rfl
  have version : Cell.asInt ((Raw.encodeSchema s).get "version") = Int64.ofNat s.version.toNat := rfl
  rw [decodeSchema, fields, name, version, version_round_trip] at h
  obtain ⟨rebuilt, decoded, made⟩ := except_bind_ok.mp h
  exact ⟨rebuilt, decodeFields_encoded decoded, make_ok made⟩

/-! ## References and content ids -/

def fieldIds (fields : List Raw.Field) : List UInt64 :=
  (fields.filterMap fun f => f.type.reference).map Raw.Schema.contentId

theorem resolve_reference {deps : Registry} {t : Raw.TypeRef} {t' : TypeRef} (h : resolve deps t = some t') :
    t'.raw.reference = t.reference.bind fun n => (deps.lookup n.name n.version).map Schema.raw := by
  induction t generalizing t' with
  | int | float | text | bool | bytes =>
      cases h
      rfl
  | message schema _ =>
      obtain ⟨owner, found, rfl⟩ := Option.map_eq_some_iff.mp h
      rw [Raw.TypeRef.reference, Option.bind_some, found]
      rfl
  | list element ih =>
      obtain ⟨element', resolved, rfl⟩ := Option.map_eq_some_iff.mp h
      rw [typeList, Raw.TypeRef.reference, Raw.TypeRef.reference]
      exact ih resolved

theorem resolve_known {deps : Registry} {t : Raw.TypeRef} {t' : TypeRef} (h : resolve deps t = some t')
    {n : Raw.Schema} (refers : t.reference = some n) : ∃ owner, deps.lookup n.name n.version = some owner := by
  induction t generalizing t' with
  | int | float | text | bool | bytes => cases refers
  | message schema _ =>
      cases refers
      obtain ⟨owner, found, _⟩ := Option.map_eq_some_iff.mp h
      exact ⟨owner, found⟩
  | list element ih =>
      obtain ⟨element', resolved, _⟩ := Option.map_eq_some_iff.mp h
      exact ih resolved refers

theorem hashTyperef_resolved {deps : Registry} {t : Raw.TypeRef} {t' : TypeRef}
    (h : resolve deps t = some t')
    (same : t'.raw.reference.map Raw.Schema.contentId = t.reference.map Raw.Schema.contentId)
    (hash : Fnv1a) : Raw.hashTyperef hash t'.raw = Raw.hashTyperef hash t := by
  induction t generalizing t' hash with
  | int | float | text | bool | bytes =>
      cases h
      rfl
  | message schema _ =>
      obtain ⟨owner, _, rfl⟩ := Option.map_eq_some_iff.mp h
      have sameId : owner.raw.contentId = schema.contentId := Option.some.inj same
      rw [typeMessage, Raw.hashTyperef, Raw.hashTyperef, sameId]
  | list element ih =>
      obtain ⟨element', resolved, rfl⟩ := Option.map_eq_some_iff.mp h
      rw [typeList, Raw.hashTyperef, Raw.hashTyperef]
      exact ih resolved same _

theorem fieldIds_resolved {deps : Registry} {fields : List Raw.Field} {rebuilt : List Field}
    (h : List.Forall₂ (FieldResolved deps) fields rebuilt) :
    fieldIds (rebuilt.map Field.raw) = fieldIds fields ↔ ∀ n ∈ fields.filterMap (fun f => f.type.reference),
      (deps.lookup n.name n.version).map Schema.contentId = some n.contentId := by
  induction h with
  | nil => simp [fieldIds]
  | @cons f g fields rebuilt resolved _ ih =>
      have reference : g.raw.type.reference = _ := resolve_reference resolved.type
      cases refers : f.type.reference with
      | none =>
          rw [refers, Option.bind_none] at reference
          simp only [fieldIds, List.map_cons, List.filterMap_cons, reference, refers]
          exact ih
      | some n =>
          obtain ⟨owner, found⟩ := resolve_known resolved.type refers
          rw [refers, Option.bind_some, found, Option.map_some] at reference
          simp only [fieldIds, List.map_cons, List.filterMap_cons, reference, refers, List.cons.injEq,
            List.forall_mem_cons, found, Option.map_some, Option.some.injEq]
          exact and_congr Iff.rfl ih

theorem hashFields_resolved {deps : Registry} {fields : List Raw.Field} {rebuilt : List Field}
    (h : List.Forall₂ (FieldResolved deps) fields rebuilt)
    (same : fieldIds (rebuilt.map Field.raw) = fieldIds fields) (hash : Fnv1a) :
    Raw.hashFields hash (rebuilt.map Field.raw) = Raw.hashFields hash fields := by
  have sameIds := (fieldIds_resolved h).mp same
  clear same
  induction h generalizing hash with
  | nil => rfl
  | @cons f g fields rebuilt resolved rest ih =>
      obtain ⟨name, type, required⟩ := f
      have reference := resolve_reference resolved.type
      rw [List.map_cons, Field.raw, Raw.hashFields, Raw.hashFields, resolved.name, resolved.required]
      have head : Raw.hashTyperef ((hash.field name).byte (if required then 1 else 0)) g.type.raw =
          Raw.hashTyperef ((hash.field name).byte (if required then 1 else 0)) type := by
        apply hashTyperef_resolved resolved.type
        rw [reference]
        cases refers : type.reference with
        | none => rfl
        | some n =>
            have sameId := sameIds n (by simp [refers])
            rw [Option.bind_some, Option.map_map]
            exact sameId
      simp only at head ⊢
      rw [head]
      apply ih
      intro n hn
      apply sameIds n
      rw [List.filterMap_cons]
      split
      · exact hn
      · exact List.mem_cons_of_mem _ hn

theorem decoded_nestedIds {deps : Registry} {s s' : Schema}
    (h : decodeSchema (Raw.encodeSchema s.raw) deps = .ok s') :
    s'.raw.nestedIds = s.raw.nestedIds ↔ ∀ n ∈ s.raw.references,
      (deps.lookup n.name n.version).map Schema.contentId = some n.contentId := by
  obtain ⟨rebuilt, resolved, same⟩ := decodeSchema_encodeSchema h
  rw [same]
  exact fieldIds_resolved resolved

theorem decoded_contentId {deps : Registry} {s s' : Schema}
    (h : decodeSchema (Raw.encodeSchema s.raw) deps = .ok s')
    (nested : s'.raw.nestedIds = s.raw.nestedIds) : s'.contentId = s.contentId := by
  obtain ⟨⟨name, version, fields⟩, wf⟩ := s
  obtain ⟨rebuilt, resolved, same⟩ := decodeSchema_encodeSchema h
  have size : (rebuilt.map Field.raw).length = fields.length := by
    rw [List.length_map, resolved.length_eq]
  rw [same] at nested
  rw [Schema.contentId, Schema.contentId, same, Raw.Schema.contentId, Raw.Schema.contentId, size,
    hashFields_resolved resolved nested]

theorem decoded_named {deps : Registry} {s s' : Schema}
    (h : decodeSchema (Raw.encodeSchema s.raw) deps = .ok s') : s'.name = s.name ∧ s'.version = s.version := by
  obtain ⟨rebuilt, _, same⟩ := decodeSchema_encodeSchema h
  rw [Schema.name, Schema.version, same]
  exact ⟨rfl, rfl⟩

end Zen.Kernel
