import Zen.Lib.PrefixCode
import Zen.Spec.ContentId

/-!
# Content ids hash an unambiguous normal form
-/

namespace Zen
open Lib

/-! ## The hash is fed the bytes -/

namespace Fnv1a

theorem bytes_append (f : Fnv1a) (s s' : ByteString) : f.bytes (s ++ s') = (f.bytes s).bytes s' :=
  List.foldl_append

theorem byte_fed (f : Fnv1a) (b : UInt8) : f.byte b = f.bytes [b] := rfl

theorem low_byte (v : UInt64) : (v &&& 0xFF).toUInt8 = UInt8.ofNat (v.toNat &&& 0xFF) := by
  apply UInt8.toNat_inj.mp
  simp

theorem u64_fed (f : Fnv1a) (v : UInt64) : f.u64 v = f.bytes (Raw.u64Fed v) := by
  have steps : ∀ n, ((List.range n).foldl (fun (x : Fnv1a × UInt64) _ => (x.1.byte (x.2 &&& 0xFF).toUInt8, x.2 >>> 8))
      (f, v)).1 = f.bytes (putLe n v.toNat) ∧ ((List.range n).foldl (fun (x : Fnv1a × UInt64) _ =>
        (x.1.byte (x.2 &&& 0xFF).toUInt8, x.2 >>> 8)) (f, v)).2.toNat = v.toNat >>> (8 * n) := by
    intro n
    induction n with
    | zero => exact ⟨rfl, rfl⟩
    | succ n ih =>
        obtain ⟨hashed, left⟩ := ih
        rw [List.range_succ, List.foldl_append, List.foldl_cons, List.foldl_nil]
        constructor
        · rw [hashed, low_byte, left, byte_fed, ← bytes_append, putLe, putLe, List.range_succ, List.map_append]
          rfl
        · simp only [UInt64.toNat_shiftRight, left]
          rw [Nat.mul_succ, Nat.shiftRight_add]
          rfl
  exact (steps 8).1

theorem field_fed (f : Fnv1a) (s : ByteString) : f.field s = f.bytes (Raw.textFed s) := by
  rw [field, u64_fed, Raw.textFed, bytes_append]

end Fnv1a

namespace Raw

theorem hashTyperef_fed (t : TypeRef) (h : Fnv1a) : hashTyperef h t = h.bytes t.fed := by
  induction t generalizing h with
  | int | float | text | bool | bytes => rfl
  | message schema _ =>
      rw [hashTyperef, TypeRef.fed, Fnv1a.u64_fed, Fnv1a.byte_fed, ← Fnv1a.bytes_append, List.singleton_append]
  | list element ih =>
      rw [hashTyperef, TypeRef.fed, ih, Fnv1a.byte_fed, ← Fnv1a.bytes_append, List.singleton_append]

theorem hashFields_fed (fields : List Field) (h : Fnv1a) : hashFields h fields = h.bytes (fields.flatMap Field.fed) := by
  induction fields generalizing h with
  | nil => rfl
  | cons f fields ih =>
      obtain ⟨name, type, required⟩ := f
      rw [hashFields, ih, hashTyperef_fed, Fnv1a.field_fed, Fnv1a.byte_fed, ← Fnv1a.bytes_append, ← Fnv1a.bytes_append,
        ← Fnv1a.bytes_append, List.flatMap_cons, Field.fed]
      simp only [List.append_assoc]

theorem contentId_fed (s : Schema) : s.contentId = (({} : Fnv1a).bytes s.fed).h := by
  obtain ⟨name, version, fields⟩ := s
  rw [Schema.contentId, hashFields_fed, Fnv1a.u64_fed, Fnv1a.u64_fed, Fnv1a.field_fed, ← Fnv1a.bytes_append, ← Fnv1a.bytes_append,
    ← Fnv1a.bytes_append, Schema.fed]
  simp only [List.append_assoc]

/-! ## The bytes spell the normal form -/

theorem u64Fed_free : PrefixFree (fun _ => True) u64Fed := by
  refine .ofLength (n := 8) (fun v _ => length_putLe 8 v.toNat) fun v w _ _ same => ?_
  apply UInt64.toNat_inj.mp
  rw [← readLe_putLe (n := 8) v.toNat_lt, ← readLe_putLe (n := 8) w.toNat_lt]
  exact congrArg readLe same

theorem sizeFed_free : PrefixFree (fun n => n < 2 ^ 64) fun n : Nat => u64Fed n.toUInt64 := by
  intro n m s t small small' same
  obtain ⟨equal, rests⟩ := u64Fed_free trivial trivial same
  refine ⟨?_, rests⟩
  have values : n % 2 ^ 64 = m % 2 ^ 64 := congrArg UInt64.toNat equal
  rwa [Nat.mod_eq_of_lt small, Nat.mod_eq_of_lt small'] at values

theorem textFed_free : PrefixFree (fun s : ByteString => s.length < 2 ^ 64) textFed := by
  have counted := PrefixFree.counted sizeFed_free (PrefixFree.singleton (β := UInt8))
  have same : (fun s : ByteString => u64Fed s.length.toUInt64 ++ s.flatMap fun b => [b]) = textFed := by
    funext s
    rw [List.flatMap_singleton', textFed]
  rw [same] at counted
  exact counted.mono fun s sized => ⟨sized, fun _ _ => trivial⟩

def NormalType.fed : NormalType → ByteString
  | .int => [Kind.int.code]
  | .float => [Kind.float.code]
  | .text => [Kind.text.code]
  | .bool => [Kind.bool.code]
  | .bytes => [Kind.bytes.code]
  | .message id => Kind.message.code :: u64Fed id
  | .list element => Kind.list.code :: element.fed

def NormalField.fed (f : NormalField) : ByteString := textFed f.name ++ [if f.required then 1 else 0] ++ f.type.fed

def NormalSchema.fed (s : NormalSchema) : ByteString :=
  textFed s.name ++ u64Fed s.version.toUInt64 ++ (u64Fed s.fields.length.toUInt64 ++ s.fields.flatMap NormalField.fed)

theorem typeFed_free : PrefixFree (fun _ => True) NormalType.fed := by
  intro a b s t _ _ same
  induction a generalizing b with
  | int | float | text | bool | bytes =>
      cases b <;> first | exact ⟨rfl, (List.cons.inj same).2⟩ | cases (List.cons.inj same).1
  | message id =>
      cases b with
      | message id' =>
          obtain ⟨rfl, rests⟩ := u64Fed_free trivial trivial (List.cons.inj same).2
          exact ⟨rfl, rests⟩
      | _ => cases (List.cons.inj same).1
  | list element ih =>
      cases b with
      | list element' =>
          obtain ⟨rfl, rests⟩ := ih (List.cons.inj same).2
          exact ⟨rfl, rests⟩
      | _ => cases (List.cons.inj same).1

theorem fieldFed_free : PrefixFree (fun f : NormalField => f.name.length < 2 ^ 64) NormalField.fed := by
  have flag : PrefixFree (fun _ => True) fun required : Bool => [if required then (1 : UInt8) else 0] :=
    PrefixFree.singleton.comap (f := fun required : Bool => if required then (1 : UInt8) else 0) fun a b same => by
      cases a <;> cases b <;> first | rfl | cases same
  have parts := (textFed_free.append flag).append typeFed_free
  have whole := parts.comap (f := fun f : NormalField => ((f.name, f.required), f.type)) fun f g same => by
    cases f
    cases g
    cases same
    rfl
  exact whole.mono fun f sized => ⟨⟨sized, trivial⟩, trivial⟩

theorem schemaFed_free : PrefixFree (fun s : NormalSchema => s.name.length < 2 ^ 64 ∧ s.fields.length < 2 ^ 64 ∧
    ∀ f ∈ s.fields, f.name.length < 2 ^ 64) NormalSchema.fed := by
  have version : PrefixFree (fun _ => True) fun v : UInt32 => u64Fed v.toUInt64 :=
    u64Fed_free.comap (f := UInt32.toUInt64) fun v w same => by
      apply UInt32.toNat_inj.mp
      simpa using congrArg UInt64.toNat same
  have parts := (textFed_free.append version).append (PrefixFree.counted sizeFed_free fieldFed_free)
  have whole := parts.comap (f := fun s : NormalSchema => ((s.name, s.version), s.fields)) fun s s' same => by
    cases s
    cases s'
    cases same
    rfl
  exact whole.mono fun s sized => ⟨⟨sized.1, trivial⟩, sized.2⟩

theorem normalType_fed (t : TypeRef) : t.fed = t.normal.fed := by
  induction t with
  | int | float | text | bool | bytes => rfl
  | message schema _ => rfl
  | list element ih => rw [TypeRef.fed, TypeRef.normal, NormalType.fed, ih]

theorem normalField_fed (f : Field) : f.fed = f.normal.fed := by
  rw [Field.fed, normalType_fed]
  rfl

theorem normal_fed (s : Schema) : s.fed = s.normal.fed := by
  have fields : s.fields.flatMap Field.fed = s.normal.fields.flatMap NormalField.fed := by
    rw [Schema.normal, List.flatMap_map]
    exact congrArg (s.fields.flatMap ·) (funext normalField_fed)
  rw [Schema.fed, fields, NormalSchema.fed, List.append_assoc (textFed s.name ++ _)]
  simp only [Schema.normal, List.length_map]

theorem Schema.Sized.normal {s : Schema} (sized : s.Sized) : s.normal.name.length < 2 ^ 64 ∧
    s.normal.fields.length < 2 ^ 64 ∧ ∀ f ∈ s.normal.fields, f.name.length < 2 ^ 64 := by
  refine ⟨sized.name, ?_, ?_⟩
  · rw [Schema.normal, List.length_map]
    exact sized.fields
  · intro f member
    obtain ⟨g, listed, rfl⟩ := List.mem_map.mp member
    exact sized.names g listed

end Raw

/-- A content id is the hash of bytes that are equal for two schemas just when their normal forms are. -/
theorem content_id_hashes_a_normal_form (a b : Schema) (sized : a.raw.Sized) (sized' : b.raw.Sized) :
    a.contentId = (({} : Fnv1a).bytes a.raw.fed).h ∧ (a.raw.fed = b.raw.fed ↔ a.raw.normal = b.raw.normal) := by
  refine ⟨Raw.contentId_fed a.raw, ?_⟩
  rw [Raw.normal_fed, Raw.normal_fed]
  exact ⟨Raw.schemaFed_free.injective sized.normal sized'.normal, congrArg _⟩

def slidSchema (first second : ByteString) (h : Raw.Schema.wf ⟨ascii "S", 1, [⟨first, .int, true⟩, ⟨second, .int, true⟩]⟩) :
    Schema := ⟨_, h⟩

theorem content_id_hashes_a_normal_form_slid : (slidSchema "ab" "c" (by decide)).raw.fed ≠
    (slidSchema "a" "bc" (by decide)).raw.fed := by
  have same := (content_id_hashes_a_normal_form (slidSchema "ab" "c" (by decide)) (slidSchema "a" "bc" (by decide))
    ⟨by decide, by decide, by decide⟩ ⟨by decide, by decide, by decide⟩).2
  rw [ne_eq, same]
  intro equal
  cases congrArg (fun n => n.fields.map Raw.NormalField.name) equal

end Zen
