import Zen.Proof.Kernel.Consumers
import Zen.Spec.Descriptor

/-!
# Reading a descriptor back

A schema that a descriptor denotes is described by that descriptor again where it is canonical, and
only there.
-/

namespace Zen.Kernel
open Lib
open Raw (Cell Conforms ValueConforms)

/-! ## What a value holds -/

theorem get!_ok {v : Raw.Value} {name : ByteString} {c : Cell} : v.get! name = .ok c ↔ v.get name = some c := by
  rw [Raw.Value.get!]
  cases v.get name <;> simp

theorem asInt!_ok {c : Cell} {n : Int64} : c.asInt! = .ok n ↔ c = .int n := by
  cases c <;> simp [Cell.asInt!]

theorem asText!_ok {c : Cell} {s : ByteString} : c.asText! = .ok s ↔ c = .text s := by
  cases c <;> simp [Cell.asText!]

theorem asBool!_ok {c : Cell} {b : Bool} : c.asBool! = .ok b ↔ c = .bool b := by
  cases c <;> simp [Cell.asBool!]

theorem asMessage!_ok {c : Cell} {v : Raw.Value} : c.asMessage! = .ok v ↔ c = .message v := by
  cases c <;> simp [Cell.asMessage!]

theorem asList!_ok {c : Cell} {cells : List Cell} : c.asList! = .ok cells ↔ c = .list cells := by
  cases c <;> simp [Cell.asList!]

theorem optional_ok {α : Type} {read : Cell → Except Fault α} {make : α → Cell}
    (reads : ∀ {c a}, read c = .ok a ↔ c = make a) {slot : Option Cell} {found : Option α} :
    optional read slot = .ok found ↔ slot = found.map make := by
  cases slot with
  | none => cases found <;> simp [optional]
  | some c =>
      cases found with
      | none => cases taken : read c <;> simp [optional, taken, Except.map]
      | some a =>
          simp only [Option.map_some, Option.some.injEq, ← reads]
          cases taken : read c <;> simp [optional, taken, Except.map]

/-- What a cell that holds a token looks like. -/
structure HoldsToken (c : Cell) (t : Token) (tok : Raw.Value) : Prop where
  cell : c = .message tok
  kind : tok.get "kind" = some (.int t.kind)
  refName : tok.get "ref_name" = t.refName.map Cell.text
  refVersion : tok.get "ref_version" = t.refVersion.map Cell.int

theorem describeToken_ok {c : Cell} {t : Token} : describeToken c = .ok t ↔ ∃ tok, HoldsToken c t tok := by
  unfold describeToken
  simp only [except_bind_ok, asMessage!_ok, get!_ok, asInt!_ok, optional_ok asText!_ok, optional_ok asInt!_ok]
  constructor
  · rintro ⟨tok, rfl, _, found, kind, rfl, refName, named, refVersion, versioned, made⟩
    cases made
    exact ⟨tok, rfl, found, named, versioned⟩
  · rintro ⟨tok, rfl, found, named, versioned⟩
    exact ⟨tok, rfl, _, found, _, rfl, _, named, _, versioned, rfl⟩

/-- What a cell that holds the description of a field looks like. -/
structure HoldsField (c : Cell) (fd : FieldDesc) (v : Raw.Value) (cells : List Cell) : Prop where
  cell : c = .message v
  name : v.get "name" = some (.text fd.name)
  required : v.get "required" = some (.bool fd.required)
  type : v.get "type" = some (.list cells)
  tokens : List.Forall₂ (fun c t => describeToken c = .ok t) cells fd.tokens

theorem describeField_ok {c : Cell} {fd : FieldDesc} :
    describeField c = .ok fd ↔ ∃ v cells, HoldsField c fd v cells := by
  unfold describeField
  simp only [except_bind_ok, asMessage!_ok, get!_ok, asText!_ok, asBool!_ok, asList!_ok, mapM_ok_iff]
  constructor
  · rintro ⟨v, rfl, _, name, _, rfl, _, required, _, rfl, _, type, cells, rfl, tokens, read, made⟩
    cases made
    exact ⟨v, cells, rfl, name, required, type, read⟩
  · rintro ⟨v, cells, rfl, name, required, type, read⟩
    exact ⟨v, rfl, _, name, _, rfl, _, required, _, rfl, _, type, cells, rfl, _, read, rfl⟩

/-- What a value that holds a descriptor looks like. -/
structure HoldsDescriptor (v : Raw.Value) (d : Descriptor) (cells : List Cell) : Prop where
  name : v.get "name" = some (.text d.name)
  version : v.get "version" = some (.int d.version)
  list : v.get "fields" = some (.list cells)
  fields : List.Forall₂ (fun c fd => describeField c = .ok fd) cells d.fields

theorem describe_ok {v : Raw.Value} {d : Descriptor} : describe v = .ok d ↔ ∃ cells, HoldsDescriptor v d cells := by
  unfold describe
  simp only [except_bind_ok, get!_ok, asText!_ok, asInt!_ok, asList!_ok, mapM_ok_iff]
  constructor
  · rintro ⟨_, name, _, rfl, _, version, _, rfl, _, list, cells, rfl, fields, read, made⟩
    cases made
    exact ⟨cells, name, version, list, read⟩
  · rintro ⟨cells, name, version, list, read⟩
    exact ⟨_, name, _, rfl, _, version, _, rfl, _, list, cells, rfl, _, read, rfl⟩

/-! ## An accepted value holds a descriptor -/

theorem optional_conforms {fields : List Raw.Field} {v : Raw.Value} (conforms : Raw.FieldsConform fields v)
    {f : Raw.Field} (declared : f ∈ fields) {α : Type} {read : Cell → Except Fault α}
    (reads : ∀ c, Conforms f.type c → ∃ a, read c = .ok a) : ∃ found, optional read (v.get f.name) = .ok found := by
  cases stored : v.get f.name with
  | none => exact ⟨none, rfl⟩
  | some c =>
      obtain ⟨a, taken⟩ := reads c (conforms_found conforms declared stored)
      refine ⟨some a, ?_⟩
      rw [optional, taken]
      rfl

theorem token_described {c : Cell} (conforms : Conforms (.message typeTokenSchema.raw) c) :
    ∃ t, describeToken c = .ok t := by
  obtain ⟨dereferenced, fields⟩ := reads_message conforms
  obtain ⟨k, found, kind⟩ := conforms_present (f := ⟨ascii "kind", .int, true⟩) fields (.head _) rfl
  obtain ⟨refName, named⟩ := optional_conforms (f := ⟨ascii "ref_name", .text, false⟩) fields (.tail _ (.head _))
    fun c text => ⟨_, reads_text text⟩
  obtain ⟨refVersion, versioned⟩ := optional_conforms (f := ⟨ascii "ref_version", .int, false⟩) fields
    (.tail _ (.tail _ (.head _))) fun c int => ⟨_, reads_int int⟩
  refine ⟨⟨Cell.asInt (some k), refName, refVersion⟩, ?_⟩
  unfold describeToken
  simp only [except_bind_ok]
  exact ⟨_, dereferenced, _, get!_of_get found, _, reads_int kind, _, named, _, versioned, rfl⟩

theorem field_described {c : Cell} (conforms : Conforms (.message fieldDescSchema.raw) c) :
    ∃ fd, describeField c = .ok fd := by
  obtain ⟨dereferenced, fields⟩ := reads_message conforms
  obtain ⟨n, named, text⟩ := conforms_present (f := ⟨ascii "name", .text, true⟩) fields (.head _) rfl
  obtain ⟨r, marked, bool⟩ := conforms_present (f := ⟨ascii "required", .bool, true⟩) fields (.tail _ (.head _)) rfl
  obtain ⟨t, typed, list⟩ := conforms_present (f := ⟨ascii "type", .list (.message typeTokenSchema.raw), true⟩) fields
    (.tail _ (.tail _ (.head _))) rfl
  obtain ⟨listed, cells⟩ := reads_list list
  obtain ⟨tokens, read⟩ := mapM_some fun c member => token_described (cells c member)
  refine ⟨⟨Cell.asText (some n), Cell.asBool (some r), tokens⟩, ?_⟩
  unfold describeField
  simp only [except_bind_ok]
  exact ⟨_, dereferenced, _, get!_of_get named, _, reads_text text, _, get!_of_get marked, _, reads_bool bool, _,
    get!_of_get typed, _, listed, _, read, rfl⟩

theorem described {desc : Raw.Value} (conforms : ValueConforms schemaDescSchema.raw desc) :
    ∃ d, describe desc = .ok d := by
  obtain ⟨n, named, text⟩ := conforms_present (f := ⟨ascii "name", .text, true⟩) conforms (.head _) rfl
  obtain ⟨v, versioned, int⟩ := conforms_present (f := ⟨ascii "version", .int, true⟩) conforms (.tail _ (.head _)) rfl
  obtain ⟨f, listed, list⟩ := conforms_present (f := ⟨ascii "fields", .list (.message fieldDescSchema.raw), true⟩) conforms
    (.tail _ (.tail _ (.head _))) rfl
  obtain ⟨read, cells⟩ := reads_list list
  obtain ⟨fields, all⟩ := mapM_some fun c member => field_described (cells c member)
  refine ⟨⟨Cell.asText (some n), Cell.asInt (some v), fields⟩, ?_⟩
  unfold describe
  simp only [except_bind_ok]
  exact ⟨_, get!_of_get named, _, reads_text text, _, get!_of_get versioned, _, reads_int int, _, get!_of_get listed,
    _, read, _, all, rfl⟩

/-! ## An encoded schema holds its descriptor -/

theorem encodeType_described (t : Raw.TypeRef) :
    List.Forall₂ (fun c t => describeToken c = .ok t) (Raw.encodeType t) (tokensOf t) := by
  induction t with
  | int | float | text | bool | bytes => exact .cons rfl .nil
  | message schema _ => exact .cons rfl .nil
  | list element ih =>
      rw [Raw.encodeType, tokensOf]
      exact .cons rfl ih

theorem encodeSchema_described (s : Raw.Schema) : describe (Raw.encodeSchema s) = .ok (.ofSchema s) := by
  refine describe_ok.mpr ⟨_, rfl, rfl, rfl, ?_⟩
  rw [Descriptor.ofSchema, List.forall₂_map_left_iff, List.forall₂_map_right_iff, List.forall₂_same]
  intro f _
  exact describeField_ok.mpr ⟨_, _, rfl, rfl, rfl, rfl, encodeType_described f.type⟩

/-! ## Decoding gives what the descriptor denotes -/

theorem decodeType_denotes {deps : Registry} {cells rest : List Cell} {ts : List Token} {type : TypeRef}
    (read : List.Forall₂ (fun c t => describeToken c = .ok t) cells ts)
    (decoded : decodeType deps cells = .ok (type, rest)) :
    ∃ used left, ts = used ++ left ∧ Denotes deps used type ∧
      List.Forall₂ (fun c t => describeToken c = .ok t) rest left := by
  induction read generalizing type rest with
  | nil => cases decoded
  | @cons c t cells ts first others ih =>
      obtain ⟨tok, rfl, kind, refName, refVersion⟩ := describeToken_ok.mp first
      rw [decodeType, Cell.asMessage] at decoded
      simp only [kind, Cell.asInt] at decoded
      split at decoded
      · cases decoded
      · rename_i bounds
        split at decoded
        · rename_i message
          rw [refName, refVersion] at decoded
          cases named : t.refName with
          | none =>
              rw [named] at decoded
              cases decoded
          | some name =>
              cases versioned : t.refVersion with
              | none =>
                  rw [named, versioned] at decoded
                  cases decoded
              | some version =>
                  rw [named, versioned] at decoded
                  simp only [Option.map_some, Cell.asText] at decoded
                  split at decoded
                  · rename_i found
                    cases decoded
                    exact ⟨[t], ts, rfl, .message t name version message named versioned found, others⟩
                  · cases decoded
        · split at decoded
          · rename_i list
            obtain ⟨⟨element, rest⟩, inner, made⟩ := except_bind_ok.mp decoded
            cases made
            obtain ⟨used, left, rfl, denotes, remains⟩ := ih inner
            exact ⟨t :: used, left, rfl, .list t list denotes, remains⟩
          · rename_i other nested
            cases decoded
            obtain ⟨least, most⟩ := not_or.mp bounds
            refine ⟨[t], ts, rfl, .leaf t (Int64.not_lt.mp least) ?_, others⟩
            have most := Int64.le_iff_toInt_le.mp (Int64.not_lt.mp most)
            have other : t.kind.toInt ≠ 5 := fun same => other (Int64.toInt_inj.mp (same.trans rfl))
            have nested : t.kind.toInt ≠ 6 := fun same => nested (Int64.toInt_inj.mp (same.trans rfl))
            simp only [Int64.le_iff_toInt_le, Int64.reduceToInt] at most ⊢
            omega

theorem decodeField_denotes {deps : Registry} {c : Cell} {fd : FieldDesc} {f : Field}
    (read : describeField c = .ok fd) (decoded : decodeField deps (Cell.asMessage (some c)) = .ok f) :
    fd.Denotes deps f := by
  obtain ⟨v, cells, rfl, name, required, type, tokens⟩ := describeField_ok.mp read
  rw [decodeField, Cell.asMessage, type, name, required, Cell.asList] at decoded
  obtain ⟨⟨found, rest⟩, typed, made⟩ := except_bind_ok.mp decoded
  obtain ⟨used, left, whole, denotes, remains⟩ := decodeType_denotes tokens typed
  cases rest with
  | cons token rest => cases made
  | nil =>
      cases made
      cases remains
      rw [List.append_nil] at whole
      exact ⟨rfl, rfl, whole ▸ denotes⟩

theorem decodeFields_denote {deps : Registry} {cells : List Cell} {fds : List FieldDesc} {fs : List Field}
    (read : List.Forall₂ (fun c fd => describeField c = .ok fd) cells fds)
    (decoded : cells.mapM (fun c => decodeField deps (Cell.asMessage (some c))) = .ok fs) :
    List.Forall₂ (FieldDesc.Denotes deps) fds fs := by
  rw [mapM_ok_iff] at decoded
  induction read generalizing fs with
  | nil =>
      cases decoded
      exact .nil
  | cons first others ih =>
      cases decoded with
      | cons now later => exact .cons (decodeField_denotes first now) (ih later)

theorem decodeSchema_denotes {deps : Registry} {desc : Raw.Value} {d : Descriptor} {s : Schema}
    (read : describe desc = .ok d) (decoded : decodeSchema desc deps = .ok s) : d.Denotes deps s := by
  obtain ⟨cells, name, version, list, fields⟩ := describe_ok.mp read
  rw [decodeSchema, list, name, version, Cell.asList] at decoded
  obtain ⟨rebuilt, each, made⟩ := except_bind_ok.mp decoded
  have same := make_ok made
  refine ⟨?_, ?_, rebuilt, ?_, decodeFields_denote fields each⟩
  · rw [Schema.name, same]
    rfl
  · rw [Schema.version, same]
    rfl
  · rw [Schema.fields, same]

/-! ## Canonical descriptors -/

theorem version64_narrow {version : Int64} : version64 (narrow version) = version ↔ inRange version := by
  have signed : version.toInt = (version.toUInt64.toNat : Int).bmod Int64.size := version.toBitVec.toInt_eq_toNat_bmod
  have bound := version.toUInt64.toNat_lt
  have narrowed : (version64 (narrow version)).toInt = ((version.toUInt64.toNat % 2 ^ 32 : Nat) : Int).bmod Int64.size := by
    rw [version64, Int64.toInt_ofNat', narrow, UInt64.toNat_toUInt32]
  rw [inRange, ← Int64.toInt_inj, Int64.le_iff_toInt_le, Int64.le_iff_toInt_le, narrowed, signed]
  generalize version.toUInt64.toNat = n at bound
  simp only [Int64.reduceToInt, Int.bmod, Int64.size]
  split <;> split <;> omega

theorem leaf_kind {kind : Int64} (least : 0 ≤ kind) (most : kind ≤ 4) :
    tokensOf (typeOf kind).raw = [⟨kind, none, none⟩] := by
  simp only [Int64.le_iff_toInt_le, Int64.reduceToInt] at least most
  have cases : kind = 0 ∨ kind = 1 ∨ kind = 2 ∨ kind = 3 ∨ kind = 4 := by
    simp only [← Int64.toInt_inj, Int64.reduceToInt]
    omega
  rcases cases with rfl | rfl | rfl | rfl | rfl <;> rfl

theorem denotes_canonical {deps : Registry} {ts : List Token} {type : TypeRef} (denotes : Denotes deps ts type) :
    tokensOf type.raw = ts ↔ ∀ t ∈ ts, t.Canonical := by
  induction denotes with
  | leaf t least most =>
      obtain ⟨kind, refName, refVersion⟩ := t
      have plain : kind ≠ 5 := by
        rintro rfl
        cases most
      rw [leaf_kind least most, List.forall_mem_singleton, Token.Canonical, if_neg plain]
      simp only [List.cons.injEq, Token.mk.injEq, true_and, and_true]
      exact and_congr eq_comm eq_comm
  | @message t name version schema kind named versioned found =>
      obtain ⟨_, _, _⟩ := t
      obtain rfl : _ = _ := kind
      obtain rfl : _ = _ := named
      obtain rfl : _ = _ := versioned
      obtain ⟨sameName, sameVersion⟩ := Registry.lookup_some found
      have tokens : tokensOf (typeMessage schema).raw = [⟨5, some schema.name, some (version64 schema.version)⟩] := rfl
      rw [List.forall_mem_singleton, Token.Canonical, if_pos rfl, tokens, sameName, sameVersion]
      simp [version64_narrow]
  | @list t ts element kind inner ih =>
      obtain ⟨_, refName, refVersion⟩ := t
      obtain rfl : _ = _ := kind
      change Token.mk 6 none none :: tokensOf element.raw = _ ↔ _
      rw [List.forall_mem_cons, Token.Canonical, if_neg (show ¬(6 : Int64) = 5 by decide), ← ih]
      simp only [List.cons.injEq, Token.mk.injEq, true_and]
      exact and_congr (and_congr eq_comm eq_comm) Iff.rfl

theorem decoded_fields_canonical {deps : Registry} {fds : List FieldDesc} {fs : List Field}
    (denote : List.Forall₂ (FieldDesc.Denotes deps) fds fs) :
    fs.map (fun f => FieldDesc.ofField f.raw) = fds ↔ ∀ fd ∈ fds, ∀ t ∈ fd.tokens, t.Canonical := by
  induction denote with
  | nil => simp
  | @cons fd f fds fs first others ih =>
      obtain ⟨name, required, tokens⟩ := fd
      obtain ⟨rfl, rfl, type⟩ := first
      rw [List.map_cons, List.forall_mem_cons, List.cons.injEq, ih]
      refine and_congr ?_ Iff.rfl
      rw [← denotes_canonical type, FieldDesc.ofField]
      simp [Field.raw]

/-- A descriptor that is accepted and decodes is described again by its schema where, and only where, its
versions are in the range of a schema's version and no token but a Message refers to anything. -/
theorem decoded_descriptor_is_canonical (desc : Raw.Value) (deps : Registry) (s : Schema)
    (accepted : Author.Accepted desc schemaDescSchema) (decoded : decodeSchema desc deps = .ok s) :
    describe (Raw.encodeSchema s.raw) = describe desc ↔ ∃ d, describe desc = .ok d ∧ d.Canonical := by
  obtain ⟨d, read⟩ := described accepted.conforms
  obtain ⟨named, versioned, fs, fields, denote⟩ := decodeSchema_denotes read decoded
  have canonical : Descriptor.ofSchema s.raw = d ↔ d.Canonical := by
    obtain ⟨name, version, fds⟩ := d
    have same : Descriptor.ofSchema s.raw = ⟨s.name, version64 s.version, s.fields.map FieldDesc.ofField⟩ := rfl
    rw [same, named, versioned, fields, List.map_map, Descriptor.mk.injEq, version64_narrow, Descriptor.Canonical,
      ← decoded_fields_canonical denote]
    simp [Function.comp_def]
  rw [encodeSchema_described, read, Except.ok.injEq, canonical]
  simp

/-- A version of 2^32 + 1, and an Int token with a reference. -/
def wideDescriptor : Raw.Value :=
  ⟨schemaDescSchema.raw, [some (.text "Wide"), some (.int 4294967297), some (.list [.message
    ⟨fieldDescSchema.raw, [some (.text "x"), some (.bool true), some (.list [.message
      ⟨typeTokenSchema.raw, [some (.int 0), some (.text "Ghost"), some (.int 7)]⟩])]⟩])]⟩

def repairedSchema : Schema := ⟨⟨ascii "Wide", 1, [⟨ascii "x", .int, true⟩]⟩, by decide⟩

theorem decoded_descriptor_is_canonical_narrow :
    ∃ d, describe (Raw.encodeSchema repairedSchema.raw) = .ok d ∧ d.Canonical :=
  (decoded_descriptor_is_canonical (Raw.encodeSchema repairedSchema.raw) {} repairedSchema ⟨false, by decide +kernel⟩
    rfl).mp rfl

theorem wide_descriptor_is_repaired : Author.Accepted wideDescriptor schemaDescSchema ∧
    decodeSchema wideDescriptor {} = .ok repairedSchema ∧
    describe (Raw.encodeSchema repairedSchema.raw) ≠ describe wideDescriptor := by
  refine ⟨⟨false, by decide +kernel⟩, rfl, ?_⟩
  decide

end Zen.Kernel
