import Zen.Core.Binary
import Zen.Core.Gate
import Zen.Core.Utf8

/-!
# The native format on trees

`binEncodeBody` and `binEncodeValue` append to `out` and patch the presence mask in place, as the
source does. The decoder is a reader of the body bytes: a failed read is fatal, so a run ends with
a cell or with exactly one error.
-/

namespace Zen.Raw
open Lib

def binRequireKind (c : Cell) (expected : Kind) : Except Exn Unit :=
  if c.kind ≠ expected then
    .error (.invalidArgument (ascii "serialize: a field holds " ++ c.kind.nameOf ++
      ascii " but its schema declares " ++ expected.nameOf ++
      ascii " (validate the value before serializing)"))
  else .ok ()

def maskBytes (n : Nat) : Nat := (n + 7) / 8

mutual
def binEncodeBody : Value → ByteString → Except Exn ByteString
  | ⟨schema, slots⟩, out =>
      binEncodeSlots schema.fields out.length 0 slots
        (out ++ List.replicate (maskBytes schema.fields.length) 0)

-- the loop over slots: `maskPos` is where the mask of this body starts, `i` the next field
def binEncodeSlots (fields : List Field) (maskPos i : Nat) :
    List (Option Cell) → ByteString → Except Exn ByteString
  | [], out => .ok out
  | none :: slots, out => binEncodeSlots fields maskPos (i + 1) slots out
  | some c :: slots, out =>
      match fields[i]? with
      | none => .ok out
      | some field => do
          let out := out.modify (maskPos + i / 8) fun b => UInt8.ofNat (b.toNat ||| (1 <<< (i % 8)))
          let out ← binEncodeValue c field.type out
          binEncodeSlots fields maskPos (i + 1) slots out

def binEncodeValue : Cell → TypeRef → ByteString → Except Exn ByteString
  | .int v, .int, out => .ok (out ++ putZigzag v)
  | .float bits, .float, out => .ok (out ++ putF64le bits)
  | .text s, .text, out => .ok (out ++ putUvarint s.length ++ s)
  | .bool b, .bool, out => .ok (out ++ putU8 (if b then 1 else 0))
  | .bytes b, .bytes, out => .ok (out ++ putUvarint b.length ++ b)
  | .message nested, .message _, out => binEncodeBody nested out
  | .nullMessage, .message _, _ => .error (.invalidArgument
      "serialize: a present Message field is null (validate before serializing)")
  | .list cells, .list element, out => binEncodeElements element cells (out ++ putUvarint cells.length)
  | c, t, out => do
      binRequireKind c t.kind
      return out

def binEncodeElements (element : TypeRef) : List Cell → ByteString → Except Exn ByteString
  | [], out => .ok out
  | c :: cells, out => do
      let out ← binEncodeValue c element out
      binEncodeElements element cells out
end

abbrev Decoder (α : Type) := Reader Error UInt8 α

namespace BinaryDecoder

def fail {α : Type} (kind : ErrorKind) (path expected detail : ByteString) : Decoder α :=
  throw ⟨kind, path, expected, "binary", detail⟩

def require {α : Type} (read : BinReader α) (kind : ErrorKind) (path expected detail : ByteString) :
    Decoder α :=
  orThrow read ⟨kind, path, expected, "binary", detail⟩

-- Text and Bytes: a length within the cap and the input, then that many bytes
def octets (path expected : ByteString) : Decoder ByteString := do
  let len ← require BinReader.uvarint .malformedField path expected "truncated or non-minimal length"
  fun input =>
    if len.toNat > kMaxFieldBytes || len.toNat > input.length then
      .error ⟨.malformedField, path, expected, "binary", "length exceeds remaining input or cap"⟩ input
    else .ok (input.take len.toNat) (input.drop len.toNat)

def paddingSet (n : Nat) (mask : ByteString) : Bool :=
  let last := mask.getD (maskBytes n - 1) 0
  n % 8 != 0 && last &&& ~~~ UInt8.ofNat ((1 <<< (n % 8)) - 1) != 0

def presence (n : Nat) (base : ByteString) : Decoder ByteString := do
  let mask ← require (BinReader.take (maskBytes n)) .malformedBytes base [] "truncated presence bitmask"
  if paddingSet n mask then
    fail .malformedBytes base [] "non-zero padding bit in presence bitmask"
  else return mask

mutual
def body : Schema → (out : Value) → (base : ByteString) → (depth : Nat) → Decoder Value
  | ⟨_, _, fields⟩, out, base, depth => do
      if depth > kMaxBinaryDepth then
        fail .malformedBytes base [] "maximum nesting depth exceeded"
      else
        let mask ← presence fields.length base
        bodyFields fields mask 0 out base depth

def bodyFields : List Field → (mask : ByteString) → (i : Nat) → (out : Value) →
    (base : ByteString) → (depth : Nat) → Decoder Value
  | [], _, _, out, _, _ => return out
  | ⟨name, type, _⟩ :: fields, mask, i, out, base, depth =>
      if maskBit mask i then do
        let c ← value type (fieldPath base name) depth
        -- the field comes from the schema `out` claims, so `set` finds it
        bodyFields fields mask (i + 1) ((out.set name c).getD out) base depth
      else bodyFields fields mask (i + 1) out base depth

def value : TypeRef → (path : ByteString) → (depth : Nat) → Decoder Cell
  | t, path, depth =>
      if depth > kMaxBinaryDepth then
        fail .malformedBytes path [] "maximum nesting depth exceeded"
      else
        match t with
        | .int => do
            return .int (← require BinReader.zigzag .malformedField path "Int"
              "truncated or non-minimal varint")
        | .float => do
            return .float (← require BinReader.f64le .malformedField path "Float"
              "truncated or non-canonical float")
        | .text => do
            let s ← octets path "Text"
            if validUtf8 s then return .text s
            else fail .malformedField path "Text" "invalid UTF-8"
        | .bool => do
            let b ← require BinReader.u8 .malformedField path "Bool" "truncated"
            if b > 1 then fail .malformedField path "Bool" "byte is not 0x00 or 0x01"
            else return .bool (b != 0)
        | .bytes => do
            return .bytes (← octets path "Bytes")
        | .message schema => do
            return .message (← body schema (Value.empty schema) path (depth + 1))
        | .list element => do
            let label := (TypeRef.list element).label
            let count ← require BinReader.uvarint .malformedField path label
              "truncated or non-minimal count"
            if count.toNat > kMaxListCount then
              fail .malformedField path label "list count exceeds cap"
            else
              return .list (← readEach (fun k => value element (indexPath path k) (depth + 1))
                count.toNat 0)
end

/-! ## A decoded value is aligned with its door -/

theorem bodyFields_wf {fields : List Field} {base : ByteString} {depth : Nat}
    (decoded : ∀ f ∈ fields, ∀ input c rest,
      (value f.type (fieldPath base f.name) depth).run input = .ok c rest → c.wf)
    {mask : ByteString} {i : Nat} {out v : Value} {input rest : ByteString} (wf : out.wf)
    (h : (bodyFields fields mask i out base depth).run input = .ok v rest) :
    v.wf ∧ v.schema = out.schema := by
  induction fields generalizing i out input with
  | nil =>
      rw [bodyFields] at h
      obtain ⟨rfl, _⟩ := pure_eq_ok.mp h
      exact ⟨wf, rfl⟩
  | cons f fields ih =>
      obtain ⟨name, type, required⟩ := f
      have others := fun g hg => decoded g (List.mem_cons_of_mem _ hg)
      rw [bodyFields] at h
      split at h
      · obtain ⟨c, mid, hc, h⟩ := bind_eq_ok.mp h
        have cellWf := decoded ⟨name, type, required⟩ (by simp) input c mid hc
        cases assigned : out.set name c with
        | none =>
            rw [assigned] at h
            exact ih others wf h
        | some out' =>
            rw [assigned] at h
            obtain ⟨wf', same⟩ := Value.set_wf wf cellWf assigned
            rw [← same]
            exact ih others wf' h
      · exact ih others wf h

theorem body_wf {schema : Schema} (hs : schema.wf) {base : ByteString} {depth : Nat}
    (decoded : ∀ f ∈ schema.fields, ∀ input c rest,
      (value f.type (fieldPath base f.name) depth).run input = .ok c rest → c.wf)
    {v : Value} {input rest : ByteString}
    (h : (body schema (Value.empty schema) base depth).run input = .ok v rest) :
    v.wf ∧ v.schema = schema := by
  obtain ⟨name, version, fields⟩ := schema
  rw [body] at h
  split at h
  · cases h
  · obtain ⟨mask, mid, _, h⟩ := bind_eq_ok.mp h
    exact bodyFields_wf decoded (Value.empty_wf hs) h

theorem value_wf {t : TypeRef} (ht : t.wf) {path : ByteString} {depth : Nat} {c : Cell}
    {input rest : ByteString} (h : (value t path depth).run input = .ok c rest) : c.wf := by
  induction t generalizing path depth c input rest with
  | int | float | bytes =>
      rw [value] at h
      split at h
      · cases h
      · obtain ⟨_, _, _, h⟩ := bind_eq_ok.mp h
        obtain ⟨rfl, _⟩ := pure_eq_ok.mp h
        rfl
  | text | bool =>
      rw [value] at h
      split at h
      · cases h
      · obtain ⟨_, _, _, h⟩ := bind_eq_ok.mp h
        split at h <;> cases h
        rfl
  | message schema ih =>
      rw [value] at h
      split at h
      · cases h
      · obtain ⟨v, _, hv, h⟩ := bind_eq_ok.mp h
        obtain ⟨rfl, _⟩ := pure_eq_ok.mp h
        rw [TypeRef.wf_message] at ht
        have fields := (Schema.wf_iff.mp ht).2.2
        exact (body_wf ht (fun f hf _ _ _ hc => ih f hf (fields f hf) hc) hv).1
  | list element ih =>
      rw [value] at h
      split at h
      · cases h
      · obtain ⟨count, _, _, h⟩ := bind_eq_ok.mp h
        split at h
        · cases h
        · obtain ⟨cells, _, hcells, h⟩ := bind_eq_ok.mp h
          obtain ⟨rfl, _⟩ := pure_eq_ok.mp h
          rw [TypeRef.wf_list] at ht
          exact Cell.wf_list.mpr (readEach_all (fun _ _ _ _ hc => ih ht hc) hcells)

end BinaryDecoder
end Zen.Raw
