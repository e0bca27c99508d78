import Zen.Core.Base64
import Zen.Core.Json
import Zen.Core.Serialize

/-!
# The compat format

Values as JSON texts. How a double is spelled is left to the standard library: `FloatChars` stands
for `std::to_chars` and `std::from_chars` on doubles.
-/

namespace Zen
open Lib

structure FloatChars where
  toChars : UInt64 → ByteString
  /-- The double at the front of a text and the text behind it; `none` for an error code. -/
  fromChars : ByteString → Option (UInt64 × ByteString)

/-! ## Numbers -/

-- the digits `std::from_chars` takes in base 10
def digitsValue (text : ByteString) : Option Nat :=
  if text.isEmpty || !text.all JsonReader.isDigit then none
  else some (text.foldl (fun n c => n * 10 + (c.toNat - 0x30)) 0)

def jsonParseInt64 (text : ByteString) : Option Int64 :=
  match text with
  | 0x2D :: digits => do
      let n ← digitsValue digits
      if n ≤ 2 ^ 63 then some (Int64.ofInt (-n)) else none
  | digits => do
      let n ← digitsValue digits
      if n < 2 ^ 63 then some (Int64.ofInt n) else none

def jsonParseU32 (text : ByteString) : Option UInt32 := do
  let n ← digitsValue text
  if n < 2 ^ 32 then some (UInt32.ofNat n) else none

def jsonParseDouble (chars : FloatChars) (text : ByteString) : Option UInt64 :=
  if text.isEmpty then none
  else
    match chars.fromChars text with
    | some (bits, []) => some bits
    | _ => none

def hexId : ByteString → UInt64 → Option UInt64
  | [], v => some v
  | c :: text, v => do
      let d ← JsonReader.hexValue c
      hexId text ((v <<< 4) ||| UInt64.ofNat d)

def jsonParseContentId (text : ByteString) : Option UInt64 :=
  let text := match text with
    | 0x30 :: x :: digits => if x == 0x78 || x == 0x58 then digits else text
    | _ => text
  if text.isEmpty || text.length > 16 then none else hexId text 0

def kInfinityBits : UInt64 := 0x7FF0000000000000
def kMinusInfinityBits : UInt64 := 0xFFF0000000000000

def isInf (bits : UInt64) : Bool := bits == kInfinityBits || bits == kMinusInfinityBits

/-! ## Encoding -/

namespace Raw

def jsonEncodeInt (v : Int64) : ByteString := [0x22] ++ signedDecimal v.toInt ++ [0x22]

def jsonEncodeFloat (chars : FloatChars) (bits : UInt64) : ByteString :=
  if isNaN bits then ascii "\"NaN\""
  else if isInf bits then
    if bits == kMinusInfinityBits then ascii "\"-Infinity\"" else ascii "\"Infinity\""
  else chars.toChars bits

mutual
def jsonEncodeFields (chars : FloatChars) : Value → ByteString
  | ⟨schema, slots⟩ => [0x7B] ++ jsonEncodeSlots chars schema.fields true slots ++ [0x7D]

def jsonEncodeSlots (chars : FloatChars) : List Field → (first : Bool) → List (Option Cell) → ByteString
  | _ :: fields, first, none :: slots => jsonEncodeSlots chars fields first slots
  | f :: fields, first, some c :: slots =>
      (if first then [] else [0x2C]) ++ jsonQuote f.name ++ [0x3A] ++ jsonEncodeCell chars c ++
        jsonEncodeSlots chars fields false slots
  | _, _, _ => []

def jsonEncodeCell (chars : FloatChars) : Cell → ByteString
  | .int v => jsonEncodeInt v
  | .float bits => jsonEncodeFloat chars bits
  | .text s => jsonQuote s
  | .bool b => if b then ascii "true" else ascii "false"
  | .bytes b => jsonQuote (base64Encode b)
  | .message nested => jsonEncodeFields chars nested
  | .nullMessage => ascii "null"
  | .list cells => [0x5B] ++ jsonEncodeElements chars true cells ++ [0x5D]

def jsonEncodeElements (chars : FloatChars) : (first : Bool) → List Cell → ByteString
  | _, [] => []
  | first, c :: cells =>
      (if first then [] else [0x2C]) ++ jsonEncodeCell chars c ++ jsonEncodeElements chars false cells
end

/-! ## Decoding -/

def jsonTypeName : JsonValue → ByteString
  | .null => "json:null"
  | .bool _ => "json:bool"
  | .number _ => "json:number"
  | .string _ => "json:string"
  | .array _ => "json:array"
  | .object _ => "json:object"

namespace JsonDecoder

def stop (collectAll : Bool) (errs : List Error) : Bool := !collectAll && !errs.isEmpty

/-- The cells that hold no others. -/
def scalar (chars : FloatChars) (t : TypeRef) (node : JsonValue) (path : ByteString) : Except Error Cell :=
  let mismatch : Except Error Cell := .error ⟨.typeMismatch, path, t.label, jsonTypeName node, []⟩
  let malformedAs (detail : ByteString) : Except Error Cell :=
    .error ⟨.malformedField, path, t.label, jsonTypeName node, detail⟩
  match t, node with
  | .int, .string text =>
      match jsonParseInt64 text with
      | some v => .ok (.int v)
      | none => malformedAs "not a base-10 64-bit integer"
  | .float, .number text =>
      match jsonParseDouble chars text with
      | some bits => .ok (.float bits)
      | none => malformedAs "unparseable number"
  | .float, .string text =>
      if text = ascii "NaN" then .ok (.float kCanonicalNaNBits)
      else if text = ascii "Infinity" then .ok (.float kInfinityBits)
      else if text = ascii "-Infinity" then .ok (.float kMinusInfinityBits)
      else malformedAs "not a number or NaN/Infinity token"
  | .text, .string text => if validUtf8 text then .ok (.text text) else malformedAs "invalid UTF-8"
  | .bool, .bool boolean => .ok (.bool boolean)
  | .bytes, .string text =>
      match base64Decode text with
      | some b => .ok (.bytes b)
      | none => malformedAs "invalid base64"
  | _, _ => mismatch

def record (errs : List Error) : Except Error Cell → Option Cell × List Error
  | .ok c => (some c, errs)
  | .error e => (none, errs ++ [e])

-- every member must name a declared field
def checkMembers (collectAll : Bool) (declared : List Field) (base : ByteString) :
    List (ByteString × JsonValue) → (errs : List Error) → List Error
  | [], errs => errs
  | member :: members, errs =>
      if stop collectAll errs then errs
      else if declared.any (fun f => f.name == member.1) then
        checkMembers collectAll declared base members errs
      else
        checkMembers collectAll declared base members
          (errs ++ [⟨.unknownField, fieldPath base member.1, "(a declared field)", member.1,
            "the door does not declare this field"⟩])

-- the loop over an array: `i` counts its items, `arr` has those that decoded
def items (collectAll : Bool)
    (element : JsonValue → ByteString → List Error → Option Cell × List Error) (path : ByteString) :
    List JsonValue → (i : Nat) → (arr : List Cell) → (errs : List Error) → List Cell × List Error
  | [], _, arr, errs => (arr, errs)
  | node :: nodes, i, arr, errs =>
      if stop collectAll errs then (arr, errs)
      else
        match element node (indexPath path i) errs with
        | (some c, errs) => items collectAll element path nodes (i + 1) (arr ++ [c]) errs
        | (none, errs) => items collectAll element path nodes (i + 1) arr errs

mutual
def fields (chars : FloatChars) (collectAll : Bool) (members : List (ByteString × JsonValue)) :
    Schema → (out : Value) → (base : ByteString) → (errs : List Error) → Value × List Error
  | ⟨_, _, declared⟩, out, base, errs =>
      declaredFields chars collectAll members declared out base
        (checkMembers collectAll declared base members errs)

def declaredFields (chars : FloatChars) (collectAll : Bool) (members : List (ByteString × JsonValue)) :
    List Field → (out : Value) → (base : ByteString) → (errs : List Error) → Value × List Error
  | [], out, _, errs => (out, errs)
  | ⟨name, type, _⟩ :: declared, out, base, errs =>
      if stop collectAll errs then (out, errs)
      else
        match (JsonValue.object members).find name with
        | none => declaredFields chars collectAll members declared out base errs
        | some node =>
            match cell chars collectAll type node (fieldPath base name) errs with
            | (some c, errs) =>
                -- the field comes from the schema `out` claims, so `set` finds it
                declaredFields chars collectAll members declared ((out.set name c).getD out) base errs
            | (none, errs) => declaredFields chars collectAll members declared out base errs

def cell (chars : FloatChars) (collectAll : Bool) :
    TypeRef → (node : JsonValue) → (path : ByteString) → (errs : List Error) → Option Cell × List Error
  | .message schema, node, path, errs =>
      match node with
      | .object members =>
          let (nested, errs) := fields chars collectAll members schema (.empty schema) path errs
          (some (.message nested), errs)
      | _ => (none, errs ++ [⟨.typeMismatch, path, (TypeRef.message schema).label, jsonTypeName node, []⟩])
  | .list element, node, path, errs =>
      match node with
      | .array nodes =>
          let (arr, errs) := items collectAll (cell chars collectAll element) path nodes 0 [] errs
          (some (.list arr), errs)
      | _ => (none, errs ++ [⟨.typeMismatch, path, (TypeRef.list element).label, jsonTypeName node, []⟩])
  | .int, node, path, errs => record errs (scalar chars .int node path)
  | .float, node, path, errs => record errs (scalar chars .float node path)
  | .text, node, path, errs => record errs (scalar chars .text node path)
  | .bool, node, path, errs => record errs (scalar chars .bool node path)
  | .bytes, node, path, errs => record errs (scalar chars .bytes node path)
end

theorem declaredFields_wf {chars : FloatChars} {collectAll : Bool} {members : List (ByteString × JsonValue)}
    {declared : List Field} {base : ByteString} (decoded : ∀ f ∈ declared, ∀ node path errs c,
      (cell chars collectAll f.type node path errs).1 = some c → c.wf) {out : Value} {errs : List Error}
    (wf : out.wf) : (declaredFields chars collectAll members declared out base errs).1.wf ∧
      (declaredFields chars collectAll members declared out base errs).1.schema = out.schema := by
  induction declared generalizing out errs with
  | nil => exact ⟨wf, rfl⟩
  | cons f declared ih =>
      obtain ⟨name, type, required⟩ := f
      have others := fun g hg => decoded g (List.mem_cons_of_mem _ hg)
      rw [declaredFields]
      split
      · exact ⟨wf, rfl⟩
      · split
        · exact ih others wf
        · rename_i node _
          split
          · rename_i c errs' run
            have cellWf := decoded ⟨name, type, required⟩ (by simp) node _ _ c (by rw [run])
            cases assigned : out.set name c with
            | none => exact ih others wf
            | some out' =>
                obtain ⟨wf', same⟩ := Value.set_wf wf cellWf assigned
                rw [← same]
                exact ih others wf'
          · exact ih others wf

theorem fields_wf {chars : FloatChars} {collectAll : Bool} {members : List (ByteString × JsonValue)}
    {schema : Schema} (hs : schema.wf) {base : ByteString} (decoded : ∀ f ∈ schema.fields, ∀ node path errs c,
      (cell chars collectAll f.type node path errs).1 = some c → c.wf) {errs : List Error} :
    (fields chars collectAll members schema (.empty schema) base errs).1.wf ∧
      (fields chars collectAll members schema (.empty schema) base errs).1.schema = schema := by
  obtain ⟨name, version, declared⟩ := schema
  rw [fields]
  exact declaredFields_wf decoded (Value.empty_wf hs)

theorem items_wf {collectAll : Bool} {element : JsonValue → ByteString → List Error → Option Cell × List Error}
    (decoded : ∀ node path errs c, (element node path errs).1 = some c → c.wf) {path : ByteString}
    {nodes : List JsonValue} {i : Nat} {arr : List Cell} {errs : List Error} (wf : ∀ c ∈ arr, c.wf) :
    ∀ c ∈ (items collectAll element path nodes i arr errs).1, c.wf := by
  induction nodes generalizing i arr errs with
  | nil => exact wf
  | cons node nodes ih =>
      rw [items]
      split
      · exact wf
      · split
        · rename_i c errs' run
          apply ih
          intro c' hc'
          rcases List.mem_append.mp hc' with old | new
          · exact wf c' old
          · obtain rfl := List.mem_singleton.mp new
            exact decoded node _ _ c' (by rw [run])
        · exact ih wf

theorem scalar_wf {chars : FloatChars} {t : TypeRef} {node : JsonValue} {path : ByteString} {c : Cell}
    (h : scalar chars t node path = .ok c) : c.wf := by
  unfold scalar at h
  split at h <;> repeat' split at h
  all_goals cases h
  all_goals rfl

theorem record_some {errs : List Error} {x : Except Error Cell} {c : Cell} (h : (record errs x).1 = some c) :
    x = .ok c := by
  cases x <;> cases h
  rfl

theorem cell_wf {chars : FloatChars} {collectAll : Bool} {t : TypeRef} (ht : t.wf) {node : JsonValue}
    {path : ByteString} {errs : List Error} {c : Cell}
    (h : (cell chars collectAll t node path errs).1 = some c) : c.wf := by
  induction t generalizing node path errs c with
  | int | float | text | bool | bytes =>
      rw [cell] at h
      exact scalar_wf (record_some h)
  | message schema ih =>
      rw [cell.eq_def] at h
      rw [TypeRef.wf_message] at ht
      have declared := (Schema.wf_iff.mp ht).2.2
      cases node with
      | object members =>
          cases h
          exact (fields_wf ht fun f hf _ _ _ _ hc => ih f hf (declared f hf) hc).1
      | _ => cases h
  | list element ih =>
      rw [cell.eq_def] at h
      rw [TypeRef.wf_list] at ht
      cases node with
      | array nodes =>
          cases h
          exact Cell.wf_list.mpr (items_wf (fun _ _ _ _ hc => ih ht hc) (by simp))
      | _ => cases h

end JsonDecoder
end Raw

/-! ## The persistence gate on JSON -/

theorem decodeJson_wf {chars : FloatChars} {collectAll : Bool} {door : Schema}
    {members : List (ByteString × JsonValue)} :
    (Raw.JsonDecoder.fields chars collectAll members door.raw (.empty door.raw) [] []).1.wf :=
  (Raw.JsonDecoder.fields_wf door.wf fun f hf _ _ _ _ hc =>
    Raw.JsonDecoder.cell_wf ((Raw.Schema.wf_iff.mp door.wf).2.2 f hf) hc).1

def decodeJson (chars : FloatChars) (door : Schema) (collectAll : Bool)
    (jsonFields : List (ByteString × JsonValue)) : Decoded :=
  let run := Raw.JsonDecoder.fields chars collectAll jsonFields door.raw (.empty door.raw) [] []
  ⟨⟨run.1, decodeJson_wf⟩, run.2, false⟩

/-! ## The envelope -/

namespace Compat

def kJsonEnvelopeVersion : Int64 := 1

def kMaxJsonDepth : Int := 64

def serialize (chars : FloatChars) (value : Value) : ByteString :=
  let s := value.schema
  ascii "\x7b\"zen\":" ++ signedDecimal kJsonEnvelopeVersion.toInt ++ ascii ",\"schema\":" ++ jsonQuote s.name ++
    ascii ",\"version\":" ++ decimal s.version.toNat ++ ascii ",\"content_id\":" ++
    jsonQuote (formatContentId s.contentId) ++ ascii ",\"fields\":" ++
    Raw.jsonEncodeFields chars value.raw ++ ascii "\x7d"

def envelopeMembers : List ByteString := ["zen", "schema", "version", "content_id", "fields"]

/-- The members of the `fields` object stand for the body. -/
def parse (bytes : ByteString) : Unverified (List (ByteString × JsonValue)) :=
  match parseJson bytes kMaxJsonDepth with
  | .error e => .error (malformed (ascii "not valid JSON: " ++ e))
  | .ok (.object members) =>
      let root := JsonValue.object members
      match members.find? fun member => member.1 ∉ envelopeMembers with
      | some member => .error (malformed (ascii "unknown envelope member '" ++ member.1 ++ ascii "'"))
      | none =>
      match root.find "zen" with
      | some (.number zen) =>
          if jsonParseInt64 zen ≠ some kJsonEnvelopeVersion then
            .error (malformed "unsupported envelope version")
          else
          match root.find "schema" with
          | some (.string name) =>
              match root.find "version" with
              | some (.number version) =>
                  match jsonParseU32 version with
                  | none => .error (malformed "'version' is not a 32-bit unsigned integer")
                  | some version =>
                  match root.find "fields" with
                  | some (.object fields) =>
                      match root.find "content_id" with
                      | none => .ok ⟨name, version, none, fields⟩
                      | some (.string cid) =>
                          match jsonParseContentId cid with
                          | some id => .ok ⟨name, version, some id, fields⟩
                          | none => .error (malformed "'content_id' is not a hex string")
                      | some _ => .error (malformed "'content_id' is not a hex string")
                  | _ => .error (malformed "missing or non-object 'fields'")
              | _ => .error (malformed "missing or non-numeric 'version'")
          | _ => .error (malformed "missing or non-string 'schema'")
      | _ => .error (malformed "missing or non-numeric 'zen' envelope version")
  | .ok _ => .error (malformed "top-level value is not an object")

def admitUnverified (chars : FloatChars) (unverified : Unverified (List (ByteString × JsonValue)))
    (door : Schema) (report : Report) : Admission :=
  match unverified with
  | .error e => .reject [e]
  | .ok claim => admitAgainst (decodeJson chars) claim door report.collectAll

def admitRegistry (chars : FloatChars) (unverified : Unverified (List (ByteString × JsonValue)))
    (registry : Registry) (report : Report) : Admission :=
  match unverified with
  | .error e => .reject [e]
  | .ok claim =>
      match registry.lookup claim.name claim.version with
      | none => .reject [⟨.unknownSchema, [], versionLabel claim.name claim.version, [],
          "no such schema is registered"⟩]
      | some door => admitAgainst (decodeJson chars) claim door report.collectAll

end Compat
end Zen
