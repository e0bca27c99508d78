import Zen.Core.Native
import Zen.Core.Registry

/-!
# Serialize, parse, admit

The envelope around the native body and the persistence gate: identity, then decode, then the one
validator.
-/

namespace Zen
open Lib

def kBinMagic0 : UInt8 := 0x5A
def kBinMagic1 : UInt8 := 0x4E
def kBinFormatVersion : UInt8 := 1

def serialize (value : Value) : Except Exn ByteString :=
  let s := value.schema
  if s.name.length > 0xFFFF then
    .error (.invalidArgument "serialize: schema name exceeds 65535 bytes")
  else
    let out := putU8 kBinMagic0 ++ putU8 kBinMagic1 ++ putU8 kBinFormatVersion ++
      putU16le (UInt16.ofNat s.name.length) ++ s.name ++ putU32le s.version ++ putU64le s.contentId
    Raw.binEncodeBody value.raw out

/-- What bytes say about themselves, with a body that only a door can decode. The content id is
optional because the compat envelope may leave it out. -/
structure Claim (β : Type) where
  name : ByteString
  version : UInt32
  contentId : Option UInt64
  body : β

abbrev Unverified (β : Type) := Except Error (Claim β)

def malformed (why : ByteString) : Error := { kind := .malformedBytes, detail := why }

def parseHeader : Reader Error UInt8 (ByteString × UInt32 × UInt64) := do
  let m0 ← orThrow BinReader.u8 (malformed "truncated magic")
  let m1 ← orThrow BinReader.u8 (malformed "truncated magic")
  if m0 != kBinMagic0 || m1 != kBinMagic1 then
    throw (malformed "bad magic (not a Zen native value)")
  else do
    let ver ← orThrow BinReader.u8 (malformed "truncated format version")
    if ver != kBinFormatVersion then throw (malformed "unsupported native format version")
    else do
      let nameLen ← orThrow BinReader.u16le (malformed "truncated schema-name length")
      let name ← orThrow (BinReader.take nameLen.toNat) (malformed "truncated schema name")
      if !validUtf8 name then throw (malformed "schema name is not valid UTF-8")
      else do
        let version ← orThrow BinReader.u32le (malformed "truncated schema version")
        let contentId ← orThrow BinReader.u64le
          (malformed "truncated content id (mandatory in the native format)")
        return (name, version, contentId)

def parse (bytes : ByteString) : Unverified ByteString :=
  match parseHeader.run bytes with
  | .ok (name, version, contentId) body => .ok ⟨name, version, some contentId, body⟩
  | .error e _ => .error e

/-! ## The persistence gate -/

def hexDigit (d : UInt64) : UInt8 :=
  (ascii "0123456789abcdef").getD d.toNat 0

def formatContentId (id : UInt64) : ByteString :=
  ascii "0x" ++ (List.range 16).map fun k => hexDigit ((id >>> UInt64.ofNat (60 - 4 * k)) &&& 0xF)

def Schema.versionLabel (s : Schema) : ByteString := Zen.versionLabel s.name s.version

structure Decoded where
  candidate : Value
  errs : List Error
  fatal : Bool

/-- A fatal decode is authoritative on its own; otherwise the validator decides. -/
def finish (d : Decoded) (door : Schema) (collectAll : Bool) : Admission :=
  if d.fatal then .refuse d.errs
  else
    let verrs := Raw.validateInto d.candidate.raw door.raw collectAll
    if !collectAll then
      match d.errs, verrs with
      | e :: _, _ => .reject [e]
      | [], e :: _ => .reject [e]
      | [], [] => .accept d.candidate
    else
      let merged := d.errs ++ verrs.filter fun e => e.path ∉ d.errs.map Error.path
      if merged.isEmpty then .accept d.candidate else .refuse merged

def Value.empty (schema : Schema) : Value := ⟨.empty schema.raw, Raw.Value.empty_wf schema.wf⟩

theorem decode_wf {door : Schema} {bytes rest : ByteString} {v : Raw.Value}
    (h : (Raw.BinaryDecoder.body door.raw (.empty door.raw) [] 0).run bytes = .ok v rest) : v.wf :=
  (Raw.BinaryDecoder.body_wf door.wf
    (fun f hf _ _ _ hc => Raw.BinaryDecoder.value_wf ((Raw.Schema.wf_iff.mp door.wf).2.2 f hf) hc) h).1

def decodeNative (door : Schema) (_collectAll : Bool) (body : ByteString) : Decoded :=
  match h : (Raw.BinaryDecoder.body door.raw (.empty door.raw) [] 0).run body with
  | .ok v [] => ⟨⟨v, decode_wf h⟩, [], false⟩
  | .ok v (_ :: _) =>
      ⟨⟨v, decode_wf h⟩, [⟨.malformedBytes, [], [], "binary", "trailing bytes after the value"⟩], true⟩
  | .error e _ => ⟨Value.empty door, [e], true⟩

def admitAgainst {β : Type} (decode : Schema → Bool → β → Decoded) (claim : Claim β) (door : Schema)
    (collectAll : Bool) : Admission :=
  if claim.name ≠ door.name ∨ claim.version ≠ door.version then
    .reject [⟨.schemaMismatch, [], door.versionLabel, versionLabel claim.name claim.version,
      "the bytes claim a different schema than this door"⟩]
  else
    match claim.contentId with
    | some id =>
        if id ≠ door.contentId then
          .reject [⟨.schemaMismatch, [], formatContentId door.contentId, formatContentId id,
            "the bytes were written against a different shape of this name and version"⟩]
        else finish (decode door collectAll claim.body) door collectAll
    | none => finish (decode door collectAll claim.body) door collectAll

def admitUnverified (unverified : Unverified ByteString) (door : Schema) (report : Report) :
    Admission :=
  match unverified with
  | .error e => .reject [e]
  | .ok claim => admitAgainst decodeNative claim door report.collectAll

def admitRegistry (unverified : Unverified ByteString) (registry : Registry) (report : Report) :
    Admission :=
  match unverified with
  | .error e => .reject [e]
  | .ok claim =>
      match registry.lookup claim.name claim.version with
      | none => .reject [⟨.unknownSchema, [], versionLabel claim.name claim.version, [],
          "no such schema is registered"⟩]
      | some door => admitAgainst decodeNative claim door report.collectAll

end Zen
