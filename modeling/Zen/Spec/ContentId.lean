import Zen.Core.Schema
import Zen.Lib.LittleEndian

/-!
# What a content id says

The bytes that the hash of a schema is fed, and the normal form that they spell: a nested schema
stands in it as its content id.
-/

namespace Zen.Raw
open Lib

/-! ## The bytes -/

def u64Fed (v : UInt64) : ByteString := putLe 8 v.toNat

def textFed (s : ByteString) : ByteString := u64Fed s.length.toUInt64 ++ s

def TypeRef.fed : TypeRef → ByteString
  | .message schema => Kind.message.code :: u64Fed schema.contentId
  | .list element => Kind.list.code :: element.fed
  | t => [t.kind.code]

def Field.fed (f : Field) : ByteString := textFed f.name ++ [if f.required then 1 else 0] ++ f.type.fed

def Schema.fed (s : Schema) : ByteString :=
  textFed s.name ++ u64Fed s.version.toUInt64 ++ u64Fed s.fields.length.toUInt64 ++ s.fields.flatMap Field.fed

/-! ## The normal form -/

inductive NormalType where
  | int | float | text | bool | bytes
  | message (id : UInt64)
  | list (element : NormalType)

structure NormalField where
  name : ByteString
  required : Bool
  type : NormalType

structure NormalSchema where
  name : ByteString
  version : UInt32
  fields : List NormalField

def TypeRef.normal : TypeRef → NormalType
  | .int => .int
  | .float => .float
  | .text => .text
  | .bool => .bool
  | .bytes => .bytes
  | .message schema => .message schema.contentId
  | .list element => .list element.normal

def Field.normal (f : Field) : NormalField := ⟨f.name, f.required, f.type.normal⟩

def Schema.normal (s : Schema) : NormalSchema := ⟨s.name, s.version, s.fields.map Field.normal⟩

/-- Sizes are within a `std::size_t` of 64 bits. -/
structure Schema.Sized (s : Schema) : Prop where
  name : s.name.length < 2 ^ 64
  fields : s.fields.length < 2 ^ 64
  names : ∀ f ∈ s.fields, f.name.length < 2 ^ 64

end Zen.Raw
