import Zen.Core.Compat
import Zen.Spec.Json
import Zen.Spec.Native

/-!
# What a JSON document says

`Denotes` relates a node of a document to the cell it stands for. The rest says which values the
compat format can carry: texts that are UTF-8 and nesting within the reader's limit, on a library
whose doubles read back (`FloatChars.RoundTrips`).
-/

namespace Zen

open Spec.Json in
def Spec.Json.Digits.value (ds : Digits) : Nat := (ds.first :: ds.rest).foldl (fun n d => n * 10 + d.val) 0

open Spec.Json in
/-- A decimal text of a 64-bit integer: digits with an optional minus sign. -/
def DecimalInt64 (text : ByteString) (v : Int64) : Prop :=
  ∃ (minus : Bool) (ds : Digits), text = (if minus then [0x2D] else []) ++ ds.spell ∧
    v.toInt = if minus then -(ds.value : Int) else ds.value

namespace Raw

inductive FloatDenotes (chars : FloatChars) : JsonValue → UInt64 → Prop where
  | number {text : ByteString} {bits : UInt64} (read : jsonParseDouble chars text = some bits) :
      FloatDenotes chars (.number text) bits
  | nan : FloatDenotes chars (.string "NaN") kCanonicalNaNBits
  | infinity : FloatDenotes chars (.string "Infinity") kInfinityBits
  | minusInfinity : FloatDenotes chars (.string "-Infinity") kMinusInfinityBits

mutual
def Denotes (chars : FloatChars) : TypeRef → JsonValue → Cell → Prop
  | .int, node, c => ∃ text v, node = .string text ∧ c = .int v ∧ DecimalInt64 text v
  | .float, node, c => ∃ bits, c = .float bits ∧ FloatDenotes chars node bits
  | .text, node, c => ∃ text, node = .string text ∧ c = .text text ∧ validUtf8 text
  | .bool, node, c => ∃ b, node = .bool b ∧ c = .bool b
  | .bytes, node, c => ∃ b, node = .string (base64Encode b) ∧ c = .bytes b
  | .message schema, node, c => ∃ members nested, node = .object members ∧ c = .message nested ∧
      nested.schema = schema ∧ ObjectDenotes chars schema members nested
  | .list element, node, c => ∃ nodes cells, node = .array nodes ∧ c = .list cells ∧
      List.Forall₂ (fun node c => Denotes chars element node c) nodes cells

/-- The members are the present fields: none is unknown, none is dropped and none comes twice. -/
def ObjectDenotes (chars : FloatChars) : Schema → List (ByteString × JsonValue) → Value → Prop
  | ⟨_, _, fields⟩, members, v => (members.map Prod.fst).Nodup ∧
      (∀ member ∈ members, (v.get member.1).isSome) ∧ MembersDenote chars fields members v

def MembersDenote (chars : FloatChars) : List Field → List (ByteString × JsonValue) → Value → Prop
  | [], _, _ => True
  | ⟨name, type, _⟩ :: fields, members, v =>
      (∀ c, v.get name = some c → ∃ node, (name, node) ∈ members ∧ Denotes chars type node c) ∧
        MembersDenote chars fields members v
end

/-! ## Values the format carries -/

mutual
def Cell.levels : Cell → Nat
  | .message v => v.levels
  | .list cells => 1 + cellLevels cells
  | _ => 0

/-- How deep the JSON of a value nests. -/
def Value.levels : Value → Nat
  | ⟨_, slots⟩ => 1 + slotLevels slots

def slotLevels : List (Option Cell) → Nat
  | [] => 0
  | none :: slots => slotLevels slots
  | some c :: slots => max c.levels (slotLevels slots)

def cellLevels : List Cell → Nat
  | [] => 0
  | c :: cells => max c.levels (cellLevels cells)
end

mutual
def Cell.textsValid : Cell → Bool
  | .text s => validUtf8 s
  | .message v => v.textsValid
  | .list cells => cellTextsValid cells
  | _ => true

def Value.textsValid : Value → Bool
  | ⟨_, slots⟩ => slotTextsValid slots

def slotTextsValid : List (Option Cell) → Bool
  | [] => true
  | none :: slots => slotTextsValid slots
  | some c :: slots => c.textsValid && slotTextsValid slots

def cellTextsValid : List Cell → Bool
  | [] => true
  | c :: cells => c.textsValid && cellTextsValid cells
end

end Raw

def isFinite (bits : UInt64) : Bool := !isNaN bits && !isInf bits

/-- Doubles are written as JSON numbers and read back. -/
structure FloatChars.RoundTrips (chars : FloatChars) : Prop where
  number : ∀ bits, isFinite bits = true → ∃ n : Spec.Json.Number, chars.toChars bits = n.spell
  reads : ∀ bits, isFinite bits = true → chars.fromChars (chars.toChars bits) = some (bits, [])

end Zen
