import Zen.Core.Serialize
import Zen.Lib.Audit

/-!
# The cells that the native decoder builds

The decoder with an account of the cells it has decoded, nested and list cells among them: a cell is booked
when `value` gives it back. A leaf is read by the decoder itself.
-/

namespace Zen.Raw
open Lib

mutual
/-- The cells of a tree, the tree itself among them. -/
def Cell.cells : Cell → Nat
  | .message v => v.cells + 1
  | .list cells => cellsCells cells + 1
  | _ => 1

def Value.cells : Value → Nat
  | ⟨_, slots⟩ => slotsCells slots

def slotsCells : List (Option Cell) → Nat
  | [] => 0
  | none :: slots => slotsCells slots
  | some c :: slots => c.cells + slotsCells slots

def cellsCells : List Cell → Nat
  | [] => 0
  | c :: cells => c.cells + cellsCells cells
end

abbrev Counted (α : Type) := Audited Error UInt8 Nat α

namespace BinaryDecoder

mutual
def countedBody : Schema → (out : Value) → (base : ByteString) → (depth : Nat) → Counted Value
  | ⟨_, _, fields⟩, out, base, depth => do
      if depth > kMaxBinaryDepth then
        Audited.of (fail .malformedBytes base [] "maximum nesting depth exceeded")
      else
        let mask ← Audited.of (presence fields.length base)
        countedFields fields mask 0 out base depth

def countedFields : List Field → (mask : ByteString) → (i : Nat) → (out : Value) →
    (base : ByteString) → (depth : Nat) → Counted Value
  | [], _, _, out, _, _ => return out
  | ⟨name, type, _⟩ :: fields, mask, i, out, base, depth =>
      if maskBit mask i then do
        let c ← countedValue type (fieldPath base name) depth
        countedFields fields mask (i + 1) ((out.set name c).getD out) base depth
      else countedFields fields mask (i + 1) out base depth

def countedValue : TypeRef → (path : ByteString) → (depth : Nat) → Counted Cell
  | t, path, depth =>
      if depth > kMaxBinaryDepth then
        Audited.of (fail .malformedBytes path [] "maximum nesting depth exceeded")
      else Audited.booking (· + 1)
        (match t with
        | .message schema => do
            return .message (← countedBody schema (Value.empty schema) path (depth + 1))
        | .list element => do
            let label := (TypeRef.list element).label
            let count ← Audited.of (require BinReader.uvarint .malformedField path label
              "truncated or non-minimal count")
            if count.toNat > kMaxListCount then
              Audited.of (fail .malformedField path label "list count exceeds cap")
            else
              return .list (← Audited.each (fun k => countedValue element (indexPath path k) (depth + 1))
                count.toNat 0)
        | .int | .float | .text | .bool | .bytes => Audited.of (value t path depth))
end

def countedDoor (door : Zen.Schema) : Counted Value := countedBody door.raw (.empty door.raw) [] 0

/-- The cells decoded when the decoder stops. -/
def cellsDecoded (door : Zen.Schema) (bytes : ByteString) : Nat := (ended ((countedDoor door).run (bytes, 0))).2

/-- The bytes not read when the decoder stops. -/
def unread (door : Zen.Schema) (bytes : ByteString) : ByteString :=
  ended ((body door.raw (.empty door.raw) [] 0).run bytes)

end BinaryDecoder
end Zen.Raw
