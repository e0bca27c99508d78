import Zen.Core.Bytes
import Zen.Lib.LittleEndian
import Zen.Lib.Reader

/-!
# Binary primitives

Writers give the bytes they append; sizes are natural numbers, since no string or vector reaches
2^64 elements. The state of a `BinReader` is the input that it has not read yet, which it keeps
when a read fails.
-/

namespace Zen
open Lib

def kMaxBinaryDepth : Nat := 64
def kMaxListCount : Nat := 1 <<< 20
def kMaxFieldBytes : Nat := 1 <<< 28
def kCanonicalNaNBits : UInt64 := 0x7FF8000000000000

def putU8 (v : UInt8) : ByteString := [v]
def putU16le (v : UInt16) : ByteString := putLe 2 v.toNat
def putU32le (v : UInt32) : ByteString := putLe 4 v.toNat
def putU64le (v : UInt64) : ByteString := putLe 8 v.toNat

def isNaN (bits : UInt64) : Bool :=
  bits &&& 0x7FF0000000000000 == 0x7FF0000000000000 && bits &&& 0x000FFFFFFFFFFFFF != 0

def canonicalBits (bits : UInt64) : UInt64 := if isNaN bits then kCanonicalNaNBits else bits

def putF64le (bits : UInt64) : ByteString := putU64le (canonicalBits bits)

def putUvarint (v : Nat) : ByteString :=
  if 0x80 ≤ v then UInt8.ofNat ((v &&& 0x7F) ||| 0x80) :: putUvarint (v >>> 7)
  else [UInt8.ofNat v]
termination_by v
decreasing_by
  rw [Nat.shiftRight_eq_div_pow]
  omega

def zigzagOf (v : Int64) : UInt64 :=
  let sign : UInt64 := if v < 0 then ~~~ 0 else 0
  (v.toUInt64 <<< 1) ^^^ sign

def putZigzag (v : Int64) : ByteString := putUvarint (zigzagOf v).toNat

abbrev BinReader (α : Type) := Reader Unit UInt8 α

namespace BinReader

def fail {α : Type} : BinReader α := fun input => .error () input

def u8 : BinReader UInt8
  | [] => .error () []
  | b :: rest => .ok b rest

def take (count : Nat) : BinReader ByteString := fun input =>
  if input.length < count then .error () input else .ok (input.take count) (input.drop count)

def u16le : BinReader UInt16 := do return UInt16.ofNat (readLe (← take 2))
def u32le : BinReader UInt32 := do return UInt32.ofNat (readLe (← take 4))
def u64le : BinReader UInt64 := do return UInt64.ofNat (readLe (← take 8))

def f64le : BinReader UInt64 := do
  let bits ← u64le
  if isNaN bits && bits != kCanonicalNaNBits then fail else return bits

-- `left` counts down while `idx` counts up to ten
def uvarintLoop : (left idx shift : Nat) → (result : UInt64) → BinReader UInt64
  | 0, _, _, _ => fail
  | left + 1, idx, shift, result => do
    let b ← u8
    if idx == 9 && b > 0x01 then fail
    else
      let result := result ||| ((b &&& 0x7F).toUInt64 <<< UInt64.ofNat shift)
      if b &&& 0x80 == 0 then
        if idx > 0 && b == 0 then fail else return result
      else uvarintLoop left (idx + 1) (shift + 7) result

def uvarint : BinReader UInt64 := uvarintLoop 10 0 0 0

def unzigzag (zz : UInt64) : Int64 :=
  let mag := zz >>> 1
  let neg := ~~~ (zz &&& 1) + 1
  (mag ^^^ neg).toInt64

def zigzag : BinReader Int64 := do return unzigzag (← uvarint)

end BinReader

end Zen
