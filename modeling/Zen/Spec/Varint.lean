import Zen.Core.Binary
import Zen.Lib.Audit

/-!
# The loop of the varint reader

The loop with an account of the groups that it shifts into its result.
-/

namespace Zen
open Lib

/-- One `result |= group << shift`. -/
structure Shifted where
  result : UInt64
  group : UInt64
  shift : Nat

namespace Shifted

def next (x : Shifted) : UInt64 := x.result ||| (x.group <<< UInt64.ofNat x.shift)

/-- The shift is defined, and the group arrives whole and clear of the groups before it. -/
def Exact (x : Shifted) : Prop :=
  x.shift < 64 ∧ x.next.toNat = x.result.toNat + x.group.toNat * 2 ^ x.shift

end Shifted

namespace BinReader

def auditedLoop : (left idx shift : Nat) → (result : UInt64) → Audited Unit UInt8 (List Shifted) UInt64
  | 0, _, _, _ => throw ()
  | left + 1, idx, shift, result => do
    let b ← Audited.of u8
    if idx == 9 && b > 0x01 then throw ()
    else
      let shifted : Shifted := ⟨result, (b &&& 0x7F).toUInt64, shift⟩
      Audited.book (· ++ [shifted])
      if b &&& 0x80 == 0 then
        if idx > 0 && b == 0 then throw () else return shifted.next
      else auditedLoop left (idx + 1) (shift + 7) shifted.next

def auditedUvarint : Audited Unit UInt8 (List Shifted) UInt64 := auditedLoop 10 0 0 0

/-- What `uvarint` shifts in, up to where it stops. -/
def shifts (input : ByteString) : List Shifted := (ended (auditedUvarint.run (input, []))).2

end BinReader
end Zen
