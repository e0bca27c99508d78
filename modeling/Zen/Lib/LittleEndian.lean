import Zen.Lib.BitMask

/-!
# Little-endian numbers

`putLe n v` writes the low `n` bytes of `v`, lowest first; `readLe` reads a byte string of any
length back. Bit `i` of the number is bit `i` of the bytes taken as a mask.
-/

namespace Zen.Lib

def putLe (n v : Nat) : List UInt8 :=
  (List.range n).map fun b => UInt8.ofNat ((v >>> (8 * b)) &&& 0xFF)

def readLe (bytes : List UInt8) : Nat :=
  bytes.zipIdx.foldl (fun v x => v ||| (x.1.toNat <<< (8 * x.2))) 0

@[simp] theorem length_putLe (n v : Nat) : (putLe n v).length = n := by
  simp [putLe]

theorem maskBit_putLe (n v : Nat) {i : Nat} (hi : i < 8 * n) :
    maskBit (putLe n v) i = v.testBit i := by
  have index : i / 8 < n := by omega
  have small : (v >>> (8 * (i / 8))) &&& 0xFF < 2 ^ 8 :=
    (Nat.and_le_right).trans_lt (by decide)
  have low : Nat.testBit 0xFF (i % 8) = true := by
    rw [show 0xFF = 2 ^ 8 - 1 by rfl, Nat.testBit_two_pow_sub_one]
    simpa using Nat.mod_lt i (by decide)
  unfold maskBit putLe
  rw [List.getD_eq_getElem?_getD, List.getElem?_map, List.getElem?_range index, Option.map_some,
    Option.getD_some, byteBit_eq, UInt8.toNat_ofNat_of_lt' small, Nat.testBit_and, low,
    Bool.and_true, Nat.testBit_shiftRight, Nat.div_add_mod]

theorem maskBit_cons (b : UInt8) (bytes : List UInt8) (i : Nat) :
    maskBit (b :: bytes) i = if i < 8 then byteBit b i else maskBit bytes (i - 8) := by
  unfold maskBit
  split
  · rename_i hi
    rw [Nat.div_eq_of_lt hi, Nat.mod_eq_of_lt hi]
    rfl
  · have index : i / 8 = (i - 8) / 8 + 1 := by omega
    have offset : i % 8 = (i - 8) % 8 := by omega
    rw [index, offset]
    rfl

private theorem testBit_readLe_from (bytes : List UInt8) (acc k i : Nat) :
    ((bytes.zipIdx k).foldl (fun v x => v ||| (x.1.toNat <<< (8 * x.2))) acc).testBit i =
      (acc.testBit i || (decide (8 * k ≤ i) && maskBit bytes (i - 8 * k))) := by
  induction bytes generalizing acc k with
  | nil => simp [maskBit, byteBit]
  | cons b bytes ih =>
      rw [List.zipIdx_cons, List.foldl_cons, ih, Nat.testBit_or, Nat.testBit_shiftLeft,
        maskBit_cons, byteBit_eq, Bool.or_assoc]
      congr 1
      by_cases below : 8 * k ≤ i
      · by_cases here : i - 8 * k < 8
        · have next : ¬ 8 * (k + 1) ≤ i := by omega
          simp [below, here, next]
        · have next : 8 * (k + 1) ≤ i := by omega
          have large : 2 ^ 8 ≤ 2 ^ (i - 8 * k) := Nat.pow_le_pow_right (by decide) (by omega)
          have zero := Nat.testBit_lt_two_pow (b.toNat_lt.trans_le large)
          have index : i - 8 * (k + 1) = i - 8 * k - 8 := by omega
          simp [below, here, next, zero, index]
      · have next : ¬ 8 * (k + 1) ≤ i := by omega
        simp [below, next]

theorem testBit_readLe (bytes : List UInt8) (i : Nat) :
    (readLe bytes).testBit i = maskBit bytes i := by
  simpa [readLe] using testBit_readLe_from bytes 0 0 i

theorem maskBit_of_length_le {bytes : List UInt8} {i : Nat} (h : 8 * bytes.length ≤ i) :
    maskBit bytes i = false := by
  have index : bytes.length ≤ i / 8 := by omega
  rw [maskBit, List.getD_eq_getElem?_getD, List.getElem?_eq_none index]
  simp [byteBit]

theorem readLe_lt (bytes : List UInt8) : readLe bytes < 2 ^ (8 * bytes.length) := by
  apply Nat.lt_pow_two_of_testBit
  intro i hi
  rw [testBit_readLe, maskBit_of_length_le hi]

theorem readLe_putLe {n v : Nat} (h : v < 2 ^ (8 * n)) : readLe (putLe n v) = v := by
  apply Nat.eq_of_testBit_eq
  intro i
  rw [testBit_readLe]
  by_cases hi : i < 8 * n
  · exact maskBit_putLe n v hi
  · have large : 2 ^ (8 * n) ≤ 2 ^ i := Nat.pow_le_pow_right (by decide) (by omega)
    rw [maskBit_of_length_le (by simpa using Nat.le_of_not_lt hi),
      Nat.testBit_lt_two_pow (h.trans_le large)]

theorem putLe_readLe (bytes : List UInt8) : putLe bytes.length (readLe bytes) = bytes := by
  apply mask_ext (length_putLe _ _)
  intro i hi
  rw [length_putLe] at hi
  rw [maskBit_putLe _ _ hi, testBit_readLe]

end Zen.Lib
