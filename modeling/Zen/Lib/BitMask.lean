import Mathlib.Data.List.Basic
import Mathlib.Data.Nat.Bitwise

/-!
# Bit masks held in bytes

Bit `i` of a mask is bit `i % 8` of byte `i / 8`. Bits that lie outside the mask read as `false`.
-/

namespace Zen.Lib

def byteBit (b : UInt8) (k : Nat) : Bool := ((b.toNat >>> k) &&& 1) != 0

def maskBit (mask : List UInt8) (i : Nat) : Bool := byteBit (mask.getD (i / 8) 0) (i % 8)

def setMaskBit (mask : List UInt8) (i : Nat) : List UInt8 :=
  mask.modify (i / 8) fun b => UInt8.ofNat (b.toNat ||| (1 <<< (i % 8)))

theorem byteBit_eq (b : UInt8) (k : Nat) : byteBit b k = b.toNat.testBit k := by
  simp [byteBit, Nat.testBit, Nat.and_comm]

theorem byteBit_or (b : UInt8) {i : Nat} (hi : i < 8) (k : Nat) :
    byteBit (UInt8.ofNat (b.toNat ||| (1 <<< i))) k = (decide (i = k) || byteBit b k) := by
  have small : b.toNat ||| (1 <<< i) < 2 ^ 8 := by
    apply Nat.or_lt_two_pow b.toNat_lt
    rw [Nat.one_shiftLeft]
    exact Nat.pow_lt_pow_right (by decide) hi
  rw [byteBit_eq, byteBit_eq, UInt8.toNat_ofNat_of_lt' small, Nat.testBit_or, Nat.one_shiftLeft,
    Nat.testBit_two_pow, Bool.or_comm]

theorem byte_ext {b b' : UInt8} (h : ∀ k < 8, byteBit b k = byteBit b' k) : b = b' := by
  apply UInt8.toNat_inj.mp
  apply Nat.eq_of_testBit_eq
  intro k
  by_cases hk : k < 8
  · simpa only [byteBit_eq] using h k hk
  · have large : 2 ^ 8 ≤ 2 ^ k := Nat.pow_le_pow_right (by decide) (by omega)
    rw [Nat.testBit_lt_two_pow (b.toNat_lt.trans_le large),
      Nat.testBit_lt_two_pow (b'.toNat_lt.trans_le large)]

@[simp] theorem length_setMaskBit (mask : List UInt8) (i : Nat) :
    (setMaskBit mask i).length = mask.length := by
  simp [setMaskBit]

theorem maskBit_setMaskBit {mask : List UInt8} {i : Nat} (h : i / 8 < mask.length) (j : Nat) :
    maskBit (setMaskBit mask i) j = (decide (i = j) || maskBit mask j) := by
  unfold maskBit setMaskBit
  by_cases same : i / 8 = j / 8
  · rw [← same]
    simp only [List.getD_eq_getElem?_getD, List.getElem?_modify, ↓reduceIte,
      List.getElem?_eq_getElem h, Option.map_eq_map, Option.map_some, Option.getD_some]
    rw [byteBit_or _ (Nat.mod_lt i (by decide))]
    congr 2
    exact propext ⟨fun e => by omega, fun e => by omega⟩
  · have different : i ≠ j := fun e => same (by rw [e])
    simp [List.getD_eq_getElem?_getD, same, different]

theorem maskBit_replicate_zero (n i : Nat) : maskBit (List.replicate n 0) i = false := by
  unfold maskBit
  rw [List.getD_eq_getElem?_getD, List.getElem?_replicate]
  split <;> simp [byteBit_eq]

theorem mask_ext {mask mask' : List UInt8} (length : mask.length = mask'.length)
    (bits : ∀ i < 8 * mask.length, maskBit mask i = maskBit mask' i) : mask = mask' := by
  apply List.ext_getElem length
  intro j hj hj'
  apply byte_ext
  intro k hk
  have bit := bits (8 * j + k) (by omega)
  have index : (8 * j + k) / 8 = j := by omega
  have offset : (8 * j + k) % 8 = k := by omega
  simpa only [maskBit, index, offset, List.getD_eq_getElem?_getD, List.getElem?_eq_getElem hj,
    List.getElem?_eq_getElem hj', Option.getD_some] using bit

def markBits (mask : List UInt8) (i : Nat) : List Bool → List UInt8
  | [] => mask
  | bit :: bits => markBits (if bit then setMaskBit mask i else mask) (i + 1) bits

def packBits (bits : List Bool) : List UInt8 :=
  markBits (List.replicate ((bits.length + 7) / 8) 0) 0 bits

@[simp] theorem length_markBits (mask : List UInt8) (i : Nat) (bits : List Bool) :
    (markBits mask i bits).length = mask.length := by
  induction bits generalizing mask i with
  | nil => rfl
  | cons bit bits ih =>
      rw [markBits, ih]
      split <;> simp

theorem maskBit_markBits {mask : List UInt8} {i : Nat} {bits : List Bool}
    (room : i + bits.length ≤ 8 * mask.length) (j : Nat) :
    maskBit (markBits mask i bits) j =
      (maskBit mask j || (decide (i ≤ j) && bits.getD (j - i) false)) := by
  induction bits generalizing mask i with
  | nil => simp [markBits]
  | cons bit bits ih =>
      rw [List.length_cons] at room
      have inside : i / 8 < mask.length := by omega
      have marked : maskBit (if bit then setMaskBit mask i else mask) j =
          (maskBit mask j || (bit && decide (i = j))) := by
        cases bit with
        | true => simp [maskBit_setMaskBit inside, Bool.or_comm]
        | false => simp
      have size : (if bit then setMaskBit mask i else mask).length = mask.length := by
        split <;> simp
      rw [markBits, ih (by omega), marked, Bool.or_assoc]
      congr 1
      rcases Nat.lt_trichotomy i j with below | here | above
      · have index : j - i = (j - (i + 1)) + 1 := by omega
        simp [index, Nat.ne_of_lt below, Nat.le_of_lt below, Nat.succ_le_of_lt below]
      · subst here
        simp
      · simp [Nat.ne_of_gt above, Nat.not_le.mpr above, Nat.not_le.mpr (Nat.lt_succ_of_lt above)]

@[simp] theorem length_packBits (bits : List Bool) : (packBits bits).length = (bits.length + 7) / 8 := by
  simp [packBits]

theorem maskBit_packBits (bits : List Bool) (i : Nat) :
    maskBit (packBits bits) i = bits.getD i false := by
  rw [packBits, maskBit_markBits (by simp; omega), maskBit_replicate_zero]
  simp

theorem packBits_eq {mask : List UInt8} {bits : List Bool} (length : mask.length = (bits.length + 7) / 8)
    (same : ∀ i < 8 * mask.length, maskBit mask i = bits.getD i false) : packBits bits = mask := by
  apply mask_ext (by simpa using length.symm)
  intro i hi
  rw [maskBit_packBits, same i (by simpa [length] using hi)]

theorem and_not_low_eq_zero (b : UInt8) {n : Nat} (hn : n ≤ 8) :
    b &&& ~~~ UInt8.ofNat ((1 <<< n) - 1) = 0 ↔ ∀ k < 8, n ≤ k → byteBit b k = false := by
  have power : 2 ^ n ≤ 2 ^ 8 := Nat.pow_le_pow_right (by decide) hn
  have positive : 1 ≤ 2 ^ n := Nat.one_le_two_pow
  have small : 2 ^ n - 1 < 2 ^ 8 := by omega
  have complement : (~~~ UInt8.ofNat ((1 <<< n) - 1)).toNat = 2 ^ 8 - ((2 ^ n - 1) + 1) := by
    rw [UInt8.toNat_not, Nat.one_shiftLeft, UInt8.toNat_ofNat_of_lt' small]
    simp only [UInt8.size]
    omega
  have bits (k : Nat) : (b &&& ~~~ UInt8.ofNat ((1 <<< n) - 1)).toNat.testBit k =
      (byteBit b k && (decide (k < 8) && !decide (k < n))) := by
    rw [UInt8.toNat_and, Nat.testBit_and, complement, Nat.testBit_two_pow_sub_succ small,
      Nat.testBit_two_pow_sub_one, byteBit_eq]
  constructor
  · intro zero k hk hnk
    have bit := bits k
    rw [zero] at bit
    simpa [hk, Nat.not_lt.mpr hnk] using bit.symm
  · intro clear
    apply UInt8.toNat_inj.mp
    apply Nat.eq_of_testBit_eq
    intro k
    rw [bits]
    by_cases hk : k < 8
    · by_cases hnk : n ≤ k
      · simp [clear k hk hnk]
      · simp [Nat.lt_of_not_le hnk]
    · simp [hk]

end Zen.Lib
