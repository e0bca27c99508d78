import Mathlib.Tactic.Ring
import Zen.Core.Binary

namespace Zen.Proof
open Lib BinReader

theorem low7 (v : Nat) : v &&& 0x7F = v % 128 := Nat.and_two_pow_sub_one_eq_mod v 7

theorem continuation_byte (v : Nat) : (v &&& 0x7F) ||| 0x80 = v % 128 + 128 := by
  have small : v % 128 < 2 ^ 7 := Nat.mod_lt v (by decide)
  have disjoint := Nat.two_pow_add_eq_or_of_lt small 1
  rw [low7, Nat.or_comm, Nat.add_comm]
  exact disjoint.symm

theorem putUvarint_small {v : Nat} (h : v < 128) : putUvarint v = [UInt8.ofNat v] := by
  rw [putUvarint, if_neg (by omega)]

theorem putUvarint_large {v : Nat} (h : 128 ≤ v) :
    putUvarint v = UInt8.ofNat (v % 128 + 128) :: putUvarint (v / 128) := by
  rw [putUvarint, if_pos h, continuation_byte, Nat.shiftRight_eq_div_pow]

theorem putUvarint_append_eq_cons {v : Nat} {rest tail : ByteString} {b : UInt8} :
    putUvarint v ++ rest = b :: tail ↔
      (b.toNat < 128 ∧ v = b.toNat ∧ rest = tail) ∨
      (128 ≤ b.toNat ∧ 128 ≤ v ∧ v % 128 = b.toNat - 128 ∧ putUvarint (v / 128) ++ rest = tail) := by
  have bound := b.toNat_lt
  by_cases h : v < 128
  · have byte : (UInt8.ofNat v).toNat = v := UInt8.toNat_ofNat_of_lt' (by simp only [UInt8.size]; omega)
    rw [putUvarint_small h, List.singleton_append, List.cons.injEq, ← UInt8.toNat_inj, byte]
    constructor
    · rintro ⟨same, rfl⟩
      exact Or.inl ⟨by omega, same, rfl⟩
    · rintro (⟨_, same, rfl⟩ | ⟨_, large, _⟩)
      · exact ⟨same, rfl⟩
      · omega
  · have byte : (UInt8.ofNat (v % 128 + 128)).toNat = v % 128 + 128 :=
      UInt8.toNat_ofNat_of_lt' (by simp only [UInt8.size]; omega)
    rw [putUvarint_large (by omega), List.cons_append, List.cons.injEq, ← UInt8.toNat_inj, byte]
    constructor
    · rintro ⟨same, rfl⟩
      exact Or.inr ⟨by omega, by omega, by omega, rfl⟩
    · rintro (⟨small, same, _⟩ | ⟨_, _, same, rfl⟩)
      · omega
      · exact ⟨by omega, rfl⟩

theorem putUvarint_ne_nil (v : Nat) : putUvarint v ≠ [] := by
  by_cases h : v < 128
  · simp [putUvarint_small h]
  · simp [putUvarint_large (Nat.le_of_not_lt h)]

/-! ## The reader -/

theorem high_bit_clear (b : UInt8) : (b &&& 0x80 == 0) = decide (b.toNat < 128) := by
  have bit := Nat.and_two_pow b.toNat 7
  have value : (b &&& 0x80).toNat = b.toNat &&& 2 ^ 7 := UInt8.toNat_and b 0x80
  have bound := b.toNat_lt
  rw [Bool.eq_iff_iff, beq_iff_eq, decide_eq_true_eq, ← UInt8.toNat_inj, value, bit]
  rw [Nat.testBit_eq_decide_div_mod_eq]
  simp only [UInt8.toNat_zero]
  by_cases h : b.toNat < 128
  · have digit : b.toNat / 128 % 2 = 0 := by omega
    simp [digit, h]
  · have digit : b.toNat / 128 % 2 = 1 := by omega
    simp [digit, h]

theorem group_value (b : UInt8) : (b &&& 0x7F).toUInt64.toNat = b.toNat % 128 := by
  rw [UInt8.toNat_toUInt64, UInt8.toNat_and]
  exact low7 b.toNat

-- one group lands above everything read so far, and nothing is shifted out
theorem accumulate_group {result : UInt64} {b : UInt8} {idx : Nat} (hr : result.toNat < 2 ^ (7 * idx))
    (fits : 2 ^ (7 * idx) * (b.toNat % 128) + result.toNat < 2 ^ 64) (hi : idx ≤ 9) :
    (result ||| ((b &&& 0x7F).toUInt64 <<< UInt64.ofNat (7 * idx))).toNat =
      2 ^ (7 * idx) * (b.toNat % 128) + result.toNat := by
  have shift : (UInt64.ofNat (7 * idx)).toNat % 64 = 7 * idx := by
    rw [UInt64.toNat_ofNat_of_lt' (by simp only [UInt64.size]; omega)]
    omega
  have shifted : (b.toNat % 128) * 2 ^ (7 * idx) < 2 ^ 64 := by
    rw [Nat.mul_comm]
    omega
  rw [UInt64.toNat_or, UInt64.toNat_shiftLeft, group_value, shift, Nat.shiftLeft_eq,
    Nat.mod_eq_of_lt shifted, Nat.or_comm, Nat.mul_comm (b.toNat % 128),
    ← Nat.two_pow_add_eq_or_of_lt hr]

theorem group_fits {result : Nat} {b idx : Nat} (hr : result < 2 ^ (7 * idx)) (hi : idx ≤ 9)
    (last : idx = 9 → b ≤ 1) : 2 ^ (7 * idx) * (b % 128) + result < 2 ^ 64 := by
  by_cases h9 : idx = 9
  · subst h9
    have := last rfl
    have : b % 128 ≤ 1 := by omega
    omega
  · have power : 2 ^ (7 * idx) ≤ 2 ^ 56 := Nat.pow_le_pow_right (by decide) (by omega)
    have small : b % 128 ≤ 127 := by omega
    calc 2 ^ (7 * idx) * (b % 128) + result < 2 ^ (7 * idx) * (b % 128) + 2 ^ (7 * idx) := by omega
      _ = 2 ^ (7 * idx) * (b % 128 + 1) := by ring
      _ ≤ 2 ^ 56 * 128 := Nat.mul_le_mul power (by omega)
      _ < 2 ^ 64 := by decide

theorem pow_next_group (idx : Nat) : 2 ^ (7 * (idx + 1)) = 2 ^ (7 * idx) * 128 := by
  rw [Nat.mul_succ, Nat.pow_add]

theorem next_group_lt {result b idx : Nat} (hr : result < 2 ^ (7 * idx)) :
    2 ^ (7 * idx) * (b % 128) + result < 2 ^ (7 * (idx + 1)) := by
  have small : b % 128 < 128 := Nat.mod_lt b (by decide)
  calc 2 ^ (7 * idx) * (b % 128) + result
      < 2 ^ (7 * idx) * (b % 128) + 2 ^ (7 * idx) := by omega
    _ = 2 ^ (7 * idx) * (b % 128 + 1) := by ring
    _ ≤ 2 ^ (7 * idx) * 128 := Nat.mul_le_mul_left _ small
    _ = 2 ^ (7 * (idx + 1)) := (pow_next_group idx).symm

/-- With `idx` groups read, worth `result`, what is left of `input` up to `rest` makes `v` of them. -/
def Completes (idx result : Nat) (input rest : ByteString) (v : Nat) : Prop :=
  ∃ w, input = putUvarint w ++ rest ∧ v = 2 ^ (7 * idx) * w + result ∧ (0 < idx → w ≠ 0)

theorem completes_nil {idx result v : Nat} {rest : ByteString} : ¬ Completes idx result [] rest v := by
  rintro ⟨w, empty, _⟩
  exact absurd empty.symm (by simp [putUvarint_ne_nil])

theorem completes_last {idx result v : Nat} {b : UInt8} {tail rest : ByteString} (final : b.toNat < 128) :
    Completes idx result (b :: tail) rest v ↔
      2 ^ (7 * idx) * b.toNat + result = v ∧ tail = rest ∧ ¬ (0 < idx ∧ b.toNat = 0) := by
  constructor
  · rintro ⟨w, bytes, value, positive⟩
    rcases putUvarint_append_eq_cons.mp bytes.symm with ⟨_, rfl, rfl⟩ | ⟨high, _⟩
    · exact ⟨value.symm, rfl, fun slack => positive slack.1 slack.2⟩
    · omega
  · rintro ⟨value, rfl, minimal⟩
    refine ⟨b.toNat, ?_, value.symm, fun later zero => minimal ⟨later, zero⟩⟩
    exact (putUvarint_append_eq_cons.mpr (Or.inl ⟨final, rfl, rfl⟩)).symm

theorem completes_more {idx result v : Nat} {b : UInt8} {tail rest : ByteString} (more : ¬ b.toNat < 128) :
    Completes idx result (b :: tail) rest v ↔
      Completes (idx + 1) (2 ^ (7 * idx) * (b.toNat % 128) + result) tail rest v := by
  have bBound := b.toNat_lt
  rw [Completes, Completes, pow_next_group]
  constructor
  · rintro ⟨w, bytes, total, _⟩
    rcases putUvarint_append_eq_cons.mp bytes.symm with ⟨low, _⟩ | ⟨_, wide, digit, rfl⟩
    · omega
    · refine ⟨w / 128, rfl, ?_, fun _ => by omega⟩
      have split : w = 128 * (w / 128) + b.toNat % 128 := by omega
      rw [total]
      nth_rewrite 1 [split]
      ring
  · rintro ⟨w, rfl, total, positive⟩
    have nonzero := positive (Nat.succ_pos idx)
    refine ⟨128 * w + b.toNat % 128, ?_, ?_, fun _ => by omega⟩
    · refine (putUvarint_append_eq_cons.mpr (Or.inr ⟨by omega, by omega, by omega, ?_⟩)).symm
      rw [show (128 * w + b.toNat % 128) / 128 = w by omega]
    · rw [total]
      ring

-- nine groups hold 63 bits, so the tenth is 0 or 1 and there is no eleventh
theorem completes_tenth {result v : Nat} {b : UInt8} {tail rest : ByteString} (bound : v < 2 ^ 64)
    (h : Completes 9 result (b :: tail) rest v) : b.toNat ≤ 1 := by
  obtain ⟨w, bytes, value, _⟩ := h
  rcases putUvarint_append_eq_cons.mp bytes.symm with ⟨_, same, _⟩ | ⟨_, wide, _⟩ <;> omega

theorem completes_eleventh {result v : Nat} {input rest : ByteString} (bound : v < 2 ^ 64) :
    ¬ Completes 10 result input rest v := by
  rintro ⟨w, _, value, positive⟩
  have : 1 ≤ w := Nat.one_le_iff_ne_zero.mpr (positive (by omega))
  omega

theorem uvarintLoop_ok {left idx : Nat} (count : left + idx = 10) {result : UInt64}
    (hr : result.toNat < 2 ^ (7 * idx)) {input rest : ByteString} {v : UInt64} :
    (uvarintLoop left idx (7 * idx) result).run input = .ok v rest ↔
      Completes idx result.toNat input rest v.toNat := by
  have vBound := v.toNat_lt
  induction left generalizing idx result input with
  | zero =>
      have ten : idx = 10 := by omega
      subst ten
      exact iff_of_false (by intro h; cases h) (completes_eleventh vBound)
  | succ left ih =>
      cases input with
      | nil => exact iff_of_false (by intro h; cases h) completes_nil
      | cons b tail =>
          have hi : idx ≤ 9 := by omega
          have overflow : (idx == 9 && b > 0x01) = decide (idx = 9 ∧ 1 < b.toNat) := by
            rw [Bool.eq_iff_iff]
            simp only [Bool.and_eq_true, beq_iff_eq, decide_eq_true_eq, gt_iff_lt]
            exact Iff.rfl
          rw [uvarintLoop, bind_of_ok (show u8.run (b :: tail) = .ok b tail from rfl)]
          simp only [overflow, high_bit_clear, decide_eq_true_eq]
          by_cases tooBig : idx = 9 ∧ 1 < b.toNat
          · obtain ⟨rfl, large⟩ := tooBig
            rw [if_pos ⟨rfl, large⟩]
            exact iff_of_false (by intro h; cases h)
              fun h => absurd (completes_tenth vBound h) (Nat.not_le_of_lt large)
          · rw [if_neg tooBig]
            have fits := group_fits hr hi (b := b.toNat) (fun nine => by omega)
            have value := accumulate_group hr fits hi
            by_cases final : b.toNat < 128
            · rw [if_pos final, completes_last final]
              have zero : (idx > 0 && b == 0) = decide (0 < idx ∧ b.toNat = 0) := by
                rw [Bool.eq_iff_iff]
                simp [← UInt8.toNat_inj]
              simp only [zero, decide_eq_true_eq]
              rw [Nat.mod_eq_of_lt final] at value
              by_cases slack : 0 < idx ∧ b.toNat = 0
              · rw [if_pos slack]
                exact iff_of_false (by intro h; cases h) fun h => h.2.2 slack
              · rw [if_neg slack, pure_eq_ok, ← UInt64.toNat_inj, value]
                exact ⟨fun h => ⟨h.1, h.2, slack⟩, fun h => ⟨h.1, h.2.1⟩⟩
            · rw [if_neg final, completes_more final, ← value, show 7 * idx + 7 = 7 * (idx + 1) by ring]
              refine ih (by omega) ?_
              rw [value]
              exact next_group_lt hr

theorem uvarint_ok {input rest : ByteString} {v : UInt64} :
    uvarint.run input = .ok v rest ↔ input = putUvarint v.toNat ++ rest := by
  rw [uvarint, show (0 : Nat) = 7 * 0 from rfl, uvarintLoop_ok (by omega) (by simp)]
  constructor
  · rintro ⟨w, rfl, value, _⟩
    have same : w = v.toNat := by simpa using value.symm
    rw [same]
  · intro bytes
    exact ⟨v.toNat, bytes, by simp, by simp⟩

end Zen.Proof
