import Zen.Proof.Core.Binary
import Zen.Spec.Varint

/-!
# The varint reader, step by step

Where the loop stops, and that each of its shifts is exact.
-/

namespace Zen.Proof
open Lib BinReader

theorem auditedLoop_erases (left idx shift : Nat) (result : UInt64) :
    Erases (auditedLoop left idx shift result) (uvarintLoop left idx shift result) := by
  induction left generalizing idx shift result with
  | zero => exact Erases.throw ()
  | succ left ih =>
      rw [auditedLoop, uvarintLoop]
      apply (Erases.of u8).bind
      intro b
      apply Erases.guard (Erases.throw ())
      apply Erases.book
      apply Erases.guard
      · exact Erases.guard (Erases.throw ()) (Erases.pure _)
      · exact ih (idx + 1) (shift + 7) _

theorem auditedUvarint_erases : Erases auditedUvarint uvarint := auditedLoop_erases 10 0 0 0

/-! ## Where the loop stops -/

theorem uvarintLoop_ended (left idx shift : Nat) (result : UInt64) (input : ByteString) :
    ∃ n ≤ left, ended ((uvarintLoop left idx shift result).run input) = input.drop n := by
  induction left generalizing idx shift result input with
  | zero => exact ⟨0, Nat.le_refl _, rfl⟩
  | succ left ih =>
      cases input with
      | nil => exact ⟨0, Nat.zero_le _, rfl⟩
      | cons b tail =>
          rw [uvarintLoop, bind_of_ok (show u8.run (b :: tail) = .ok b tail from rfl)]
          split
          · exact ⟨1, by omega, rfl⟩
          simp only
          split
          · split
            · exact ⟨1, by omega, rfl⟩
            · exact ⟨1, by omega, rfl⟩
          · obtain ⟨n, few, stop⟩ := ih (idx + 1) (shift + 7) _ tail
            exact ⟨n + 1, by omega, stop⟩

theorem uvarint_ended (input : ByteString) : ∃ n ≤ 10, ended (uvarint.run input) = input.drop n :=
  uvarintLoop_ended 10 0 0 0 input

/-! ## Exact shifts -/

theorem next_toNat {result : UInt64} {b : UInt8} {idx : Nat} (hr : result.toNat < 2 ^ (7 * idx)) (hi : idx ≤ 9)
    (inside : idx = 9 → b.toNat ≤ 1) :
    (Shifted.mk result (b &&& 0x7F).toUInt64 (7 * idx)).next.toNat = 2 ^ (7 * idx) * (b.toNat % 128) + result.toNat :=
  accumulate_group hr (group_fits hr hi inside) hi

theorem exact_group {result : UInt64} {b : UInt8} {idx : Nat} (hr : result.toNat < 2 ^ (7 * idx)) (hi : idx ≤ 9)
    (inside : idx = 9 → b.toNat ≤ 1) : (Shifted.mk result (b &&& 0x7F).toUInt64 (7 * idx)).Exact := by
  refine ⟨show 7 * idx < 64 by omega, ?_⟩
  rw [next_toNat hr hi inside, group_value]
  exact (Nat.add_comm _ _).trans (by rw [Nat.mul_comm])

theorem auditedLoop_exact {left idx : Nat} (count : left + idx = 10) {result : UInt64} (hr : result.toNat < 2 ^ (7 * idx))
    {input : ByteString} {before : List Shifted} (sound : ∀ x ∈ before, x.Exact) :
    ∀ x ∈ (ended ((auditedLoop left idx (7 * idx) result).run (input, before))).2, x.Exact := by
  induction left generalizing idx result input before with
  | zero => exact sound
  | succ left ih =>
      cases input with
      | nil => exact sound
      | cons b tail =>
          rw [auditedLoop, Audited.bind_ran (show (Audited.of u8).run (b :: tail, before) = .ok b (tail, before) from rfl)]
          split
          · exact sound
          · rename_i inside
            have small : idx = 9 → b.toNat ≤ 1 := by
              intro nine
              have bounded : ¬ 1 < b := by simpa [nine] using inside
              exact Nat.not_lt.mp fun large => bounded (UInt8.lt_iff_toNat_lt.mpr large)
            have now := exact_group (b := b) hr (by omega) small
            have sound' : ∀ x ∈ before ++ [⟨result, (b &&& 0x7F).toUInt64, 7 * idx⟩], x.Exact := by
              simpa [or_imp, forall_and] using ⟨sound, now⟩
            simp only
            rw [Audited.bind_ran (show (Audited.book _).run (tail, before) = .ok () (tail, _) from rfl)]
            split
            · split
              · exact sound'
              · exact sound'
            · refine ih (by omega) ?_ sound'
              rw [next_toNat hr (by omega) small]
              exact next_group_lt hr

theorem shifts_exact (input : ByteString) : ∀ x ∈ shifts input, x.Exact :=
  auditedLoop_exact (show 10 + 0 = 10 from rfl) (show (0 : UInt64).toNat < 2 ^ (7 * 0) by decide) (by simp)

/-! ## The reader -/

theorem uvarint_canonical (s : ByteString) (start : Nat) :
    (∀ (v : UInt64) (r : ByteString),
        uvarint.run (s.drop start) = .ok v r ↔ s.drop start = putUvarint v.toNat ++ r) ∧
      (∃ n ≤ 10, ended (uvarint.run (s.drop start)) = s.drop (start + n)) ∧
      Erases auditedUvarint uvarint ∧
      (∀ x ∈ shifts (s.drop start), x.shift < 64 ∧
        x.next.toNat = x.result.toNat + x.group.toNat * 2 ^ x.shift) ∧
      ∀ (n : Int64) (r : ByteString), zigzag.run (s.drop start) = .ok n r ↔ s.drop start = putZigzag n ++ r := by
  refine ⟨fun v r => uvarint_ok, ?_, auditedUvarint_erases, shifts_exact _, fun n r => zigzag_ok⟩
  obtain ⟨n, few, stop⟩ := uvarint_ended (s.drop start)
  exact ⟨n, few, by rw [stop, List.drop_drop]⟩

end Zen.Proof
