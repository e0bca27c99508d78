import Zen.Proof.Core.Varint

/-!
# The primitive readers invert the primitive writers

Each reader accepts exactly what its writer puts: the reading of an input as a number and a rest
is unique, so no number has two encodings.
-/

namespace Zen.Proof
open Lib BinReader

/-! ## Zigzag -/

theorem xor_ones (x : UInt64) : x ^^^ ~~~ 0 = ~~~ x := by
  apply UInt64.toBitVec_inj.mp
  simp

theorem low_bit (zz : UInt64) : (zz &&& 1).toNat = zz.toNat % 2 := by
  rw [UInt64.toNat_and]
  exact Nat.and_one_is_mod _

theorem negate_low_bit (zz : UInt64) :
    ~~~ (zz &&& 1) + 1 = if zz.toNat % 2 = 1 then ~~~ 0 else 0 := by
  by_cases odd : zz.toNat % 2 = 1
  · have one : zz &&& 1 = 1 := UInt64.toNat_inj.mp (by rw [low_bit, odd]; rfl)
    rw [one, if_pos odd]
    rfl
  · have zero : zz &&& 1 = 0 := UInt64.toNat_inj.mp (by
      rw [low_bit, show zz.toNat % 2 = 0 by omega]
      rfl)
    rw [zero, if_neg odd]
    rfl

theorem unzigzag_toNat (zz : UInt64) : (unzigzag zz).toUInt64.toNat =
    if zz.toNat % 2 = 1 then 2 ^ 64 - 1 - zz.toNat / 2 else zz.toNat / 2 := by
  have half : (zz >>> 1).toNat = zz.toNat / 2 := by
    rw [UInt64.toNat_shiftRight]
    exact Nat.shiftRight_eq_div_pow _ 1
  rw [show (unzigzag zz).toUInt64 = (zz >>> 1) ^^^ (~~~ (zz &&& 1) + 1) from rfl, negate_low_bit]
  split
  · rw [xor_ones, UInt64.toNat_not, half]
    rfl
  · rw [UInt64.xor_zero, half]

theorem negative_iff (v : Int64) : v < 0 ↔ 2 ^ 63 ≤ v.toUInt64.toNat := by
  rw [Int64.lt_iff_toBitVec_slt, Int64.toBitVec_zero, BitVec.slt_zero_eq_msb,
    BitVec.msb_eq_decide, decide_eq_true_eq]
  rfl

theorem zigzagOf_toNat (v : Int64) : (zigzagOf v).toNat =
    if 2 ^ 63 ≤ v.toUInt64.toNat then 2 ^ 65 - 1 - 2 * v.toUInt64.toNat
    else 2 * v.toUInt64.toNat := by
  have bound := v.toUInt64.toNat_lt
  have double : (v.toUInt64 <<< 1).toNat = v.toUInt64.toNat * 2 % 2 ^ 64 := by
    rw [UInt64.toNat_shiftLeft]
    exact congrArg (· % 2 ^ 64) (Nat.shiftLeft_eq _ 1)
  simp only [zigzagOf, negative_iff]
  split
  · rw [xor_ones, UInt64.toNat_not, double]
    simp only [UInt64.size]
    omega
  · rw [UInt64.xor_zero, double]
    omega

theorem unzigzag_zigzagOf (v : Int64) : unzigzag (zigzagOf v) = v := by
  have bits : (unzigzag (zigzagOf v)).toUInt64 = v.toUInt64 → unzigzag (zigzagOf v) = v :=
    fun same => congrArg Int64.ofUInt64 same
  apply bits
  apply UInt64.toNat_inj.mp
  have bound := v.toUInt64.toNat_lt
  rw [unzigzag_toNat, zigzagOf_toNat]
  split <;> split <;> omega

theorem zigzagOf_unzigzag (zz : UInt64) : zigzagOf (unzigzag zz) = zz := by
  apply UInt64.toNat_inj.mp
  have bound := zz.toNat_lt
  rw [zigzagOf_toNat, unzigzag_toNat]
  split <;> split <;> omega
/-! ## Readers -/

theorem u8_ok {input rest : ByteString} {b : UInt8} :
    u8.run input = .ok b rest ↔ input = putU8 b ++ rest := by
  cases input with
  | nil => simp [u8, EStateM.run, putU8]
  | cons a tail => simp [u8, EStateM.run, putU8]

theorem take_ok {count : Nat} {input rest s : ByteString} :
    (take count).run input = .ok s rest ↔ s.length = count ∧ input = s ++ rest := by
  simp only [take, EStateM.run]
  constructor
  · intro h
    split at h
    · cases h
    · rename_i enough
      cases h
      exact ⟨by simp; omega, by simp⟩
  · rintro ⟨rfl, rfl⟩
    simp

-- the fixed-width readers differ only in the type of their number
theorem fixed_width_ok {n : Nat} {α : Type} {ofNat : Nat → α} {toNat : α → Nat}
    (bounded : ∀ v, toNat v < 2 ^ (8 * n)) (ofNat_toNat : ∀ v, ofNat (toNat v) = v)
    (toNat_ofNat : ∀ k < 2 ^ (8 * n), toNat (ofNat k) = k) {input rest : ByteString} {v : α} :
    (do return ofNat (readLe (← take n)) : BinReader α).run input = .ok v rest ↔
      input = putLe n (toNat v) ++ rest := by
  rw [bind_eq_ok]
  constructor
  · rintro ⟨s, mid, read, value⟩
    obtain ⟨rfl, rfl⟩ := pure_eq_ok.mp value
    obtain ⟨rfl, rfl⟩ := take_ok.mp read
    rw [toNat_ofNat _ (readLe_lt s), putLe_readLe]
  · intro bytes
    refine ⟨putLe n (toNat v), rest, take_ok.mpr ⟨length_putLe _ _, bytes⟩, ?_⟩
    rw [pure_eq_ok, readLe_putLe (bounded v), ofNat_toNat]
    exact ⟨rfl, rfl⟩

theorem u16le_ok {input rest : ByteString} {v : UInt16} :
    u16le.run input = .ok v rest ↔ input = putU16le v ++ rest :=
  fixed_width_ok UInt16.toNat_lt (fun _ => UInt16.ofNat_toNat) (fun _ h => UInt16.toNat_ofNat_of_lt' h)

theorem u32le_ok {input rest : ByteString} {v : UInt32} :
    u32le.run input = .ok v rest ↔ input = putU32le v ++ rest :=
  fixed_width_ok UInt32.toNat_lt (fun _ => UInt32.ofNat_toNat) (fun _ h => UInt32.toNat_ofNat_of_lt' h)

theorem u64le_ok {input rest : ByteString} {v : UInt64} :
    u64le.run input = .ok v rest ↔ input = putU64le v ++ rest :=
  fixed_width_ok UInt64.toNat_lt (fun _ => UInt64.ofNat_toNat) (fun _ h => UInt64.toNat_ofNat_of_lt' h)

theorem zigzag_ok {input rest : ByteString} {v : Int64} :
    zigzag.run input = .ok v rest ↔ input = putZigzag v ++ rest := by
  rw [zigzag, bind_eq_ok]
  constructor
  · rintro ⟨zz, mid, read, value⟩
    obtain ⟨rfl, rfl⟩ := pure_eq_ok.mp value
    rw [putZigzag, zigzagOf_unzigzag]
    exact uvarint_ok.mp read
  · intro bytes
    refine ⟨zigzagOf v, rest, uvarint_ok.mpr bytes, pure_eq_ok.mpr ⟨unzigzag_zigzagOf v, rfl⟩⟩

theorem canonicalBits_fixed (bits : UInt64) :
    canonicalBits bits = bits ↔ ¬ (isNaN bits && bits != kCanonicalNaNBits) := by
  unfold canonicalBits
  cases isNaN bits with
  | false => simp
  | true => simpa using eq_comm

theorem canonicalBits_idem (bits : UInt64) :
    canonicalBits (canonicalBits bits) = canonicalBits bits := by
  by_cases nan : isNaN bits
  · simp only [canonicalBits, nan, ↓reduceIte, ite_self]
  · simp only [canonicalBits, nan, Bool.false_eq_true, ↓reduceIte]

theorem f64le_ok {input rest : ByteString} {bits : UInt64} :
    f64le.run input = .ok bits rest ↔
      canonicalBits bits = bits ∧ input = putF64le bits ++ rest := by
  rw [f64le, bind_eq_ok]
  constructor
  · rintro ⟨bits', mid, read, value⟩
    split at value
    · cases value
    · rename_i canonical
      obtain ⟨rfl, rfl⟩ := pure_eq_ok.mp value
      have fixed := (canonicalBits_fixed bits').mpr canonical
      rw [putF64le, fixed]
      exact ⟨rfl, u64le_ok.mp read⟩
  · rintro ⟨fixed, bytes⟩
    rw [putF64le, fixed] at bytes
    refine ⟨bits, rest, u64le_ok.mpr bytes, ?_⟩
    rw [if_neg ((canonicalBits_fixed bits).mp fixed)]
    exact pure_eq_ok.mpr ⟨rfl, rfl⟩

theorem uvarint_unique {v w : Nat} {rest rest' : ByteString}
    (same : putUvarint v ++ rest = putUvarint w ++ rest') : v = w ∧ rest = rest' := by
  induction v using Nat.strongRecOn generalizing w with
  | ind v ih =>
      by_cases small : v < 128
      · rw [putUvarint_small small, List.singleton_append] at same
        rcases putUvarint_append_eq_cons.mp same.symm with ⟨_, value, tail⟩ | ⟨high, _⟩
        · refine ⟨?_, tail.symm⟩
          rw [value, UInt8.toNat_ofNat_of_lt' (by simp only [UInt8.size]; omega)]
        · rw [UInt8.toNat_ofNat_of_lt' (by simp only [UInt8.size]; omega)] at high
          omega
      · rw [putUvarint_large (by omega), List.cons_append] at same
        have byte : (UInt8.ofNat (v % 128 + 128)).toNat = v % 128 + 128 :=
          UInt8.toNat_ofNat_of_lt' (by simp only [UInt8.size]; omega)
        rcases putUvarint_append_eq_cons.mp same.symm with ⟨low, _⟩ | ⟨_, large, digit, tail⟩
        · omega
        · obtain ⟨quotient, tail⟩ := ih (v / 128) (by omega) tail.symm
          exact ⟨by omega, tail⟩

end Zen.Proof
