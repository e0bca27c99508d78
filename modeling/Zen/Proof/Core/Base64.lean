import Mathlib.Data.Nat.Bitwise
import Zen.Core.Base64

/-!
# Base64 is canonical

`base64Decode` accepts exactly the texts `base64Encode` writes.
-/

namespace Zen.Proof

/-! ## Symbols -/

theorem alphabet_nodup : kAlphabet.Nodup := by decide +kernel

theorem symbol_eq {v : Nat} (small : v < 64) : symbol v = kAlphabet.get ⟨v, small⟩ := by
  have low : v &&& 0x3F = v := by
    rw [show 0x3F = 2 ^ 6 - 1 from rfl, Nat.and_two_pow_sub_one_eq_mod]
    exact Nat.mod_eq_of_lt small
  rw [symbol, low]
  exact List.getD_eq_getElem kAlphabet 0 small

theorem symbol_mod (n : Nat) : symbol n = symbol (n % 64) := by
  have low : ∀ m, m &&& 0x3F = m % 64 := fun m => Nat.and_two_pow_sub_one_eq_mod m 6
  rw [symbol, symbol, low, low, Nat.mod_mod]

theorem symbol_congr {n m : Nat} (same : n % 64 = m % 64) : symbol n = symbol m := by
  rw [symbol_mod n, symbol_mod m, same]

theorem symbol_mem {v : Nat} (small : v < 64) : symbol v ∈ kAlphabet := by
  rw [symbol_eq small]
  exact List.get_mem _ _

theorem symbol_ne_pad {v : Nat} (small : v < 64) : (symbol v == 0x3D) = false := by
  have absent : (0x3D : UInt8) ∉ kAlphabet := by decide +kernel
  exact beq_eq_false_iff_ne.mpr fun same => absent (same ▸ symbol_mem small)

theorem reverseTable_symbol {v : Nat} (small : v < 64) : reverseTable (symbol v) = UInt8.ofNat v := by
  rw [reverseTable, if_pos (symbol_mem small), symbol_eq small]
  exact congrArg UInt8.ofNat (alphabet_nodup.idxOf_getElem v small)

theorem symbol_of_reverseTable {c : UInt8} (known : (reverseTable c == 0xFF) = false) :
    ∃ v, v < 64 ∧ c = symbol v := by
  unfold reverseTable at known
  split at known
  · rename_i mem
    have small : kAlphabet.idxOf c < 64 := List.idxOf_lt_length_of_mem mem
    refine ⟨kAlphabet.idxOf c, small, ?_⟩
    rw [symbol_eq small]
    exact (List.getElem_idxOf small).symm
  · cases known

/-! ## Quads -/

theorem shift_or {k b : Nat} (a : Nat) (low : b < 2 ^ k) : (a <<< k) ||| b = a * 2 ^ k + b := by
  rw [← Nat.shiftLeft_add_eq_or_of_lt low, Nat.shiftLeft_eq]

theorem known_value {v : Nat} (small : v < 64) : (UInt8.ofNat v == 0xFF) = false := by
  refine beq_eq_false_iff_ne.mpr fun same => ?_
  have value : (UInt8.ofNat v).toNat = 255 := congrArg UInt8.toNat same
  rw [UInt8.toNat_ofNat_of_lt' (small.trans (by decide))] at value
  omega

theorem spare_bits {v : Nat} (small : v < 64) (mask : UInt8) {k : Nat} (low : mask.toNat = 2 ^ k - 1) :
    (UInt8.ofNat v &&& mask != 0) = decide (v % 2 ^ k ≠ 0) := by
  have value : (UInt8.ofNat v &&& mask).toNat = v % 2 ^ k := by
    rw [UInt8.toNat_and, UInt8.toNat_ofNat_of_lt' (small.trans (by decide)), low, Nat.and_two_pow_sub_one_eq_mod]
  have zero : UInt8.ofNat v &&& mask = 0 ↔ v % 2 ^ k = 0 := by
    rw [← UInt8.toNat_inj, value]
    rfl
  rw [Bool.eq_iff_iff]
  simp [zero]

section Quad

variable {v₀ v₁ v₂ v₃ : Nat} (h₀ : v₀ < 64) (h₁ : v₁ < 64) (h₂ : v₂ < 64) (h₃ : v₃ < 64)
include h₀ h₁

theorem first_byte : UInt8.ofNat (((UInt8.ofNat v₀).toNat <<< 2) ||| ((UInt8.ofNat v₁).toNat >>> 4)) =
    UInt8.ofNat (v₀ * 4 + v₁ / 16) := by
  rw [UInt8.toNat_ofNat_of_lt' (h₀.trans (by decide)), UInt8.toNat_ofNat_of_lt' (h₁.trans (by decide)),
    Nat.shiftRight_eq_div_pow, shift_or _ (show v₁ / 2 ^ 4 < 2 ^ 2 by omega)]
  rfl

omit h₀ in
include h₂ in
theorem second_byte : UInt8.ofNat (((UInt8.ofNat v₁).toNat <<< 4) ||| ((UInt8.ofNat v₂).toNat >>> 2)) =
    UInt8.ofNat (v₁ * 16 + v₂ / 4) := by
  rw [UInt8.toNat_ofNat_of_lt' (h₁.trans (by decide)), UInt8.toNat_ofNat_of_lt' (h₂.trans (by decide)),
    Nat.shiftRight_eq_div_pow, shift_or _ (show v₂ / 2 ^ 2 < 2 ^ 4 by omega)]
  rfl

include h₂ h₃ in
theorem decodeQuad_whole (lastQuad : Bool) : decodeQuad (symbol v₀) (symbol v₁) (symbol v₂) (symbol v₃) lastQuad =
    some [UInt8.ofNat (v₀ * 4 + v₁ / 16), UInt8.ofNat (v₁ * 16 + v₂ / 4), UInt8.ofNat (v₂ * 64 + v₃)] := by
  unfold decodeQuad
  simp only [symbol_ne_pad h₂, symbol_ne_pad h₃, known_value h₀, known_value h₁, known_value h₂, known_value h₃,
    Bool.or_self, Bool.false_and, Bool.false_eq_true, if_false, reverseTable_symbol h₀, reverseTable_symbol h₁,
    reverseTable_symbol h₂, reverseTable_symbol h₃, first_byte h₀ h₁, second_byte h₁ h₂]
  rw [UInt8.toNat_ofNat_of_lt' (h₂.trans (by decide)), UInt8.toNat_ofNat_of_lt' (h₃.trans (by decide)),
    shift_or _ (show v₃ < 2 ^ 6 by omega)]
  rfl

include h₂ in
theorem decodeQuad_two : decodeQuad (symbol v₀) (symbol v₁) (symbol v₂) 0x3D true =
    if v₂ % 4 ≠ 0 then none else some [UInt8.ofNat (v₀ * 4 + v₁ / 16), UInt8.ofNat (v₁ * 16 + v₂ / 4)] := by
  unfold decodeQuad
  simp only [symbol_ne_pad h₂, known_value h₀, known_value h₁, known_value h₂, beq_self_eq_true, Bool.or_true,
    Bool.not_true, Bool.and_false, Bool.or_self, Bool.false_eq_true, if_false, if_true, reverseTable_symbol h₀,
    reverseTable_symbol h₁, reverseTable_symbol h₂, first_byte h₀ h₁, second_byte h₁ h₂,
    spare_bits h₂ 0x03 (show _ = 2 ^ 2 - 1 from rfl), decide_eq_true_eq]
  rfl

theorem decodeQuad_one : decodeQuad (symbol v₀) (symbol v₁) 0x3D 0x3D true =
    if v₁ % 16 ≠ 0 then none else some [UInt8.ofNat (v₀ * 4 + v₁ / 16)] := by
  unfold decodeQuad
  simp only [known_value h₀, known_value h₁, beq_self_eq_true, Bool.not_true, Bool.and_false, Bool.and_self,
    Bool.or_self, Bool.false_eq_true, if_false, if_true, reverseTable_symbol h₀, reverseTable_symbol h₁,
    first_byte h₀ h₁, spare_bits h₁ 0x0F (show _ = 2 ^ 4 - 1 from rfl), decide_eq_true_eq]
  rfl

end Quad

inductive QuadOf : UInt8 → UInt8 → UInt8 → UInt8 → Bool → ByteString → Prop where
  | whole {v₀ v₁ v₂ v₃ : Nat} (lastQuad : Bool) (h₀ : v₀ < 64) (h₁ : v₁ < 64) (h₂ : v₂ < 64) (h₃ : v₃ < 64) :
      QuadOf (symbol v₀) (symbol v₁) (symbol v₂) (symbol v₃) lastQuad
        [UInt8.ofNat (v₀ * 4 + v₁ / 16), UInt8.ofNat (v₁ * 16 + v₂ / 4), UInt8.ofNat (v₂ * 64 + v₃)]
  | two {v₀ v₁ v₂ : Nat} (h₀ : v₀ < 64) (h₁ : v₁ < 64) (h₂ : v₂ < 64) (spare : v₂ % 4 = 0) :
      QuadOf (symbol v₀) (symbol v₁) (symbol v₂) 0x3D true
        [UInt8.ofNat (v₀ * 4 + v₁ / 16), UInt8.ofNat (v₁ * 16 + v₂ / 4)]
  | one {v₀ v₁ : Nat} (h₀ : v₀ < 64) (h₁ : v₁ < 64) (spare : v₁ % 16 = 0) :
      QuadOf (symbol v₀) (symbol v₁) 0x3D 0x3D true [UInt8.ofNat (v₀ * 4 + v₁ / 16)]

theorem decodeQuad_sound {c₀ c₁ c₂ c₃ : UInt8} {lastQuad : Bool} {out : ByteString}
    (h : decodeQuad c₀ c₁ c₂ c₃ lastQuad = some out) : QuadOf c₀ c₁ c₂ c₃ lastQuad out := by
  have whole := h
  unfold decodeQuad at h
  simp only at h
  split at h
  · cases h
  rename_i inside
  split at h
  · cases h
  rename_i right
  split at h
  · cases h
  rename_i known
  simp only [Bool.or_eq_true, not_or, Bool.not_eq_true] at known
  obtain ⟨v₀, h₀, rfl⟩ := symbol_of_reverseTable known.1
  obtain ⟨v₁, h₁, rfl⟩ := symbol_of_reverseTable known.2
  split at h
  · rename_i both
    simp only [Bool.and_eq_true, beq_iff_eq] at both
    obtain ⟨rfl, rfl⟩ := both
    obtain rfl : lastQuad = true := by simpa using inside
    rw [decodeQuad_one h₀ h₁] at whole
    split at whole
    · cases whole
    · rename_i spare
      cases whole
      exact .one h₀ h₁ (by omega)
  rename_i open₂
  split at h
  · cases h
  rename_i known₂
  obtain ⟨v₂, h₂, rfl⟩ := symbol_of_reverseTable (Bool.not_eq_true _ ▸ known₂)
  split at h
  · rename_i pad
    obtain rfl := beq_iff_eq.mp pad
    obtain rfl : lastQuad = true := by simpa using inside
    rw [decodeQuad_two h₀ h₁ h₂] at whole
    split at whole
    · cases whole
    · rename_i spare
      cases whole
      exact .two h₀ h₁ h₂ (by omega)
  split at h
  · cases h
  rename_i known₃
  obtain ⟨v₃, h₃, rfl⟩ := symbol_of_reverseTable (Bool.not_eq_true _ ▸ known₃)
  rw [decodeQuad_whole h₀ h₁ h₂ h₃] at whole
  cases whole
  exact .whole lastQuad h₀ h₁ h₂ h₃

/-! ## Texts -/

section Bytes

variable (b₀ b₁ b₂ : UInt8)

theorem three_bytes : (b₀.toNat <<< 16) ||| (b₁.toNat <<< 8) ||| b₂.toNat =
    b₀.toNat * 65536 + b₁.toNat * 256 + b₂.toNat := by
  have h₁ := b₁.toNat_lt
  have h₂ := b₂.toNat_lt
  rw [Nat.shiftLeft_eq b₁.toNat, shift_or _ (show b₁.toNat * 2 ^ 8 < 2 ^ 16 by omega),
    show b₀.toNat * 2 ^ 16 + b₁.toNat * 2 ^ 8 = (b₀.toNat * 2 ^ 8 + b₁.toNat) * 2 ^ 8 by omega,
    ← Nat.shiftLeft_eq, shift_or _ (show b₂.toNat < 2 ^ 8 by omega)]
  omega

theorem encode_three (data : ByteString) : base64Encode (b₀ :: b₁ :: b₂ :: data) =
    [symbol (b₀.toNat / 4), symbol (b₀.toNat % 4 * 16 + b₁.toNat / 16), symbol (b₁.toNat % 16 * 4 + b₂.toNat / 64),
      symbol b₂.toNat] ++ base64Encode data := by
  have h₁ := b₁.toNat_lt
  have h₂ := b₂.toNat_lt
  rw [base64Encode, three_bytes]
  simp only [Nat.shiftRight_eq_div_pow]
  rw [symbol_congr (n := _ / 2 ^ 18) (m := b₀.toNat / 4) (by omega),
    symbol_congr (n := _ / 2 ^ 12) (m := b₀.toNat % 4 * 16 + b₁.toNat / 16) (by omega),
    symbol_congr (n := _ / 2 ^ 6) (m := b₁.toNat % 16 * 4 + b₂.toNat / 64) (by omega),
    symbol_congr (n := _ + _ + _) (m := b₂.toNat) (by omega)]

theorem encode_two : base64Encode [b₀, b₁] =
    [symbol (b₀.toNat / 4), symbol (b₀.toNat % 4 * 16 + b₁.toNat / 16), symbol (b₁.toNat % 16 * 4), 0x3D] := by
  have h₁ := b₁.toNat_lt
  have n := three_bytes b₀ b₁ 0
  rw [show (0 : UInt8).toNat = 0 from rfl, Nat.or_zero] at n
  rw [base64Encode, n]
  simp only [Nat.shiftRight_eq_div_pow]
  rw [symbol_congr (n := _ / 2 ^ 18) (m := b₀.toNat / 4) (by omega),
    symbol_congr (n := _ / 2 ^ 12) (m := b₀.toNat % 4 * 16 + b₁.toNat / 16) (by omega),
    symbol_congr (n := _ / 2 ^ 6) (m := b₁.toNat % 16 * 4) (by omega)]

theorem encode_one : base64Encode [b₀] =
    [symbol (b₀.toNat / 4), symbol (b₀.toNat % 4 * 16), 0x3D, 0x3D] := by
  rw [base64Encode]
  simp only [Nat.shiftLeft_eq, Nat.shiftRight_eq_div_pow]
  rw [symbol_congr (n := _ / 2 ^ 18) (m := b₀.toNat / 4) (by omega),
    symbol_congr (n := _ / 2 ^ 12) (m := b₀.toNat % 4 * 16) (by omega)]

end Bytes

theorem byte_of {n : Nat} {b : UInt8} (value : n % 256 = b.toNat) : UInt8.ofNat n = b := by
  rw [← UInt8.toNat_inj, UInt8.toNat_ofNat']
  exact value

theorem decodeQuads_encode (data : ByteString) : decodeQuads (base64Encode data) = some data := by
  fun_induction base64Encode data with
  | case1 b₀ b₁ b₂ data n ih =>
      have h₀ := b₀.toNat_lt
      have h₁ := b₁.toNat_lt
      have h₂ := b₂.toNat_lt
      have spelled := encode_three b₀ b₁ b₂ data
      rw [base64Encode] at spelled
      rw [spelled]
      simp only [List.cons_append, List.nil_append]
      rw [symbol_mod b₂.toNat, decodeQuads, ih, decodeQuad_whole (by omega) (by omega) (by omega) (by omega)]
      have c₀ : UInt8.ofNat (b₀.toNat / 4 * 4 + (b₀.toNat % 4 * 16 + b₁.toNat / 16) / 16) = b₀ := byte_of (by omega)
      have c₁ : UInt8.ofNat ((b₀.toNat % 4 * 16 + b₁.toNat / 16) * 16 + (b₁.toNat % 16 * 4 + b₂.toNat / 64) / 4) = b₁ :=
        byte_of (by omega)
      have c₂ : UInt8.ofNat ((b₁.toNat % 16 * 4 + b₂.toNat / 64) * 64 + b₂.toNat % 64) = b₂ := byte_of (by omega)
      rw [c₀, c₁, c₂]
      rfl
  | case2 b₀ b₁ n =>
      have h₀ := b₀.toNat_lt
      have h₁ := b₁.toNat_lt
      have spelled := encode_two b₀ b₁
      rw [base64Encode] at spelled
      rw [spelled, decodeQuads, List.isEmpty_nil, decodeQuad_two (by omega) (by omega) (by omega), if_neg (by omega)]
      have c₀ : UInt8.ofNat (b₀.toNat / 4 * 4 + (b₀.toNat % 4 * 16 + b₁.toNat / 16) / 16) = b₀ := byte_of (by omega)
      have c₁ : UInt8.ofNat ((b₀.toNat % 4 * 16 + b₁.toNat / 16) * 16 + b₁.toNat % 16 * 4 / 4) = b₁ :=
        byte_of (by omega)
      rw [c₀, c₁]
      rfl
  | case3 b₀ n =>
      have h₀ := b₀.toNat_lt
      have spelled := encode_one b₀
      rw [base64Encode] at spelled
      rw [spelled, decodeQuads, List.isEmpty_nil, decodeQuad_one (by omega) (by omega), if_neg (by omega)]
      have c₀ : UInt8.ofNat (b₀.toNat / 4 * 4 + b₀.toNat % 4 * 16 / 16) = b₀ := byte_of (by omega)
      rw [c₀]
      rfl
  | case4 => rfl

theorem base64Encode_length (data : ByteString) : (base64Encode data).length % 4 = 0 := by
  fun_induction base64Encode data with
  | case1 b₀ b₁ b₂ data n ih =>
      simp only [List.cons_append, List.nil_append, List.length_cons]
      omega
  | case2 b₀ b₁ n => simp
  | case3 b₀ n => simp
  | case4 => rfl

theorem base64Decode_encode (data : ByteString) : base64Decode (base64Encode data) = some data := by
  rw [base64Decode, if_neg (by rw [base64Encode_length]; simp)]
  exact decodeQuads_encode data

theorem encode_quad {c₀ c₁ c₂ c₃ : UInt8} {lastQuad : Bool} {out data : ByteString}
    (quad : QuadOf c₀ c₁ c₂ c₃ lastQuad out) (ended : lastQuad = true → data = []) :
    base64Encode (out ++ data) = [c₀, c₁, c₂, c₃] ++ base64Encode data := by
  have value : ∀ {n : Nat}, (UInt8.ofNat n).toNat = n % 256 := UInt8.toNat_ofNat'
  cases quad with
  | @whole v₀ v₁ v₂ v₃ _ h₀ h₁ h₂ h₃ =>
      simp only [List.cons_append, List.nil_append]
      rw [encode_three, value, value, value]
      rw [symbol_congr (n := _ / 4) (m := v₀) (by omega), symbol_congr (n := _ * 16 + _) (m := v₁) (by omega),
        symbol_congr (n := _ * 4 + _) (m := v₂) (by omega), symbol_congr (n := _ % 256) (m := v₃) (by omega)]
      rfl
  | @two v₀ v₁ v₂ h₀ h₁ h₂ spare =>
      obtain rfl := ended rfl
      rw [List.append_nil, encode_two, value, value]
      rw [symbol_congr (n := _ / 4) (m := v₀) (by omega), symbol_congr (n := _ * 16 + _) (m := v₁) (by omega),
        symbol_congr (n := _ * 4) (m := v₂) (by omega)]
      rfl
  | @one v₀ v₁ h₀ h₁ spare =>
      obtain rfl := ended rfl
      rw [List.append_nil, encode_one, value]
      rw [symbol_congr (n := _ / 4) (m := v₀) (by omega), symbol_congr (n := _ * 16) (m := v₁) (by omega)]
      rfl

theorem encode_decodeQuads {text data : ByteString} (quads : text.length % 4 = 0) (h : decodeQuads text = some data) :
    base64Encode data = text := by
  fun_induction decodeQuads text generalizing data with
  | case1 c₀ c₁ c₂ c₃ text ih =>
      obtain ⟨out, quad, h⟩ := Option.bind_eq_some_iff.mp h
      obtain ⟨rest, decoded, h⟩ := Option.bind_eq_some_iff.mp h
      cases h
      have tail := ih (by simp only [List.length_cons] at quads; omega) decoded
      rw [encode_quad (decodeQuad_sound quad), tail]
      · rfl
      · intro last
        obtain rfl := List.isEmpty_iff.mp last
        cases decoded
        rfl
  | case2 text short =>
      cases h
      match text, quads with
      | [], _ => rfl
      | [_], quads => cases quads
      | [_, _], quads => cases quads
      | [_, _, _], quads => cases quads
      | c₀ :: c₁ :: c₂ :: c₃ :: text, _ => exact absurd rfl (short c₀ c₁ c₂ c₃ text)

theorem base64Encode_decode {text data : ByteString} (h : base64Decode text = some data) :
    text = base64Encode data := by
  unfold base64Decode at h
  split at h
  · cases h
  · rename_i quads
    exact (encode_decodeQuads (not_not.mp quads) h).symm

/-! ## The accepted texts -/

/-- Whole quads of symbols, but for one or two pads at the end. -/
def Padded (text : ByteString) : Prop :=
  text.length % 4 = 0 ∧ ∃ (symbols : ByteString) (pads : Nat), text = symbols ++ List.replicate pads 0x3D ∧
    pads ≤ 2 ∧ ∀ c ∈ symbols, c ∈ kAlphabet

theorem symbol_known (n : Nat) : symbol n ∈ kAlphabet := by
  rw [symbol_mod]
  exact symbol_mem (Nat.mod_lt _ (by decide))

theorem base64Encode_padded (data : ByteString) : Padded (base64Encode data) := by
  refine ⟨base64Encode_length data, ?_⟩
  fun_induction base64Encode data with
  | case1 b₀ b₁ b₂ data n ih =>
      obtain ⟨symbols, pads, text, few, known⟩ := ih
      refine ⟨[symbol (n >>> 18), symbol (n >>> 12), symbol (n >>> 6), symbol n] ++ symbols, pads, ?_, few, ?_⟩
      · rw [text, List.append_assoc]
      · intro c member
        rcases List.mem_append.mp member with quad | later
        · simp only [List.mem_cons, List.not_mem_nil, or_false] at quad
          rcases quad with rfl | rfl | rfl | rfl <;> exact symbol_known _
        · exact known c later
  | case2 b₀ b₁ n =>
      refine ⟨[symbol (n >>> 18), symbol (n >>> 12), symbol (n >>> 6)], 1, rfl, by decide, ?_⟩
      simp [symbol_known]
  | case3 b₀ n =>
      refine ⟨[symbol (n >>> 18), symbol (n >>> 12)], 2, rfl, by decide, ?_⟩
      simp [symbol_known]
  | case4 => exact ⟨[], 0, rfl, by decide, by simp⟩

/-- Decoding undoes encoding, and the encodings are the only texts that decode. -/
theorem base64_bijection : (∀ data, base64Decode (base64Encode data) = some data) ∧
    ∀ text data, base64Decode text = some data → text = base64Encode data ∧ Padded text := by
  refine ⟨base64Decode_encode, fun text data decoded => ?_⟩
  have encoded := base64Encode_decode decoded
  exact ⟨encoded, encoded ▸ base64Encode_padded data⟩

end Zen.Proof
