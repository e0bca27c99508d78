import Mathlib.Data.Nat.Bitwise
import Zen.Core.Utf8
import Zen.Spec.Utf8
import Zen.Proof.Core.Json

/-!
# UTF-8: the validator, the encoder and the reader of JSON texts
-/

namespace Zen.Proof
open Spec Spec.Json

/-! ## One sequence -/

theorem byte_all {P : UInt8 → Prop} (each : ∀ n : Fin 256, P (UInt8.ofNat n)) (c : UInt8) : P c := by
  have here := each ⟨c.toNat, c.toNat_lt⟩
  rwa [UInt8.ofNat_toNat] at here

theorem continues_iff (c : UInt8) : (c &&& 0xC0 != 0x80) = !decide (c.toNat / 64 = 2) := by
  revert c
  apply byte_all
  decide +kernel

theorem payload (c : UInt8) : (c &&& 0x3F).toNat = c.toNat % 64 := by
  rw [UInt8.toNat_and]
  exact Nat.and_two_pow_sub_one_eq_mod _ 6

theorem fold_payload (cp : Nat) (c : UInt8) : (cp <<< 6) ||| (c &&& 0x3F).toNat = cp * 64 + c.toNat % 64 := by
  rw [payload, ← Nat.shiftLeft_add_eq_or_of_lt (show c.toNat % 64 < 2 ^ 6 by omega), Nat.shiftLeft_eq]

theorem utf8Tail_cons (extra cp : Nat) (c : UInt8) (s : ByteString) :
    utf8Tail (extra + 1) cp (c :: s) =
      if c.toNat / 64 = 2 then utf8Tail extra (cp * 64 + c.toNat % 64) s else none := by
  rw [utf8Tail, continues_iff, fold_payload]
  by_cases continuation : c.toNat / 64 = 2
  · rw [if_pos continuation, if_neg (by simpa using continuation)]
  · rw [if_neg continuation, if_pos (by simpa using continuation)]

theorem lead_two (c : UInt8) : (c &&& 0xE0 == 0xC0) = decide (c.toNat / 32 = 6) := by
  revert c
  apply byte_all
  decide +kernel

theorem lead_three (c : UInt8) : (c &&& 0xF0 == 0xE0) = decide (c.toNat / 16 = 14) := by
  revert c
  apply byte_all
  decide +kernel

theorem lead_four (c : UInt8) : (c &&& 0xF8 == 0xF0) = decide (c.toNat / 8 = 30) := by
  revert c
  apply byte_all
  decide +kernel

/-- The byte opens a sequence with `extra` continuation bytes, for code points from `lo` to `hi`. -/
inductive Opens (c : UInt8) : (extra cp lo hi : Nat) → Prop where
  | two (lead : c.toNat / 32 = 6) : Opens c 1 (c.toNat % 32) 0x80 0x7FF
  | three (lead : c.toNat / 16 = 14) : Opens c 2 (c.toNat % 16) 0x800 0xFFFF
  | four (lead : c.toNat / 8 = 30) : Opens c 3 (c.toNat % 8) 0x10000 0x10FFFF

theorem validUtf8_ascii {c : UInt8} (single : c < 0x80) (s : ByteString) : validUtf8 (c :: s) = validUtf8 s := by
  rw [validUtf8, if_pos single]

/-- What the validator asks of a sequence and of the bytes after it. -/
def Sequence (extra cp lo hi : Nat) (s : ByteString) : Prop :=
  ∃ (cp' : Nat) (s' : ByteString), utf8Tail extra cp s = some (cp', s') ∧ lo ≤ cp' ∧ cp' ≤ hi ∧
    ¬(0xD800 ≤ cp' ∧ cp' ≤ 0xDFFF) ∧ validUtf8 s' = true

theorem sequence_iff (extra cp lo hi : Nat) (s : ByteString) :
    (match _h : utf8Tail extra cp s with
      | none => false
      | some (cp, s') =>
          if cp < lo || cp > hi then false else if 0xD800 ≤ cp && cp ≤ 0xDFFF then false else validUtf8 s') = true ↔
      Sequence extra cp lo hi s := by
  constructor
  · intro valid
    split at valid
    · cases valid
    · rename_i cp' s' read
      split at valid
      · cases valid
      · split at valid
        · cases valid
        · rename_i inside scalar
          simp only [Bool.or_eq_true, Bool.and_eq_true, decide_eq_true_eq] at inside scalar
          exact ⟨cp', s', read, by omega, by omega, scalar, valid⟩
  · rintro ⟨cp', s', read, least, most, scalar, valid⟩
    split
    · rename_i unread
      cases unread.symm.trans read
    · rename_i read'
      cases read'.symm.trans read
      rw [if_neg (by simp; omega), if_neg (by simpa using scalar)]
      exact valid

theorem validUtf8_long {c : UInt8} (long : ¬c < 0x80) (s : ByteString) :
    validUtf8 (c :: s) = true ↔ ∃ extra cp lo hi, Opens c extra cp lo hi ∧ Sequence extra cp lo hi s := by
  have masks : (c &&& 0x1F).toNat = c.toNat % 32 ∧ (c &&& 0x0F).toNat = c.toNat % 16 ∧
      (c &&& 0x07).toNat = c.toNat % 8 := by
    simp only [UInt8.toNat_and]
    exact ⟨Nat.and_two_pow_sub_one_eq_mod _ 5, Nat.and_two_pow_sub_one_eq_mod _ 4,
      Nat.and_two_pow_sub_one_eq_mod _ 3⟩
  rw [validUtf8, if_neg long]
  simp only [lead_two, lead_three, lead_four, masks, decide_eq_true_eq]
  by_cases two : c.toNat / 32 = 6
  · simp only [if_pos two]
    refine (sequence_iff _ _ _ _ _).trans ⟨fun read => ⟨_, _, _, _, .two two, read⟩, ?_⟩
    rintro ⟨_, _, _, _, ⟨_⟩ | ⟨three⟩ | ⟨four⟩, read⟩
    · exact read
    · omega
    · omega
  · by_cases three : c.toNat / 16 = 14
    · simp only [if_neg two, if_pos three]
      refine (sequence_iff _ _ _ _ _).trans ⟨fun read => ⟨_, _, _, _, .three three, read⟩, ?_⟩
      rintro ⟨_, _, _, _, ⟨two⟩ | ⟨_⟩ | ⟨four⟩, read⟩
      · omega
      · exact read
      · omega
    · by_cases four : c.toNat / 8 = 30
      · simp only [if_neg two, if_neg three, if_pos four]
        refine (sequence_iff _ _ _ _ _).trans ⟨fun read => ⟨_, _, _, _, .four four, read⟩, ?_⟩
        rintro ⟨_, _, _, _, ⟨two⟩ | ⟨three⟩ | ⟨_⟩, read⟩
        · omega
        · omega
        · exact read
      · simp only [if_neg two, if_neg three, if_neg four]
        refine ⟨fun never => (Bool.false_ne_true never).elim, ?_⟩
        rintro ⟨_, _, _, _, ⟨lead⟩ | ⟨lead⟩ | ⟨lead⟩, _⟩
        · exact absurd lead two
        · exact absurd lead three
        · exact absurd lead four

/-! ## The encoder -/

theorem or_add {k n : Nat} (low : n < 2 ^ k) (a : Nat) : (2 ^ k * a) ||| n = 2 ^ k * a + n :=
  (Nat.two_pow_add_eq_or_of_lt low a).symm

theorem encodeUtf8_one {cp : Nat} (most : cp ≤ 0x7F) : encodeUtf8 cp = [UInt8.ofNat cp] := if_pos most

theorem encodeUtf8_two {cp : Nat} (least : 0x80 ≤ cp) (most : cp ≤ 0x7FF) :
    encodeUtf8 cp = [UInt8.ofNat (192 + cp / 64), UInt8.ofNat (128 + cp % 64)] := by
  rw [encodeUtf8, if_neg (by omega), if_pos most, Nat.shiftRight_eq_div_pow,
    show cp &&& 0x3F = cp % 64 from Nat.and_two_pow_sub_one_eq_mod _ 6,
    show 0xC0 ||| cp / 2 ^ 6 = 192 + cp / 64 from or_add (k := 5) (by omega) 6,
    show 0x80 ||| cp % 64 = 128 + cp % 64 from or_add (k := 6) (by omega) 2]

theorem encodeUtf8_three {cp : Nat} (least : 0x800 ≤ cp) (most : cp ≤ 0xFFFF) : encodeUtf8 cp =
    [UInt8.ofNat (224 + cp / 4096), UInt8.ofNat (128 + cp / 64 % 64), UInt8.ofNat (128 + cp % 64)] := by
  have mask : ∀ n, n &&& 0x3F = n % 64 := fun n => Nat.and_two_pow_sub_one_eq_mod n 6
  have tail : ∀ n, 0x80 ||| n % 64 = 128 + n % 64 := fun n => or_add (k := 6) (by omega) 2
  rw [encodeUtf8, if_neg (by omega), if_neg (by omega), if_pos most, Nat.shiftRight_eq_div_pow,
    Nat.shiftRight_eq_div_pow, mask, mask, tail, tail,
    show 0xE0 ||| cp / 2 ^ 12 = 224 + cp / 4096 from or_add (k := 4) (by omega) 14]

theorem encodeUtf8_four {cp : Nat} (least : 0x10000 ≤ cp) (most : cp ≤ 0x10FFFF) : encodeUtf8 cp =
    [UInt8.ofNat (240 + cp / 262144), UInt8.ofNat (128 + cp / 4096 % 64), UInt8.ofNat (128 + cp / 64 % 64),
      UInt8.ofNat (128 + cp % 64)] := by
  have mask : ∀ n, n &&& 0x3F = n % 64 := fun n => Nat.and_two_pow_sub_one_eq_mod n 6
  have tail : ∀ n, 0x80 ||| n % 64 = 128 + n % 64 := fun n => or_add (k := 6) (by omega) 2
  rw [encodeUtf8, if_neg (by omega), if_neg (by omega), if_neg (by omega), Nat.shiftRight_eq_div_pow,
    Nat.shiftRight_eq_div_pow, Nat.shiftRight_eq_div_pow, mask, mask, mask, tail, tail, tail,
    show 0xF0 ||| cp / 2 ^ 18 = 240 + cp / 262144 from or_add (k := 3) (by omega) 30]

/-! ## The accepted byte strings -/

theorem byte_eq {c : UInt8} {n : Nat} (value : c.toNat = n) : c = UInt8.ofNat n := by
  rw [← value, UInt8.ofNat_toNat]

theorem tail_some {extra cp cp' : Nat} {s s' : ByteString} (h : utf8Tail (extra + 1) cp s = some (cp', s')) :
    ∃ (c : UInt8) (rest : ByteString), s = c :: rest ∧ c.toNat / 64 = 2 ∧
      utf8Tail extra (cp * 64 + c.toNat % 64) rest = some (cp', s') := by
  cases s with
  | nil => cases h
  | cons c rest =>
      rw [utf8Tail_cons] at h
      split at h
      · rename_i continuation
        exact ⟨c, rest, rfl, continuation, h⟩
      · cases h

theorem first_sequence {c : UInt8} {s : ByteString} (valid : validUtf8 (c :: s) = true) :
    ∃ (cp : Nat) (s' : ByteString), Scalar cp ∧ c :: s = encodeUtf8 cp ++ s' ∧ validUtf8 s' = true := by
  by_cases single : c < 0x80
  · rw [validUtf8_ascii single] at valid
    have small : c.toNat < 128 := UInt8.lt_iff_toNat_lt.mp single
    refine ⟨c.toNat, s, ⟨by omega, by omega⟩, ?_, valid⟩
    rw [encodeUtf8_one (by omega), UInt8.ofNat_toNat]
    rfl
  · obtain ⟨_, _, _, _, opens, cp, s', read, least, most, scalar, later⟩ := (validUtf8_long single s).mp valid
    cases opens with
    | two lead =>
        obtain ⟨c₁, _, rfl, cont₁, ended⟩ := tail_some read
        cases ended
        refine ⟨_, s', ⟨by omega, scalar⟩, ?_, later⟩
        rw [encodeUtf8_two least most]
        exact congrArg₂ List.cons (byte_eq (by omega)) (congrArg₂ List.cons (byte_eq (by omega)) rfl)
    | three lead =>
        obtain ⟨c₁, _, rfl, cont₁, read⟩ := tail_some read
        obtain ⟨c₂, _, rfl, cont₂, ended⟩ := tail_some read
        cases ended
        refine ⟨_, s', ⟨by omega, scalar⟩, ?_, later⟩
        rw [encodeUtf8_three least most]
        exact congrArg₂ List.cons (byte_eq (by omega)) (congrArg₂ List.cons (byte_eq (by omega))
          (congrArg₂ List.cons (byte_eq (by omega)) rfl))
    | four lead =>
        obtain ⟨c₁, _, rfl, cont₁, read⟩ := tail_some read
        obtain ⟨c₂, _, rfl, cont₂, read⟩ := tail_some read
        obtain ⟨c₃, _, rfl, cont₃, ended⟩ := tail_some read
        cases ended
        refine ⟨_, s', ⟨by omega, scalar⟩, ?_, later⟩
        rw [encodeUtf8_four least most]
        exact congrArg₂ List.cons (byte_eq (by omega)) (congrArg₂ List.cons (byte_eq (by omega))
          (congrArg₂ List.cons (byte_eq (by omega)) (congrArg₂ List.cons (byte_eq (by omega)) rfl)))

theorem tail_step {extra cp n : Nat} (continuation : n / 64 = 2) (s : ByteString) :
    utf8Tail (extra + 1) cp (UInt8.ofNat n :: s) = utf8Tail extra (cp * 64 + n % 64) s := by
  rw [utf8Tail_cons, UInt8.toNat_ofNat_of_lt' (show _ < 256 by omega), if_pos continuation]

theorem utf8_of_valid (s : ByteString) (valid : validUtf8 s = true) : Utf8 s := by
  induction size : s.length using Nat.strongRecOn generalizing s with
  | ind n ih =>
      cases s with
      | nil => exact ⟨[], by simp, rfl⟩
      | cons c s =>
          obtain ⟨cp, s', scalar, cut, later⟩ := first_sequence valid
          have shorter : s'.length < (c :: s).length := by
            have long : (encodeUtf8 cp).length ≠ 0 := by
              unfold encodeUtf8
              split_ifs <;> simp
            rw [cut, List.length_append]
            omega
          obtain ⟨cps, scalars, spelled⟩ := ih s'.length (size ▸ shorter) s' later rfl
          refine ⟨cp :: cps, by simpa using ⟨scalar, scalars⟩, ?_⟩
          rw [cut, spelled, List.flatMap_cons]

theorem validUtf8_encode {cp : Nat} (scalar : Scalar cp) {s : ByteString} (valid : validUtf8 s = true) :
    validUtf8 (encodeUtf8 cp ++ s) = true := by
  obtain ⟨most, scalar⟩ := scalar
  have long : ∀ {n}, 128 ≤ n → n < 256 → ¬UInt8.ofNat n < 0x80 := by
    intro n large small below
    have below : (UInt8.ofNat n).toNat < 128 := UInt8.lt_iff_toNat_lt.mp below
    rw [UInt8.toNat_ofNat_of_lt' small] at below
    omega
  by_cases one : cp ≤ 0x7F
  · rw [encodeUtf8_one one, List.singleton_append, validUtf8_ascii, valid]
    apply UInt8.lt_iff_toNat_lt.mpr
    rw [UInt8.toNat_ofNat_of_lt' (show _ < 256 by omega)]
    exact Nat.lt_succ_of_le one
  · by_cases two : cp ≤ 0x7FF
    · rw [encodeUtf8_two (by omega) two]
      refine (validUtf8_long (long (by omega) (by omega)) _).mpr ⟨_, _, _, _, .two ?_, cp, s, ?_, ?_⟩
      · rw [UInt8.toNat_ofNat_of_lt' (show _ < 256 by omega)]
        omega
      · rw [UInt8.toNat_ofNat_of_lt' (show _ < 256 by omega)]
        refine (tail_step (by omega) s).trans (congrArg (fun n => some (n, s)) ?_)
        omega
      · exact ⟨by omega, two, scalar, valid⟩
    · by_cases three : cp ≤ 0xFFFF
      · rw [encodeUtf8_three (by omega) three]
        refine (validUtf8_long (long (by omega) (by omega)) _).mpr ⟨_, _, _, _, .three ?_, cp, s, ?_, ?_⟩
        · rw [UInt8.toNat_ofNat_of_lt' (show _ < 256 by omega)]
          omega
        · rw [UInt8.toNat_ofNat_of_lt' (show _ < 256 by omega)]
          refine (tail_step (by omega) _).trans ((tail_step (by omega) s).trans
            (congrArg (fun n => some (n, s)) ?_))
          omega
        · exact ⟨by omega, three, scalar, valid⟩
      · rw [encodeUtf8_four (by omega) most]
        refine (validUtf8_long (long (by omega) (by omega)) _).mpr ⟨_, _, _, _, .four ?_, cp, s, ?_, ?_⟩
        · rw [UInt8.toNat_ofNat_of_lt' (show _ < 256 by omega)]
          omega
        · rw [UInt8.toNat_ofNat_of_lt' (show _ < 256 by omega)]
          refine (tail_step (by omega) _).trans ((tail_step (by omega) _).trans ((tail_step (by omega) s).trans
            (congrArg (fun n => some (n, s)) ?_)))
          omega
        · exact ⟨by omega, most, scalar, valid⟩

theorem validUtf8_iff (s : ByteString) : validUtf8 s = true ↔ Utf8 s := by
  refine ⟨utf8_of_valid s, ?_⟩
  rintro ⟨cps, scalars, rfl⟩
  induction cps with
  | nil => rw [List.flatMap_nil, validUtf8]
  | cons cp cps ih =>
      rw [List.flatMap_cons]
      exact validUtf8_encode (scalars cp (by simp)) (ih fun cp member => scalars cp (by simp [member]))

/-! ## Cutting at the bytes below 0x80 -/

theorem utf8_nil : Utf8 [] := ⟨[], by simp, rfl⟩

theorem utf8_scalar {cp : Nat} (scalar : Scalar cp) : Utf8 (encodeUtf8 cp) :=
  ⟨[cp], by simpa using scalar, by simp⟩

theorem utf8_append {s s' : ByteString} (h : Utf8 s) (h' : Utf8 s') : Utf8 (s ++ s') := by
  obtain ⟨cps, scalars, rfl⟩ := h
  obtain ⟨cps', scalars', rfl⟩ := h'
  refine ⟨cps ++ cps', fun cp member => ?_, List.flatMap_append.symm⟩
  exact (List.mem_append.mp member).elim (scalars cp) (scalars' cp)

theorem encodeUtf8_single {cp : Nat} (scalar : Scalar cp) {c : UInt8} (member : c ∈ encodeUtf8 cp)
    (single : c < 0x80) : encodeUtf8 cp = [c] := by
  obtain ⟨most, -⟩ := scalar
  have long : ∀ {n}, 128 ≤ n → n < 256 → c ≠ UInt8.ofNat n := by
    rintro n large small rfl
    have below : (UInt8.ofNat n).toNat < 128 := UInt8.lt_iff_toNat_lt.mp single
    rw [UInt8.toNat_ofNat_of_lt' small] at below
    omega
  by_cases one : cp ≤ 0x7F
  · rw [encodeUtf8_one one, List.mem_singleton] at member
    rw [encodeUtf8_one one, member]
  · exfalso
    by_cases two : cp ≤ 0x7FF
    · rw [encodeUtf8_two (by omega) two] at member
      simp only [List.mem_cons, List.not_mem_nil, or_false] at member
      rcases member with lead | tail
      · exact long (by omega) (by omega) lead
      · exact long (by omega) (by omega) tail
    · by_cases three : cp ≤ 0xFFFF
      · rw [encodeUtf8_three (by omega) three] at member
        simp only [List.mem_cons, List.not_mem_nil, or_false] at member
        rcases member with lead | tail | tail
        · exact long (by omega) (by omega) lead
        · exact long (by omega) (by omega) tail
        · exact long (by omega) (by omega) tail
      · rw [encodeUtf8_four (by omega) most] at member
        simp only [List.mem_cons, List.not_mem_nil, or_false] at member
        rcases member with lead | tail | tail | tail
        · exact long (by omega) (by omega) lead
        · exact long (by omega) (by omega) tail
        · exact long (by omega) (by omega) tail
        · exact long (by omega) (by omega) tail

theorem utf8_cut {a b : ByteString} {c : UInt8} (single : c < 0x80) (h : Utf8 (a ++ c :: b)) : Utf8 a ∧ Utf8 b := by
  obtain ⟨cps, scalars, spelled⟩ := h
  induction cps generalizing a with
  | nil =>
      rw [List.flatMap_nil] at spelled
      simp at spelled
  | cons cp cps ih =>
      have scalar := scalars cp (by simp)
      have others : ∀ cp ∈ cps, Scalar cp := fun cp member => scalars cp (by simp [member])
      rw [List.flatMap_cons] at spelled
      rcases List.append_eq_append_iff.mp spelled with ⟨m, whole, rest⟩ | ⟨a', rfl, rest⟩
      · cases m with
        | nil =>
            rw [List.append_nil] at whole
            obtain ⟨-, later⟩ := ih others (a := []) rest
            exact ⟨whole ▸ utf8_scalar scalar, later⟩
        | cons d m =>
            obtain ⟨rfl, rfl⟩ := List.cons.inj rest
            have one := encodeUtf8_single scalar (c := c) (by rw [whole]; simp) single
            rw [whole] at one
            obtain rfl : a = [] := by
              cases a with
              | nil => rfl
              | cons e a => simp at one
            obtain rfl : m = [] := by simpa using one
            exact ⟨utf8_nil, cps, others, rfl⟩
      · obtain ⟨before, later⟩ := ih others rest.symm
        exact ⟨utf8_append (utf8_scalar scalar) before, later⟩

theorem utf8_single {c : UInt8} (single : c < 0x80) : Utf8 [c] := by
  have small : c.toNat < 128 := UInt8.lt_iff_toNat_lt.mp single
  have spelled := @utf8_scalar c.toNat ⟨by omega, by omega⟩
  rwa [encodeUtf8_one (by omega), UInt8.ofNat_toNat] at spelled

theorem utf8_drop {a b : ByteString} (plain : ∀ c ∈ a, c < 0x80) (h : Utf8 (a ++ b)) : Utf8 b := by
  induction a with
  | nil => exact h
  | cons c a ih => exact ih (fun d member => plain d (by simp [member])) (utf8_cut (a := []) (plain c (by simp)) h).2

/-! ## The texts of a JSON tree -/

theorem literal_plain {s : String} (all : (ascii s).all fun c => c < 0x80) : ∀ c ∈ ascii s, c < 0x80 := by
  simpa using all

theorem spell_plain {w : Ws} : ∀ c ∈ w.spell, c < 0x80 := by
  intro c member
  obtain ⟨b, -, rfl⟩ := List.mem_map.mp member
  cases b <;> decide

theorem around_plain {a : Around} {c : UInt8} (single : c < 0x80) : ∀ d ∈ a.spell c, d < 0x80 := by
  intro d member
  simp only [Around.spell, List.mem_append, List.mem_singleton] at member
  rcases member with (before | rfl) | after
  · exact spell_plain d before
  · exact single
  · exact spell_plain d after

theorem digit_plain (d : Digit) : digit d < 0x80 := by
  revert d
  decide

theorem digits_plain (ds : Digits) : ∀ c ∈ ds.spell, c < 0x80 := by
  intro c member
  simp only [Digits.spell, List.mem_cons, List.mem_map] at member
  rcases member with rfl | ⟨d, -, rfl⟩
  · exact digit_plain _
  · exact digit_plain _

theorem number_plain (n : Number) : ∀ c ∈ n.spell, c < 0x80 := by
  obtain ⟨minus, integer, fraction, exponent⟩ := n
  intro c member
  simp only [Number.spell, List.mem_append] at member
  rcases member with ((sign | whole) | part) | scale
  · cases minus with
    | true =>
        obtain rfl := List.mem_singleton.mp sign
        decide
    | false => cases sign
  · cases integer with
    | zero =>
        obtain rfl := List.mem_singleton.mp whole
        decide
    | positive first rest =>
        rcases List.mem_cons.mp whole with rfl | later
        · clear whole
          revert first
          decide
        · obtain ⟨d, -, rfl⟩ := List.mem_map.mp later
          exact digit_plain d
  · cases fraction with
    | none => cases part
    | some ds =>
        rcases List.mem_cons.mp part with rfl | later
        · decide
        · exact digits_plain ds c later
  · cases exponent with
    | none => cases scale
    | some e =>
        obtain ⟨upper, sign, ds⟩ := e
        simp only [Exponent.spell, List.mem_append, List.mem_singleton] at scale
        rcases scale with (rfl | sign') | later
        · split <;> decide
        · cases sign with
          | none => cases sign'
          | some sign =>
              obtain rfl := List.mem_singleton.mp sign'
              cases sign <;> decide
        · exact digits_plain ds c later

theorem utf8_unit {cp : Nat} (scalar : Scalar cp) : Utf8 (utf8 cp) := by
  rw [← encodeUtf8_eq (by unfold Nat.isValidChar; unfold Scalar at scalar; omega)]
  exact utf8_scalar scalar

theorem hex_plain (h : Hex) : h.byte < 0x80 := by
  cases h with
  | digit d => exact digit_plain d
  | letter upper d =>
      revert upper d
      decide

theorem escape_plain (a b c d : Hex) : ∀ byte ∈ [0x75, a.byte, b.byte, c.byte, d.byte], byte < 0x80 := by
  simp [hex_plain]

/-- What a string denotes is as good as what it spells. -/
theorem utf8_decoded (s : List Chr) (pairs : paired s = true) (out : ByteString)
    (h : Utf8 (out ++ s.flatMap Chr.spell)) : Utf8 (out ++ decoded s) := by
  fun_induction decoded s generalizing out with
  | case1 => exact h
  | case2 b unescaped cs ih =>
      have read := ih pairs (out ++ [b]) (by simpa [Chr.spell] using h)
      simpa using read
  | case3 e cs ih =>
      obtain ⟨before, later⟩ := utf8_cut (c := 0x5C) (by decide) h
      have rest := utf8_drop (a := [e.byte]) (by cases e <;> simp [Escape.byte]) later
      have denoted : Utf8 [e.denotes] := utf8_single (by cases e <;> decide)
      exact utf8_append before (utf8_append denoted (ih pairs [] rest))
  | case4 a b c d isHigh a' b' c' d' cs ih =>
      rw [paired, if_pos isHigh] at pairs
      obtain ⟨isLow, pairs⟩ := Bool.and_eq_true_iff.mp pairs
      obtain ⟨before, later⟩ := utf8_cut (c := 0x5C) (by decide) h
      obtain ⟨-, later⟩ := utf8_cut (a := [0x75, a.byte, b.byte, c.byte, d.byte]) (c := 0x5C) (by decide) later
      have rest := utf8_drop (escape_plain a' b' c' d') later
      simp only [high, low, Bool.and_eq_true, decide_eq_true_eq] at isHigh isLow
      have denoted := utf8_unit (show Scalar (0x10000 + (codeUnit a b c d - 0xD800) * 0x400 +
        (codeUnit a' b' c' d' - 0xDC00)) from ⟨by omega, by omega⟩)
      exact utf8_append before (utf8_append denoted (ih pairs [] rest))
  | case5 a b c d cs isHigh lone =>
      exfalso
      rw [paired.eq_def] at pairs
      simp only [if_pos isHigh, Bool.false_eq_true] at pairs
  | case6 a b c d cs notHigh ih =>
      have pairs : (!low (codeUnit a b c d) && paired cs) = true := by
        rw [paired.eq_def] at pairs
        simpa only [if_neg notHigh] using pairs
      obtain ⟨notLow, pairs⟩ := Bool.and_eq_true_iff.mp pairs
      obtain ⟨before, later⟩ := utf8_cut (c := 0x5C) (by decide) h
      have rest := utf8_drop (escape_plain a b c d) later
      have bound := codeUnit_lt a b c d
      simp only [high, low, Bool.and_eq_true, Bool.not_eq_true', Bool.and_eq_false_iff, decide_eq_true_eq,
        decide_eq_false_iff_not] at notHigh notLow
      have denoted := utf8_unit (show Scalar (codeUnit a b c d) from ⟨by omega, by omega⟩)
      exact utf8_append before (utf8_append denoted (ih pairs [] rest))

theorem utf8_string (s : List Chr) (pairs : paired s = true) (rest : ByteString) (h : Utf8 (spellString s ++ rest)) :
    Utf8 (decoded s) ∧ Utf8 rest := by
  rw [spellString, List.append_assoc, List.append_assoc] at h
  obtain ⟨-, h⟩ := utf8_cut (a := []) (c := 0x22) (by decide) h
  obtain ⟨inside, later⟩ := utf8_cut (c := 0x22) (by decide) h
  exact ⟨utf8_decoded s pairs [] inside, later⟩

mutual

theorem utf8_node (v : Node) (pairs : v.paired = true) (rest : ByteString) (h : Utf8 (v.spell ++ rest)) :
    Texts Utf8 v.denotes ∧ Utf8 rest := by
  match v with
  | .false => exact ⟨.bool _, utf8_drop (a := ascii "false") (literal_plain (by decide)) h⟩
  | .null => exact ⟨.null, utf8_drop (a := ascii "null") (literal_plain (by decide)) h⟩
  | .true => exact ⟨.bool _, utf8_drop (a := ascii "true") (literal_plain (by decide)) h⟩
  | .emptyObject opening closing =>
      rw [Node.spell, List.append_assoc] at h
      exact ⟨.object (by simp) (by simp), utf8_drop (around_plain (by decide)) (utf8_drop (around_plain (by decide)) h)⟩
  | .object opening members closing =>
      rw [Node.spell, List.append_assoc, List.append_assoc] at h
      obtain ⟨good, later⟩ := utf8_members members pairs _ (utf8_drop (around_plain (by decide)) h)
      exact ⟨.object (fun m member => (good m member).1) (fun m member => (good m member).2),
        utf8_drop (around_plain (by decide)) later⟩
  | .emptyArray opening closing =>
      rw [Node.spell, List.append_assoc] at h
      exact ⟨.array (by simp), utf8_drop (around_plain (by decide)) (utf8_drop (around_plain (by decide)) h)⟩
  | .array opening items closing =>
      rw [Node.spell, List.append_assoc, List.append_assoc] at h
      obtain ⟨good, later⟩ := utf8_items items pairs _ (utf8_drop (around_plain (by decide)) h)
      exact ⟨.array good, utf8_drop (around_plain (by decide)) later⟩
  | .number n => exact ⟨.number _, utf8_drop (number_plain n) h⟩
  | .string s =>
      obtain ⟨text, later⟩ := utf8_string s pairs rest h
      exact ⟨.string text, later⟩

theorem utf8_members (ms : Members) (pairs : ms.paired = true) (rest : ByteString) (h : Utf8 (ms.spell ++ rest)) :
    (∀ m ∈ ms.denotes, Utf8 m.1 ∧ Texts Utf8 m.2) ∧ Utf8 rest := by
  match ms with
  | .one name colon value =>
      obtain ⟨named, paired⟩ := Bool.and_eq_true_iff.mp pairs
      simp only [Members.spell, List.append_assoc] at h
      obtain ⟨key, later⟩ := utf8_string name named _ h
      obtain ⟨good, later⟩ := utf8_node value paired _ (utf8_drop (around_plain (by decide)) later)
      exact ⟨by simpa [Members.denotes] using ⟨key, good⟩, later⟩
  | .more name colon value comma members =>
      obtain ⟨first, others⟩ := Bool.and_eq_true_iff.mp pairs
      obtain ⟨named, paired⟩ := Bool.and_eq_true_iff.mp first
      simp only [Members.spell, List.append_assoc] at h
      obtain ⟨key, later⟩ := utf8_string name named _ h
      obtain ⟨good, later⟩ := utf8_node value paired _ (utf8_drop (around_plain (by decide)) later)
      obtain ⟨more, later⟩ := utf8_members members others _ (utf8_drop (around_plain (by decide)) later)
      exact ⟨List.forall_mem_cons.mpr ⟨⟨key, good⟩, more⟩, later⟩

theorem utf8_items (items : Items) (pairs : items.paired = true) (rest : ByteString)
    (h : Utf8 (items.spell ++ rest)) : (∀ v ∈ items.denotes, Texts Utf8 v) ∧ Utf8 rest := by
  match items with
  | .one value =>
      obtain ⟨good, later⟩ := utf8_node value pairs _ h
      exact ⟨by simpa [Items.denotes] using good, later⟩
  | .more value comma items =>
      obtain ⟨paired, others⟩ := Bool.and_eq_true_iff.mp pairs
      simp only [Items.spell, List.append_assoc] at h
      obtain ⟨good, later⟩ := utf8_node value paired _ h
      obtain ⟨more, later⟩ := utf8_items items others _ (utf8_drop (around_plain (by decide)) later)
      exact ⟨List.forall_mem_cons.mpr ⟨good, more⟩, later⟩

end

/-- The validator accepts the sequences of scalar values, and a valid text gives a tree of valid texts,
whatever its escapes. -/
theorem utf8_exact_and_preserved : (∀ s, validUtf8 s = true ↔ Utf8 s) ∧ ∀ input maxDepth tree,
    validUtf8 input = true → parseJson input maxDepth = .ok tree → Texts (fun s => validUtf8 s = true) tree := by
  refine ⟨validUtf8_iff, fun input maxDepth tree valid accepted => ?_⟩
  have same : (fun s => validUtf8 s = true) = Utf8 := funext fun s => propext (validUtf8_iff s)
  obtain ⟨⟨before, value, after⟩, rfl, fine, rfl⟩ := parseJson_sound accepted
  have spelled : Utf8 (before.spell ++ (value.spell ++ after.spell)) := by
    rw [← List.append_assoc]
    exact utf8_of_valid _ valid
  rw [same]
  exact (utf8_node value fine.paired _ (utf8_drop spell_plain spelled)).1

end Zen.Proof
