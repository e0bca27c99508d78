import Zen.Proof.Core.Compat

/-!
# The texts compat writes

Quoted strings, decimal numbers and content ids, each with the way it reads back.
-/

namespace Zen.Proof
open Spec.Json JsonReader

/-! ## Strings -/

def hexOf (d : Nat) : Hex := if d < 10 then .digit (Fin.ofNat 10 d) else .letter false (Fin.ofNat 6 (d - 10))

theorem hexOf_byte {d : Nat} (small : d < 16) : (hexOf d).byte = hexChar d := by
  revert d
  decide

theorem hexOf_value {d : Nat} (small : d < 16) : (hexOf d).value = d := by
  revert d
  decide

theorem control_chr {b : UInt8} (control : b < 0x20) :
    ∃ chr : Chr, chr.spell = ascii "\\u00" ++ [hexChar (b.toNat >>> 4 &&& 0xF), hexChar (b.toNat &&& 0xF)] ∧
      OneCharacter [chr] [b] := by
  have small : b.toNat < 32 := UInt8.lt_iff_toNat_lt.mp control
  have high4 : b.toNat >>> 4 &&& 0xF = b.toNat / 16 := by
    rw [Nat.shiftRight_eq_div_pow, show 0xF = 2 ^ 4 - 1 from rfl, Nat.and_two_pow_sub_one_eq_mod]
    omega
  have low4 : b.toNat &&& 0xF = b.toNat % 16 := Nat.and_two_pow_sub_one_eq_mod _ 4
  have unit : codeUnit (hexOf 0) (hexOf 0) (hexOf (b.toNat / 16)) (hexOf (b.toNat % 16)) = b.toNat := by
    unfold codeUnit
    rw [hexOf_value (show 0 < 16 by omega), hexOf_value (show b.toNat / 16 < 16 by omega),
      hexOf_value (show b.toNat % 16 < 16 by omega)]
    omega
  have plain := plain_unit (a := hexOf 0) (b := hexOf 0) (c := hexOf (b.toNat / 16)) (d := hexOf (b.toNat % 16))
    (by rw [unit]; unfold high; simp; omega) (by rw [unit]; unfold low; simp; omega)
  have bytes : encodeUtf8 b.toNat = [b] := by
    rw [encodeUtf8, if_pos (by omega), UInt8.ofNat_toNat]
  rw [unit, bytes] at plain
  refine ⟨_, ?_, plain⟩
  rw [Chr.spell, hexOf_byte (show b.toNat / 16 < 16 by omega), hexOf_byte (show b.toNat % 16 < 16 by omega), high4, low4]
  rfl

theorem quoteByte_chr (b : UInt8) : ∃ chr : Chr, chr.spell = quoteByte b ∧ OneCharacter [chr] [b] := by
  unfold quoteByte
  split
  · rename_i same
    exact ⟨.escaped .quote, rfl, same ▸ escaped_unit .quote⟩
  split
  · rename_i same
    exact ⟨.escaped .backslash, rfl, same ▸ escaped_unit .backslash⟩
  split
  · rename_i same
    exact ⟨.escaped .backspace, rfl, same ▸ escaped_unit .backspace⟩
  split
  · rename_i same
    exact ⟨.escaped .formFeed, rfl, same ▸ escaped_unit .formFeed⟩
  split
  · rename_i same
    exact ⟨.escaped .lineFeed, rfl, same ▸ escaped_unit .lineFeed⟩
  split
  · rename_i same
    exact ⟨.escaped .carriageReturn, rfl, same ▸ escaped_unit .carriageReturn⟩
  split
  · rename_i same
    exact ⟨.escaped .tab, rfl, same ▸ escaped_unit .tab⟩
  split
  · rename_i control
    exact control_chr control
  · rename_i quote backslash _ _ _ _ _ plain
    exact ⟨.raw b ⟨UInt8.not_lt.mp plain, quote, backslash⟩, rfl,
      ⟨List.cons_ne_nil _ _, fun _ => rfl, fun _ => rfl⟩⟩

theorem jsonQuote_spells (s : ByteString) :
    ∃ chrs : List Chr, jsonQuote s = spellString chrs ∧ paired chrs = true ∧ decoded chrs = s := by
  have each : ∃ chrs : List Chr, s.flatMap quoteByte = chrs.flatMap Chr.spell ∧ paired chrs = true ∧ decoded chrs = s := by
    induction s with
    | nil => exact ⟨[], rfl, rfl, rfl⟩
    | cons b s ih =>
        obtain ⟨chr, spelled, one⟩ := quoteByte_chr b
        obtain ⟨chrs, rest, pairs, same⟩ := ih
        refine ⟨chr :: chrs, ?_, (one.paired chrs).trans pairs, (one.decoded chrs).trans ?_⟩
        · rw [List.flatMap_cons, List.flatMap_cons, rest, spelled]
        · rw [same]
          rfl
  obtain ⟨chrs, spelled, pairs, same⟩ := each
  exact ⟨chrs, by rw [jsonQuote, spelled, spellString], pairs, same⟩

theorem parseString_quoted (s r : ByteString) : parseString.run (jsonQuote s ++ r) = .ok s r := by
  obtain ⟨chrs, spelled, pairs, same⟩ := jsonQuote_spells s
  have read := parseString_complete pairs r
  rw [spelled, read, same]

/-! ## Numbers -/

theorem decimal_small {n : Nat} (small : n < 10) : decimal n = [digit (Fin.ofNat 10 n)] := by
  rw [decimal, Nat.toDigits_of_lt_base small]
  revert n
  decide

theorem decimal_large {n : Nat} (large : 10 ≤ n) : decimal n = decimal (n / 10) ++ [digit (Fin.ofNat 10 (n % 10))] := by
  have last := decimal_small (show n % 10 < 10 by omega)
  rw [decimal, Nat.toDigits_of_lt_base (by omega)] at last
  rw [decimal, Nat.toDigits_of_base_le (by omega) large, List.map_append, last]
  rfl

theorem digits_snoc (ds : Digits) (d : Digit) :
    Digits.spell ⟨ds.first, ds.rest ++ [d]⟩ = ds.spell ++ [digit d] ∧
      Digits.value ⟨ds.first, ds.rest ++ [d]⟩ = ds.value * 10 + d.val := by
  constructor
  · simp [Digits.spell]
  · rw [Digits.value, ← List.cons_append, List.foldl_append]
    rfl

theorem decimal_digits (n : Nat) : ∃ ds : Digits, decimal n = ds.spell ∧ ds.value = n := by
  induction n using Nat.strong_induction_on with
  | _ n ih =>
      by_cases small : n < 10
      · refine ⟨⟨Fin.ofNat 10 n, []⟩, decimal_small small, ?_⟩
        simp [Digits.value, Nat.mod_eq_of_lt small]
      · obtain ⟨ds, spelled, value⟩ := ih (n / 10) (by omega)
        obtain ⟨spelled', value'⟩ := digits_snoc ds (Fin.ofNat 10 (n % 10))
        refine ⟨_, by rw [decimal_large (by omega), spelled, spelled'], ?_⟩
        rw [value', value]
        simp
        omega

theorem decimal_integer (n : Nat) : ∃ i : Integer, decimal n = i.spell := by
  induction n using Nat.strong_induction_on with
  | _ n ih =>
      by_cases small : n < 10
      · rw [decimal_small small]
        by_cases zero : n = 0
        · exact ⟨.zero, by rw [zero]; rfl⟩
        · refine ⟨.positive (Fin.ofNat 9 (n - 1)) [], ?_⟩
          clear ih
          revert n
          decide
      · obtain ⟨i, spelled⟩ := ih (n / 10) (by omega)
        rw [decimal_large (by omega), spelled]
        cases i with
        | zero =>
            -- ten and above have no leading zero
            exfalso
            obtain ⟨ds, spelled', value⟩ := decimal_digits (n / 10)
            rw [spelled] at spelled'
            have read := digitsValue_spell ds
            rw [← spelled', value] at read
            have zero : digitsValue (Integer.zero).spell = some 0 := by decide
            rw [zero] at read
            have := Option.some.inj read
            omega
        | positive first rest =>
            exact ⟨.positive first (rest ++ [Fin.ofNat 10 (n % 10)]), by simp [Integer.spell]⟩

theorem decimal_number (n : Nat) : ∃ number : Number, decimal n = number.spell := by
  obtain ⟨i, spelled⟩ := decimal_integer n
  exact ⟨⟨false, i, none, none⟩, by simp [number_spell, spelled, spellFraction, spellExponent]⟩

theorem signedDecimal_reads (v : Int64) : jsonParseInt64 (signedDecimal v.toInt) = some v := by
  rw [jsonParseInt64_iff]
  obtain ⟨ds, spelled, value⟩ := decimal_digits v.toInt.natAbs
  unfold signedDecimal
  split
  · exact ⟨true, ds, by rw [spelled]; rfl, by simp only [if_true]; omega⟩
  · exact ⟨false, ds, by rw [spelled]; rfl, by simp only [Bool.false_eq_true, if_false]; omega⟩

theorem decimal_u32 (v : UInt32) : jsonParseU32 (decimal v.toNat) = some v := by
  obtain ⟨ds, spelled, value⟩ := decimal_digits v.toNat
  rw [jsonParseU32, spelled, digitsValue_spell, value, Option.bind_eq_bind, Option.bind_some, if_pos v.toNat_lt,
    UInt32.ofNat_toNat]

/-! ## Content ids -/

def idDigit (id : UInt64) (k : Nat) : UInt64 := (id >>> UInt64.ofNat (60 - 4 * k)) &&& 0xF

theorem idDigit_toNat (id : UInt64) {k : Nat} (inside : k < 16) : (idDigit id k).toNat = id.toNat / 16 ^ (15 - k) % 16 := by
  have amount : (UInt64.ofNat (60 - 4 * k)).toNat % 64 = 4 * (15 - k) := by
    rw [UInt64.toNat_ofNat']
    omega
  rw [idDigit, UInt64.toNat_and, UInt64.toNat_shiftRight, amount, Nat.shiftRight_eq_div_pow, Nat.pow_mul]
  exact Nat.and_two_pow_sub_one_eq_mod _ 4

theorem hexValue_digit {d : UInt64} (small : d.toNat < 16) : hexValue (hexDigit d) = some d.toNat := by
  rw [hexDigit]
  generalize d.toNat = n at small
  revert n
  decide

theorem shift_digit {v d : UInt64} (room : v.toNat < 2 ^ 60) (small : d.toNat < 16) :
    ((v <<< 4) ||| UInt64.ofNat d.toNat).toNat = v.toNat * 16 + d.toNat := by
  rw [UInt64.ofNat_toNat, UInt64.toNat_or, UInt64.toNat_shiftLeft]
  have shifted : v.toNat <<< ((4 : UInt64).toNat % 64) % 2 ^ 64 = v.toNat <<< 4 := by
    rw [show (4 : UInt64).toNat % 64 = 4 from rfl, Nat.shiftLeft_eq]
    omega
  rw [shifted, shift_or _ (show d.toNat < 2 ^ 4 from small)]
  rfl

theorem hexId_digits (id : UInt64) : ∀ (j : Nat) (v : UInt64), j ≤ 16 → v.toNat = id.toNat / 16 ^ j →
    hexId ((List.range' (16 - j) j).map fun k => hexDigit (idDigit id k)) v = some id := by
  intro j
  induction j with
  | zero =>
      intro v _ value
      rw [Nat.pow_zero, Nat.div_one] at value
      exact congrArg some (UInt64.toNat_inj.mp value)
  | succ j ih =>
      intro v inside value
      have small : (idDigit id (16 - (j + 1))).toNat < 16 := by
        rw [idDigit_toNat id (by omega)]
        omega
      have bound : v.toNat < 2 ^ 60 := by
        have most := id.toNat_lt
        have power : 16 ^ (j + 1) ≥ 16 := by
          rw [Nat.pow_succ]
          have := Nat.one_le_pow j 16 (by omega)
          omega
        rw [value]
        exact lt_of_le_of_lt (Nat.div_le_div_left power (by omega)) (by omega)
      rw [List.range'_succ, List.map_cons, hexId, hexValue_digit small, Option.bind_eq_bind, Option.bind_some,
        show 16 - (j + 1) + 1 = 16 - j by omega]
      apply ih _ (by omega)
      rw [shift_digit bound small, value, idDigit_toNat id (by omega), show 15 - (16 - (j + 1)) = j by omega,
        Nat.pow_succ, ← Nat.div_div_eq_div_mul]
      omega

theorem parseContentId_marked (digits : ByteString) : jsonParseContentId (0x30 :: 0x78 :: digits) =
    if digits.isEmpty || decide (digits.length > 16) then none else hexId digits 0 := rfl

theorem contentId_reads (id : UInt64) : jsonParseContentId (formatContentId id) = some id := by
  have digits : formatContentId id = 0x30 :: 0x78 :: (List.range' 0 16).map fun k => hexDigit (idDigit id k) := by
    rw [← List.range_eq_range']
    rfl
  have value : (0 : UInt64).toNat = id.toNat / 16 ^ 16 := (Nat.div_eq_of_lt id.toNat_lt).symm
  rw [digits, parseContentId_marked, if_neg (by simp)]
  exact hexId_digits id 16 0 (le_refl _) value

end Zen.Proof
