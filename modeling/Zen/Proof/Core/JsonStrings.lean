import Zen.Proof.Core.JsonTokens

/-!
# Strings of a JSON text
-/

namespace Zen.Proof
open Lib JsonReader Spec.Json

/-! ## UTF-8 -/

theorem char_toNat {cp : Nat} (valid : cp.isValidChar) : (Char.ofNat cp).val.toNat = cp := by
  unfold Char.ofNat
  rw [dif_pos valid]
  rfl

theorem encodeUtf8_eq {cp : Nat} (valid : cp.isValidChar) : encodeUtf8 cp = utf8 cp := by
  have most : cp ≤ 0x10FFFF := by
    rcases valid with small | ⟨_, large⟩
    · omega
    · omega
  have mask : ∀ n, n &&& 0x3F = n % 64 := fun n => Nat.and_two_pow_sub_one_eq_mod n 6
  have shift : ∀ n k, n >>> k = n / 2 ^ k := Nat.shiftRight_eq_div_pow
  have tail : ∀ n, 0x80 ||| (n % 64) = n % 64 + 128 := by
    intro n
    have disjoint := Nat.two_pow_add_eq_or_of_lt (show n % 64 < 2 ^ 7 by omega) 1
    rw [Nat.add_comm]
    exact disjoint.symm
  have two : ∀ n, n < 32 → 0xC0 ||| n = n + 192 := by
    intro n small
    have disjoint := Nat.two_pow_add_eq_or_of_lt (show n < 2 ^ 5 by omega) 6
    rw [Nat.add_comm]
    exact disjoint.symm
  have three : ∀ n, n < 16 → 0xE0 ||| n = n + 224 := by
    intro n small
    have disjoint := Nat.two_pow_add_eq_or_of_lt (show n < 2 ^ 4 by omega) 14
    rw [Nat.add_comm]
    exact disjoint.symm
  have four : ∀ n, n < 8 → 0xF0 ||| n = n + 240 := by
    intro n small
    have disjoint := Nat.two_pow_add_eq_or_of_lt (show n < 2 ^ 3 by omega) 30
    rw [Nat.add_comm]
    exact disjoint.symm
  unfold encodeUtf8 utf8 String.utf8EncodeChar
  simp only [char_toNat valid, mask, shift, tail, Nat.reducePow]
  split
  · rfl
  · split
    · rw [two _ (by omega), Nat.mod_eq_of_lt (show cp / 64 < 32 by omega)]
    · split
      · rw [three _ (by omega), Nat.mod_eq_of_lt (show cp / 4096 < 16 by omega)]
      · rw [four _ (by omega), Nat.mod_eq_of_lt (show cp / 262144 < 8 by omega)]

/-! ## Escapes -/

theorem hexValue_byte (h : Hex) : hexValue h.byte = some h.value := by
  cases h with
  | digit d =>
      revert d
      decide
  | letter upper d =>
      revert upper d
      decide

theorem hexValue_some {c : UInt8} {d : Nat} (h : hexValue c = some d) : ∃ hex : Hex, hex.byte = c ∧ hex.value = d := by
  have letter : ∀ (upper : Bool) (base : Nat), base = (if upper = true then 0x41 else 0x61) → base ≤ c.toNat →
      c.toNat ≤ base + 5 → c.toNat - base + 10 = d → ∃ hex : Hex, hex.byte = c ∧ hex.value = d := by
    intro upper base start least most value
    refine ⟨.letter upper ⟨c.toNat - base, by omega⟩, ?_, ?_⟩
    · apply UInt8.toNat_inj.mp
      cases upper with
      | true =>
          simp only [Hex.byte, if_true, UInt8.toNat_add, UInt8.toNat_ofNat', UInt8.reduceToNat] at start ⊢
          omega
      | false =>
          simp only [Hex.byte, Bool.false_eq_true, if_false, UInt8.toNat_add, UInt8.toNat_ofNat',
            UInt8.reduceToNat] at start ⊢
          omega
    · simp only [Hex.value]
      omega
  unfold hexValue at h
  simp only [UInt8.le_iff_toNat_le, UInt8.reduceToNat] at h
  split at h
  · rename_i bounds
    cases h
    refine ⟨.digit ⟨c.toNat - 48, by omega⟩, ?_, rfl⟩
    apply UInt8.toNat_inj.mp
    simp only [Hex.byte, digit, UInt8.toNat_add, UInt8.toNat_ofNat', UInt8.reduceToNat]
    omega
  · split at h
    · rename_i bounds
      cases h
      exact letter false 97 rfl bounds.1 bounds.2 rfl
    · split at h
      · rename_i bounds
        cases h
        exact letter true 65 rfl bounds.1 bounds.2 rfl
      · cases h

theorem hex_value (h : Hex) : h.value < 16 := by
  cases h with
  | digit d => exact Nat.lt_of_lt_of_le d.isLt (by decide)
  | letter upper d =>
      simp only [Hex.value]
      omega

theorem hexFold_cons (cp : Nat) (h : Hex) (rest : ByteString) :
    hexFold cp (h.byte :: rest) = hexFold (cp * 16 + h.value) rest := by
  have fold : (cp <<< 4) ||| h.value = cp * 16 + h.value := by
    rw [← Nat.shiftLeft_add_eq_or_of_lt (show h.value < 2 ^ 4 from hex_value h), Nat.shiftLeft_eq]
  rw [hexFold, hexValue_byte]
  simp only [fold]

def spellHex (a b c d : Hex) : ByteString := [a.byte, b.byte, c.byte, d.byte]

theorem parseHex4_complete (a b c d : Hex) (rest : ByteString) :
    parseHex4.run (spellHex a b c d ++ rest) = .ok (codeUnit a b c d) rest := by
  have folded : hexFold 0 ((spellHex a b c d ++ rest).take 4) = some (codeUnit a b c d) := by
    change hexFold 0 (spellHex a b c d) = _
    rw [spellHex, hexFold_cons, hexFold_cons, hexFold_cons, hexFold_cons, hexFold, Nat.zero_mul, Nat.zero_add]
    rfl
  unfold parseHex4
  rw [bind_of_ok (show (get : JsonReader ByteString).run (spellHex a b c d ++ rest) = .ok _ _ from rfl),
    if_neg (by simp [spellHex])]
  simp only [folded]
  rfl

theorem parseHex4_sound {input rest : ByteString} {cp : Nat} (h : parseHex4.run input = .ok cp rest) :
    ∃ a b c d : Hex, input = spellHex a b c d ++ rest ∧ cp = codeUnit a b c d := by
  unfold parseHex4 at h
  obtain ⟨_, _, ⟨⟩, h⟩ := bind_eq_ok.mp h
  split at h
  · cases h
  · rename_i long
    split at h
    · cases h
    · rename_i folded
      obtain ⟨_, _, ⟨⟩, h⟩ := bind_eq_ok.mp h
      obtain ⟨rfl, rfl⟩ := pure_eq_ok.mp h
      match input, long with
      | c₀ :: c₁ :: c₂ :: c₃ :: input, _ =>
          have digits : ∀ {c : UInt8} {rest : ByteString} {cp value : Nat}, hexFold cp (c :: rest) = some value →
              ∃ hex : Hex, hex.byte = c := by
            intro c rest cp value fold
            rw [hexFold] at fold
            cases digit : hexValue c with
            | none =>
                rw [digit] at fold
                cases fold
            | some d =>
                obtain ⟨hex, byte, _⟩ := hexValue_some digit
                exact ⟨hex, byte⟩
          have folded : hexFold 0 [c₀, c₁, c₂, c₃] = some _ := folded
          obtain ⟨a, rfl⟩ := digits folded
          rw [hexFold_cons] at folded
          obtain ⟨b, rfl⟩ := digits folded
          rw [hexFold_cons] at folded
          obtain ⟨c, rfl⟩ := digits folded
          rw [hexFold_cons] at folded
          obtain ⟨d, rfl⟩ := digits folded
          rw [hexFold_cons] at folded
          refine ⟨a, b, c, d, rfl, ?_⟩
          simp only [hexFold, Option.some.injEq, Nat.zero_mul, Nat.zero_add] at folded
          exact folded.symm

/-- Elements of a string that are one character. -/
structure OneCharacter (cs : List Chr) (piece : ByteString) : Prop where
  spelled : cs ≠ []
  paired : ∀ rest, paired (cs ++ rest) = paired rest
  decoded : ∀ rest, decoded (cs ++ rest) = piece ++ decoded rest

theorem codeUnit_lt (a b c d : Hex) : codeUnit a b c d < 0x10000 := by
  have := hex_value a
  have := hex_value b
  have := hex_value c
  have := hex_value d
  unfold codeUnit
  omega

theorem plain_unit {a b c d : Hex} (notHigh : high (codeUnit a b c d) = false)
    (notLow : low (codeUnit a b c d) = false) : OneCharacter [.unicode a b c d] (encodeUtf8 (codeUnit a b c d)) := by
  have valid : (codeUnit a b c d).isValidChar := by
    have := codeUnit_lt a b c d
    simp only [high, low, Bool.and_eq_false_iff, decide_eq_false_iff_not] at notHigh notLow
    unfold Nat.isValidChar
    omega
  refine ⟨List.cons_ne_nil _ _, ?_, ?_⟩
  · intro rest
    rw [List.singleton_append, Spec.Json.paired.eq_def]
    simp only [notHigh, notLow, Bool.false_eq_true, if_false, Bool.not_false, Bool.true_and]
  · intro rest
    rw [List.singleton_append, Spec.Json.decoded.eq_def, encodeUtf8_eq valid]
    simp only [notHigh, Bool.false_eq_true, if_false]

theorem pair_unit {a b c d a' b' c' d' : Hex} (isHigh : high (codeUnit a b c d) = true)
    (isLow : low (codeUnit a' b' c' d') = true) : OneCharacter [.unicode a b c d, .unicode a' b' c' d']
      (encodeUtf8 (0x10000 + ((codeUnit a b c d - 0xD800) <<< 10) + (codeUnit a' b' c' d' - 0xDC00))) := by
  have shift : (codeUnit a b c d - 0xD800) <<< 10 = (codeUnit a b c d - 0xD800) * 0x400 := Nat.shiftLeft_eq _ _
  have valid : (0x10000 + (codeUnit a b c d - 0xD800) * 0x400 + (codeUnit a' b' c' d' - 0xDC00)).isValidChar := by
    simp only [high, low, Bool.and_eq_true, decide_eq_true_eq] at isHigh isLow
    unfold Nat.isValidChar
    omega
  refine ⟨List.cons_ne_nil _ _, ?_, ?_⟩
  · intro rest
    rw [List.cons_append, List.singleton_append, Spec.Json.paired, if_pos isHigh]
    simp only [isLow, Bool.true_and]
  · intro rest
    rw [List.cons_append, List.singleton_append, Spec.Json.decoded, if_pos isHigh, shift, encodeUtf8_eq valid]

theorem escaped_unit (e : Escape) : OneCharacter [.escaped e] [e.denotes] :=
  ⟨List.cons_ne_nil _ _, fun _ => rfl, fun _ => rfl⟩

theorem parseUnicode_sound {input rest piece : ByteString} (h : parseUnicode.run input = .ok piece rest) :
    ∃ cs, OneCharacter cs piece ∧ 0x5C :: 0x75 :: input = cs.flatMap Chr.spell ++ rest := by
  unfold parseUnicode at h
  obtain ⟨_, left, first, h⟩ := bind_eq_ok.mp h
  obtain ⟨a, b, c, d, rfl, rfl⟩ := parseHex4_sound first
  split at h
  · rename_i isHigh
    obtain ⟨_, _, ⟨⟩, h⟩ := bind_eq_ok.mp h
    split at h
    · cases h
    · rename_i marked
      obtain ⟨_, _, ⟨⟩, h⟩ := bind_eq_ok.mp h
      obtain ⟨_, _, second, h⟩ := bind_eq_ok.mp h
      obtain ⟨a', b', c', d', split, rfl⟩ := parseHex4_sound second
      split at h
      · cases h
      · rename_i isLow
        obtain ⟨rfl, rfl⟩ := pure_eq_ok.mp h
        have isLow : isLowSurrogate (codeUnit a' b' c' d') = true := by simpa using isLow
        refine ⟨_, pair_unit isHigh isLow, ?_⟩
        have split : left.drop 2 = spellHex a' b' c' d' ++ _ := split
        rw [← List.take_append_drop 2 left, Decidable.not_not.mp marked, split]
        rfl
  · rename_i notHigh
    split at h
    · cases h
    · rename_i notLow
      obtain ⟨rfl, rfl⟩ := pure_eq_ok.mp h
      have notHigh : isHighSurrogate (codeUnit a b c d) = false := by simpa using notHigh
      have notLow : isLowSurrogate (codeUnit a b c d) = false := by simpa using notLow
      exact ⟨_, plain_unit notHigh notLow, rfl⟩

theorem parseUnicode_plain {a b c d : Hex} (notHigh : high (codeUnit a b c d) = false)
    (notLow : low (codeUnit a b c d) = false) (rest : ByteString) :
    parseUnicode.run (spellHex a b c d ++ rest) = .ok (encodeUtf8 (codeUnit a b c d)) rest := by
  unfold parseUnicode
  rw [bind_of_ok (parseHex4_complete a b c d rest)]
  have notHigh : isHighSurrogate (codeUnit a b c d) = false := notHigh
  have notLow : isLowSurrogate (codeUnit a b c d) = false := notLow
  simp only [notHigh, notLow, Bool.false_eq_true, if_false]
  rfl

theorem parseUnicode_pair {a b c d a' b' c' d' : Hex} (isHigh : high (codeUnit a b c d) = true)
    (isLow : low (codeUnit a' b' c' d') = true) (rest : ByteString) :
    parseUnicode.run (spellHex a b c d ++ (0x5C :: 0x75 :: (spellHex a' b' c' d' ++ rest))) =
      .ok (encodeUtf8 (0x10000 + ((codeUnit a b c d - 0xD800) <<< 10) + (codeUnit a' b' c' d' - 0xDC00))) rest := by
  unfold parseUnicode
  rw [bind_of_ok (parseHex4_complete a b c d _)]
  have isHigh : isHighSurrogate (codeUnit a b c d) = true := isHigh
  have isLow : isLowSurrogate (codeUnit a' b' c' d') = true := isLow
  have after : (0x5C :: 0x75 :: (spellHex a' b' c' d' ++ rest)).drop 2 = spellHex a' b' c' d' ++ rest := rfl
  simp only [isHigh, if_true]
  rw [bind_of_ok (show (get : JsonReader ByteString).run (0x5C :: 0x75 :: (spellHex a' b' c' d' ++ rest)) =
    .ok _ _ from rfl), if_neg (by simp), bind_of_ok (advance_run 2 _), after,
    bind_of_ok (parseHex4_complete a' b' c' d' rest)]
  simp only [isLow, Bool.not_true, Bool.false_eq_true, if_false]
  rfl

theorem parseEscape_sound {input rest piece : ByteString} (h : parseEscape.run input = .ok piece rest) :
    ∃ cs, OneCharacter cs piece ∧ 0x5C :: input = cs.flatMap Chr.spell ++ rest := by
  unfold parseEscape at h
  obtain ⟨_, _, ⟨⟩, h⟩ := bind_eq_ok.mp h
  cases input with
  | nil => cases h
  | cons e input =>
      simp only at h
      obtain ⟨_, _, ⟨⟩, h⟩ := bind_eq_ok.mp h
      have plain : ∀ escape : Escape, e = escape.byte →
          (pure [escape.denotes] : JsonReader ByteString).run input = .ok piece rest →
          ∃ cs, OneCharacter cs piece ∧ 0x5C :: e :: input = cs.flatMap Chr.spell ++ rest := by
        intro escape byte read
        obtain ⟨rfl, rfl⟩ := pure_eq_ok.mp read
        subst byte
        exact ⟨_, escaped_unit escape, rfl⟩
      split at h
      · exact plain .quote ‹_› h
      split at h
      · exact plain .backslash ‹_› h
      split at h
      · exact plain .slash ‹_› h
      split at h
      · exact plain .backspace ‹_› h
      split at h
      · exact plain .formFeed ‹_› h
      split at h
      · exact plain .lineFeed ‹_› h
      split at h
      · exact plain .carriageReturn ‹_› h
      split at h
      · exact plain .tab ‹_› h
      split at h
      · rename_i u
        subst u
        exact parseUnicode_sound h
      · cases h

theorem parseEscape_escaped (e : Escape) (rest : ByteString) :
    parseEscape.run (e.byte :: rest) = .ok [e.denotes] rest := by
  cases e <;> rfl

/-! ## Strings -/

theorem parseStringLoop_cons (fuel : Nat) (out : ByteString) (c : UInt8) (input : ByteString) :
    (parseStringLoop (fuel + 1) out).run (c :: input) =
      if c = 0x22 then .ok out input
      else if c = 0x5C then (parseEscape >>= fun piece => parseStringLoop fuel (out ++ piece)).run input
      else if c < 0x20 then .error (ascii "control character in string") (c :: input)
      else (parseStringLoop fuel (out ++ [c])).run input := by
  rw [parseStringLoop, bind_of_ok (show (get : JsonReader ByteString).run (c :: input) = .ok _ _ from rfl)]
  simp only
  split
  · rfl
  · split
    · rfl
    · split <;> rfl

theorem parseStringLoop_sound {fuel : Nat} {out input rest text : ByteString}
    (h : (parseStringLoop fuel out).run input = .ok text rest) :
    ∃ s, input = s.flatMap Chr.spell ++ 0x22 :: rest ∧ paired s = true ∧ text = out ++ decoded s := by
  induction fuel generalizing out input with
  | zero => cases h
  | succ fuel ih =>
      cases input with
      | nil => cases h
      | cons c input =>
          rw [parseStringLoop_cons] at h
          split at h
          · rename_i quote
            subst quote
            cases h
            exact ⟨[], rfl, rfl, (List.append_nil _).symm⟩
          · rename_i unquoted
            split at h
            · rename_i backslash
              subst backslash
              obtain ⟨piece, mid, escape, h⟩ := bind_eq_ok.mp h
              obtain ⟨cs, unit, spelled⟩ := parseEscape_sound escape
              obtain ⟨s, rfl, pairs, rfl⟩ := ih h
              refine ⟨cs ++ s, ?_, ?_, ?_⟩
              · rw [spelled, List.flatMap_append, List.append_assoc]
              · rw [unit.paired]
                exact pairs
              · rw [unit.decoded, List.append_assoc]
            · rename_i unescaped
              split at h
              · cases h
              · rename_i visible
                obtain ⟨s, rfl, pairs, rfl⟩ := ih h
                have least : 0x20 ≤ c := UInt8.not_lt.mp visible
                exact ⟨.raw c ⟨least, unquoted, unescaped⟩ :: s, rfl, pairs, by simp [decoded]⟩

theorem parseStringLoop_complete (fuel : Nat) {s : List Chr} (enough : s.length < fuel) (pairs : paired s = true)
    (out rest : ByteString) :
    (parseStringLoop fuel out).run (s.flatMap Chr.spell ++ 0x22 :: rest) = .ok (out ++ decoded s) rest := by
  induction fuel generalizing s out with
  | zero => cases enough
  | succ fuel ih =>
      cases s with
      | nil =>
          rw [List.flatMap_nil, List.nil_append, parseStringLoop_cons, if_pos rfl]
          simp [decoded]
      | cons chr s =>
          rw [List.length_cons] at enough
          rw [List.flatMap_cons, List.append_assoc]
          -- an escape that is read as one piece, with what comes after it
          have escape : ∀ (cs : List Chr) {s : List Chr} {piece : ByteString} (input : ByteString), OneCharacter cs piece → s.length < fuel →
              paired (cs ++ s) = true → parseEscape.run (input ++ (s.flatMap Chr.spell ++ 0x22 :: rest)) =
                .ok piece (s.flatMap Chr.spell ++ 0x22 :: rest) →
              (parseStringLoop (fuel + 1) out).run (0x5C :: (input ++ (s.flatMap Chr.spell ++ 0x22 :: rest))) =
                .ok (out ++ decoded (cs ++ s)) rest := by
            intro cs s piece input unit shorter pairs read
            rw [unit.paired] at pairs
            rw [parseStringLoop_cons, if_neg (by decide), if_pos rfl, bind_of_ok read, ih shorter pairs, unit.decoded,
              List.append_assoc]
          cases chr with
          | raw b unescaped =>
              obtain ⟨least, unquoted, unslashed⟩ := unescaped
              have pairs : paired s = true := pairs
              change (parseStringLoop (fuel + 1) out).run (b :: (s.flatMap Chr.spell ++ 0x22 :: rest)) = _
              rw [parseStringLoop_cons, if_neg unquoted, if_neg unslashed, if_neg (UInt8.not_lt.mpr least),
                ih (by omega) pairs]
              simp [decoded]
          | escaped e =>
              refine escape [.escaped e] [e.byte] (escaped_unit e) (by omega) pairs ?_
              exact parseEscape_escaped e _
          | unicode a b c d =>
              cases isHigh : high (codeUnit a b c d) with
              | false =>
                  have notLow : low (codeUnit a b c d) = false := by
                    rw [Spec.Json.paired.eq_def] at pairs
                    simp only [isHigh, Bool.false_eq_true, if_false, Bool.and_eq_true] at pairs
                    simpa using pairs.1
                  refine escape [.unicode a b c d] (0x75 :: spellHex a b c d)
                    (plain_unit isHigh notLow) (by omega) pairs ?_
                  exact parseUnicode_plain isHigh notLow _
              | true =>
                  rw [Spec.Json.paired.eq_def] at pairs
                  simp only [isHigh, if_true] at pairs
                  split at pairs
                  · rename_i a' b' c' d' s
                    simp only [Bool.and_eq_true] at pairs
                    rw [List.length_cons] at enough
                    have unit := pair_unit isHigh pairs.1
                    refine escape [.unicode a b c d, .unicode a' b' c' d']
                      (0x75 :: (spellHex a b c d ++ 0x5C :: 0x75 :: spellHex a' b' c' d')) unit (by omega)
                      (by rw [unit.paired]; exact pairs.2) ?_
                    have read := parseUnicode_pair isHigh pairs.1 (s.flatMap Chr.spell ++ 0x22 :: rest)
                    exact read
                  · cases pairs

theorem parseString_sound {input rest text : ByteString} (h : parseString.run (0x22 :: input) = .ok text rest) :
    ∃ s, 0x22 :: input = spellString s ++ rest ∧ paired s = true ∧ text = decoded s := by
  unfold parseString at h
  obtain ⟨_, _, ⟨⟩, h⟩ := bind_eq_ok.mp h
  obtain ⟨_, _, ⟨⟩, h⟩ := bind_eq_ok.mp h
  obtain ⟨s, split, pairs, rfl⟩ := parseStringLoop_sound h
  refine ⟨s, ?_, pairs, rfl⟩
  have split : input = s.flatMap Chr.spell ++ 0x22 :: rest := split
  rw [split, spellString]
  simp

theorem length_le_flatMap (s : List Chr) : s.length ≤ (s.flatMap Chr.spell).length := by
  induction s with
  | nil => exact Nat.le_refl _
  | cons c s ih =>
      have some : 1 ≤ c.spell.length := by cases c <;> simp [Chr.spell]
      rw [List.flatMap_cons, List.length_append, List.length_cons]
      omega

theorem parseEscape_shortens {input rest piece : ByteString} (h : parseEscape.run input = .ok piece rest) :
    rest.length ≤ input.length := by
  obtain ⟨cs, unit, spelled⟩ := parseEscape_sound h
  have first : 0 < cs.length := List.length_pos_iff.mpr unit.spelled
  have least := length_le_flatMap cs
  have lengths := congrArg List.length spelled
  rw [List.length_append, List.length_cons] at lengths
  omega

/-- Every element of a string takes a byte, so that all fuels beyond the input's length are alike. -/
theorem parseStringLoop_fuel {fuel fuel' : Nat} {input : ByteString} (out : ByteString)
    (enough : input.length < fuel) (enough' : input.length < fuel') :
    (parseStringLoop fuel out).run input = (parseStringLoop fuel' out).run input := by
  induction fuel generalizing fuel' input out with
  | zero => omega
  | succ fuel ih =>
      obtain ⟨fuel', rfl⟩ : ∃ n, fuel' = n + 1 := ⟨fuel' - 1, by omega⟩
      cases input with
      | nil => rfl
      | cons c input =>
          rw [List.length_cons] at enough enough'
          rw [parseStringLoop_cons, parseStringLoop_cons]
          split
          · rfl
          split
          · refine bind_run_congr rfl ?_
            intro piece mid escape
            have shorter := parseEscape_shortens escape
            exact ih _ (by omega) (by omega)
          split
          · rfl
          · exact ih _ (by omega) (by omega)

theorem parseString_complete {s : List Chr} (pairs : paired s = true) (rest : ByteString) :
    parseString.run (spellString s ++ rest) = .ok (decoded s) rest := by
  have spelled : spellString s ++ rest = 0x22 :: (s.flatMap Chr.spell ++ 0x22 :: rest) := by simp [spellString]
  unfold parseString
  rw [spelled, bind_of_ok (advance_run 1 _)]
  change (parseStringLoop ((s.flatMap Chr.spell ++ 0x22 :: rest).length + 1) []).run
    (s.flatMap Chr.spell ++ 0x22 :: rest) = _
  have long := length_le_flatMap s
  rw [parseStringLoop_complete _ _ pairs]
  · rfl
  · rw [List.length_append]
    omega

/-! ## Literals -/

theorem matchLiteral_sound {lit input rest : ByteString} (h : (matchLiteral lit).run input = .ok () rest) :
    input = lit ++ rest := by
  unfold matchLiteral at h
  obtain ⟨_, _, ⟨⟩, h⟩ := bind_eq_ok.mp h
  split at h
  · cases h
  · rename_i same
    rw [advance_run] at h
    cases h
    conv_lhs => rw [← List.take_append_drop lit.length input, Decidable.not_not.mp same]

end Zen.Proof
