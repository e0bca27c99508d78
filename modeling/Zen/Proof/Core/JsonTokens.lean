import Zen.Spec.Json

/-!
# Tokens of a JSON text

Each reader takes exactly the words of its production. A number is read as far as it goes, so what
follows it must not go on with it.
-/

namespace Zen.Proof
open Lib JsonReader Spec.Json

/-! ## Runs of the readers -/

theorem peek_run (input : ByteString) : peek.run input = .ok (input.headD 0) input := rfl

theorem advance_run (n : Nat) (input : ByteString) : (advance n).run input = .ok () (input.drop n) := rfl

theorem skipWs_run (input : ByteString) : skipWs.run input = .ok () (input.dropWhile isBlank) := rfl

theorem skipDigits_run (input : ByteString) : skipDigits.run input = .ok () (input.dropWhile isDigit) := rfl

-- the end of the input is taken for a NUL, which nobody looks for
theorem headD_eq {input : ByteString} {c : UInt8} (visible : c ≠ 0) (h : input.headD 0 = c) :
    ∃ rest, input = c :: rest := by
  cases input with
  | nil => exact absurd h.symm visible
  | cons d rest =>
      cases h
      exact ⟨rest, rfl⟩

/-! ## White space -/

theorem blank_byte (b : Blank) : isBlank b.byte = true := by cases b <;> decide

theorem blank_of_byte {c : UInt8} (h : isBlank c = true) : ∃ b : Blank, b.byte = c := by
  simp only [isBlank, Bool.or_eq_true, beq_iff_eq] at h
  rcases h with ((rfl | rfl) | rfl) | rfl
  · exact ⟨.space, rfl⟩
  · exact ⟨.tab, rfl⟩
  · exact ⟨.newline, rfl⟩
  · exact ⟨.carriage, rfl⟩

theorem dropWhile_blank (w : Ws) (rest : ByteString) :
    (w.spell ++ rest).dropWhile isBlank = rest.dropWhile isBlank := by
  induction w with
  | nil => rfl
  | cons b w ih =>
      change (b.byte :: (Ws.spell w ++ rest)).dropWhile isBlank = _
      rw [List.dropWhile_cons_of_pos (blank_byte b), ih]

theorem exists_blank (input : ByteString) : ∃ w : Ws, input = w.spell ++ input.dropWhile isBlank := by
  induction input with
  | nil => exact ⟨[], rfl⟩
  | cons c input ih =>
      cases blank : isBlank c with
      | true =>
          obtain ⟨b, rfl⟩ := blank_of_byte blank
          obtain ⟨w, split⟩ := ih
          refine ⟨b :: w, ?_⟩
          rw [List.dropWhile_cons_of_pos blank]
          exact congrArg (b.byte :: ·) split
      | false =>
          rw [List.dropWhile_cons_of_neg (by simp [blank])]
          exact ⟨[], rfl⟩

/-- The input does not begin with a byte of the kind. -/
def Past (kind : UInt8 → Bool) (rest : ByteString) : Prop := ∀ c, rest.head? = some c → kind c = false

theorem past_dropWhile (kind : UInt8 → Bool) (input : ByteString) : Past kind (input.dropWhile kind) := by
  intro c first
  have stops := List.head?_dropWhile_not kind input
  rw [first] at stops
  simpa using stops

theorem Past.dropWhile {kind : UInt8 → Bool} {rest : ByteString} (h : Past kind rest) :
    rest.dropWhile kind = rest := by
  cases rest with
  | nil => rfl
  | cons c rest => rw [List.dropWhile_cons_of_neg (by simp [h c rfl])]

theorem Past.cons {kind : UInt8 → Bool} {c : UInt8} (h : kind c = false) (rest : ByteString) :
    Past kind (c :: rest) := by
  rintro _ ⟨⟩
  exact h

theorem Past.nil (kind : UInt8 → Bool) : Past kind [] := nofun

/-! ## Digits -/

theorem digit_isDigit (d : Digit) : isDigit (digit d) = true := by
  revert d
  decide

theorem digit_of_isDigit {c : UInt8} (h : isDigit c = true) : ∃ d : Digit, digit d = c := by
  simp only [isDigit, Bool.and_eq_true, decide_eq_true_eq, UInt8.le_iff_toNat_le] at h
  obtain ⟨least, most⟩ := h
  have least : 48 ≤ c.toNat := least
  have most : c.toNat ≤ 57 := most
  refine ⟨⟨c.toNat - 48, by omega⟩, ?_⟩
  apply UInt8.toNat_inj.mp
  simp only [digit, UInt8.toNat_add, UInt8.toNat_ofNat', UInt8.reduceToNat]
  omega

theorem dropWhile_digit (ds : List Digit) (rest : ByteString) :
    (ds.map digit ++ rest).dropWhile isDigit = rest.dropWhile isDigit := by
  induction ds with
  | nil => rfl
  | cons d ds ih =>
      rw [List.map_cons, List.cons_append, List.dropWhile_cons_of_pos (digit_isDigit d), ih]

theorem exists_digits (input : ByteString) : ∃ ds : List Digit, input = ds.map digit ++ input.dropWhile isDigit := by
  induction input with
  | nil => exact ⟨[], rfl⟩
  | cons c input ih =>
      cases same : isDigit c with
      | true =>
          obtain ⟨d, rfl⟩ := digit_of_isDigit same
          obtain ⟨ds, split⟩ := ih
          refine ⟨d :: ds, ?_⟩
          rw [List.dropWhile_cons_of_pos same]
          exact congrArg (digit d :: ·) split
      | false =>
          rw [List.dropWhile_cons_of_neg (by simp [same])]
          exact ⟨[], rfl⟩

theorem parseDigits_sound {error input rest : ByteString} (h : (parseDigits error).run input = .ok () rest) :
    ∃ ds : Digits, input = ds.spell ++ rest := by
  unfold parseDigits at h
  obtain ⟨_, _, ⟨⟩, h⟩ := bind_eq_ok.mp h
  cases input with
  | nil => cases h
  | cons c input =>
      simp only at h
      split at h
      · rename_i same
        rw [skipDigits_run] at h
        cases h
        obtain ⟨d, rfl⟩ := digit_of_isDigit same
        obtain ⟨ds, split⟩ := exists_digits input
        refine ⟨⟨d, ds⟩, ?_⟩
        rw [List.dropWhile_cons_of_pos same]
        exact congrArg (digit d :: ·) split
      · cases h

theorem parseDigits_complete (error : ByteString) (ds : Digits) {rest : ByteString} (past : Past isDigit rest) :
    (parseDigits error).run (ds.spell ++ rest) = .ok () rest := by
  unfold parseDigits
  rw [bind_of_ok (show (get : JsonReader ByteString).run (ds.spell ++ rest) = .ok _ _ from rfl)]
  simp only [Digits.spell, List.cons_append, digit_isDigit, if_true, skipDigits_run]
  rw [List.dropWhile_cons_of_pos (digit_isDigit ds.first), dropWhile_digit, past.dropWhile]

/-! ## Numbers -/

theorem parseInteger_sound {input rest : ByteString} (h : parseInteger.run input = .ok () rest) :
    ∃ n : Integer, input = n.spell ++ rest := by
  unfold parseInteger at h
  obtain ⟨_, _, ⟨⟩, h⟩ := bind_eq_ok.mp h
  cases input with
  | nil => cases h
  | cons c input =>
      simp only at h
      split at h
      · rename_i zero
        rw [advance_run] at h
        cases h
        subst zero
        exact ⟨.zero, rfl⟩
      · split at h
        · rename_i positive
          rw [skipDigits_run] at h
          cases h
          have bounds : 49 ≤ c.toNat ∧ c.toNat ≤ 57 := by
            simpa only [UInt8.le_iff_toNat_le, UInt8.reduceToNat] using positive
          have same : isDigit c = true := by
            simp only [isDigit, Bool.and_eq_true, decide_eq_true_eq, UInt8.le_iff_toNat_le, UInt8.reduceToNat]
            omega
          obtain ⟨ds, split⟩ := exists_digits input
          refine ⟨.positive ⟨c.toNat - 49, by omega⟩ ds, ?_⟩
          have first : (0x31 + UInt8.ofNat (c.toNat - 49) : UInt8) = c := by
            apply UInt8.toNat_inj.mp
            simp only [UInt8.toNat_add, UInt8.toNat_ofNat', UInt8.reduceToNat]
            omega
          rw [List.dropWhile_cons_of_pos same]
          simp only [Integer.spell, first]
          exact congrArg (c :: ·) split
        · cases h

theorem positive_byte (d : Fin 9) : ¬ (0x31 + UInt8.ofNat d : UInt8) = 0x30 ∧
    (0x31 ≤ (0x31 + UInt8.ofNat d : UInt8) ∧ (0x31 + UInt8.ofNat d : UInt8) ≤ 0x39) ∧
    isDigit (0x31 + UInt8.ofNat d) = true := by
  revert d
  decide

theorem parseInteger_complete (n : Integer) {rest : ByteString} (past : Past isDigit rest) :
    parseInteger.run (n.spell ++ rest) = .ok () rest := by
  unfold parseInteger
  rw [bind_of_ok (show (get : JsonReader ByteString).run (n.spell ++ rest) = .ok _ _ from rfl)]
  cases n with
  | zero => rfl
  | positive first ds =>
      obtain ⟨nonzero, within, same⟩ := positive_byte first
      simp only [Integer.spell, List.cons_append, if_neg nonzero, if_pos within, skipDigits_run]
      rw [List.dropWhile_cons_of_pos same, dropWhile_digit, past.dropWhile]

def spellFraction : Option Digits → ByteString
  | some ds => 0x2E :: ds.spell
  | none => []

def spellExponent : Option Exponent → ByteString
  | some e => e.spell
  | none => []

theorem number_spell (n : Number) : n.spell =
    (if n.minus then [0x2D] else []) ++ (n.integer.spell ++ (spellFraction n.fraction ++ spellExponent n.exponent)) := by
  rw [Number.spell, List.append_assoc, List.append_assoc]
  rfl

theorem parseFraction_sound {input rest : ByteString} (h : parseFraction.run input = .ok () rest) :
    ∃ fraction : Option Digits, input = spellFraction fraction ++ rest := by
  unfold parseFraction at h
  obtain ⟨_, _, ⟨⟩, h⟩ := bind_eq_ok.mp h
  split at h
  · rename_i dot
    obtain ⟨input, rfl⟩ := List.head?_eq_some_iff.mp dot
    obtain ⟨_, _, ⟨⟩, h⟩ := bind_eq_ok.mp h
    obtain ⟨ds, rfl⟩ := parseDigits_sound h
    exact ⟨some ds, rfl⟩
  · cases h
    exact ⟨none, rfl⟩

theorem parseFraction_complete (fraction : Option Digits) {rest : ByteString} (past : Past isDigit rest)
    (undotted : rest.head? ≠ some 0x2E) : parseFraction.run (spellFraction fraction ++ rest) = .ok () rest := by
  unfold parseFraction
  rw [bind_of_ok (show (get : JsonReader ByteString).run (spellFraction fraction ++ rest) = .ok _ _ from rfl)]
  cases fraction with
  | none =>
      rw [if_neg (by simpa [spellFraction] using undotted)]
      rfl
  | some ds =>
      rw [if_pos (by simp [spellFraction]), bind_of_ok (advance_run 1 _)]
      exact parseDigits_complete _ ds past

theorem parseExponent_sound {input rest : ByteString} (h : parseExponent.run input = .ok () rest) :
    ∃ exponent : Option Exponent, input = spellExponent exponent ++ rest := by
  unfold parseExponent at h
  obtain ⟨_, _, ⟨⟩, h⟩ := bind_eq_ok.mp h
  obtain ⟨_, _, ⟨⟩, h⟩ := bind_eq_ok.mp h
  split at h
  · rename_i letter
    have marked : ∃ upper left, input = (if upper = true then 0x45 else 0x65) :: left := by
      rcases letter with lower | upper
      · obtain ⟨left, rfl⟩ := List.head?_eq_some_iff.mp lower
        exact ⟨false, left, rfl⟩
      · obtain ⟨left, rfl⟩ := List.head?_eq_some_iff.mp upper
        exact ⟨true, left, rfl⟩
    obtain ⟨upper, input, rfl⟩ := marked
    obtain ⟨_, _, ⟨⟩, h⟩ := bind_eq_ok.mp h
    obtain ⟨_, _, ⟨⟩, h⟩ := bind_eq_ok.mp h
    obtain ⟨_, _, ⟨⟩, h⟩ := bind_eq_ok.mp h
    simp only [List.drop_succ_cons, List.drop_zero] at h
    split at h
    · rename_i signed
      have sign : ∃ (sign : Sign) (left : ByteString), input = sign.byte :: left := by
        rcases signed with plus | minus
        · obtain ⟨left, rfl⟩ := List.head?_eq_some_iff.mp plus
          exact ⟨.plus, left, rfl⟩
        · obtain ⟨left, rfl⟩ := List.head?_eq_some_iff.mp minus
          exact ⟨.minus, left, rfl⟩
      obtain ⟨sign, input, rfl⟩ := sign
      obtain ⟨_, _, ⟨⟩, h⟩ := bind_eq_ok.mp h
      obtain ⟨ds, split⟩ := parseDigits_sound h
      refine ⟨some ⟨upper, some sign, ds⟩, ?_⟩
      simp only [List.drop_succ_cons, List.drop_zero] at split
      subst split
      rfl
    · obtain ⟨ds, rfl⟩ := parseDigits_sound h
      exact ⟨some ⟨upper, none, ds⟩, rfl⟩
  · cases h
    exact ⟨none, rfl⟩

theorem parseExponent_complete (exponent : Option Exponent) {rest : ByteString} (past : Past isDigit rest)
    (unmarked : ¬ (rest.head? = some 0x65 ∨ rest.head? = some 0x45)) :
    parseExponent.run (spellExponent exponent ++ rest) = .ok () rest := by
  unfold parseExponent
  rw [bind_of_ok (show (get : JsonReader ByteString).run (spellExponent exponent ++ rest) = .ok _ _ from rfl),
    bind_of_ok (show (get : JsonReader ByteString).run (spellExponent exponent ++ rest) = .ok _ _ from rfl)]
  cases exponent with
  | none =>
      rw [show spellExponent none ++ rest = rest from rfl, if_neg unmarked]
      rfl
  | some e =>
      obtain ⟨upper, sign, ds⟩ := e
      have marked : (spellExponent (some ⟨upper, sign, ds⟩) ++ rest).head? = some 0x65 ∨
          (spellExponent (some ⟨upper, sign, ds⟩) ++ rest).head? = some 0x45 := by
        cases upper
        · exact Or.inl rfl
        · exact Or.inr rfl
      have tail : (spellExponent (some ⟨upper, sign, ds⟩) ++ rest).drop 1 =
          (sign.map Sign.byte).toList ++ (ds.spell ++ rest) := by
        simp [spellExponent, Exponent.spell]
      rw [if_pos marked, bind_of_ok (advance_run 1 _), tail]
      cases sign with
      | none =>
          have unsigned : ¬ ((ds.spell ++ rest).head? = some 0x2B ∨ (ds.spell ++ rest).head? = some 0x2D) := by
            have first : ∀ d : Digit, digit d ≠ 0x2B ∧ digit d ≠ 0x2D := by decide
            simpa [Digits.spell] using first ds.first
          have read := parseDigits_complete "malformed exponent" ds past
          simp only [Option.map_none, Option.toList_none, List.nil_append]
          rw [bind_of_ok (show (get : JsonReader ByteString).run _ = .ok _ _ from rfl),
            bind_of_ok (show (get : JsonReader ByteString).run _ = .ok _ _ from rfl), if_neg unsigned]
          exact read
      | some sign =>
          have signed : (Sign.byte sign :: (ds.spell ++ rest)).head? = some 0x2B ∨
              (Sign.byte sign :: (ds.spell ++ rest)).head? = some 0x2D := by
            cases sign
            · exact Or.inl rfl
            · exact Or.inr rfl
          have read := parseDigits_complete "malformed exponent" ds past
          simp only [Option.map_some, Option.toList_some, List.singleton_append]
          rw [bind_of_ok (show (get : JsonReader ByteString).run _ = .ok _ _ from rfl),
            bind_of_ok (show (get : JsonReader ByteString).run _ = .ok _ _ from rfl), if_pos signed]
          exact read

/-- A byte with which a number may go on. -/
def continues (c : UInt8) : Bool := isDigit c || c == 0x2E || c == 0x65 || c == 0x45

theorem Past.weaken {kind kind' : UInt8 → Bool} {rest : ByteString} (h : Past kind rest)
    (fewer : ∀ c, kind c = false → kind' c = false) : Past kind' rest := fun c first => fewer c (h c first)

theorem Past.ne {kind : UInt8 → Bool} {rest : ByteString} (h : Past kind rest) {c : UInt8} (member : kind c = true) :
    rest.head? ≠ some c := by
  intro first
  rw [h c first] at member
  cases member

theorem past_exponent (exponent : Option Exponent) {rest : ByteString} (past : Past isDigit rest) :
    Past isDigit (spellExponent exponent ++ rest) := by
  cases exponent with
  | none => exact past
  | some e =>
      refine .cons ?_ _
      cases e.upper <;> decide

theorem past_fraction (fraction : Option Digits) {rest : ByteString} (past : Past isDigit rest) :
    Past isDigit (spellFraction fraction ++ rest) := by
  cases fraction with
  | none => exact past
  | some ds => exact .cons (by decide) _

theorem parseNumber_sound {input rest : ByteString} {tree : JsonValue} (h : parseNumber.run input = .ok tree rest) :
    ∃ n : Number, input = n.spell ++ rest ∧ tree = .number n.spell := by
  have token : ∀ {word : ByteString}, input = word ++ rest → input.take (input.length - rest.length) = word := by
    rintro word rfl
    simp
  unfold parseNumber at h
  obtain ⟨_, _, ⟨⟩, h⟩ := bind_eq_ok.mp h
  obtain ⟨_, _, ⟨⟩, h⟩ := bind_eq_ok.mp h
  have body : ∀ (minus : Bool) {left : ByteString}, input = (if minus = true then [0x2D] else []) ++ left →
      (do
        parseInteger
        parseFraction
        parseExponent
        return JsonValue.number (input.take (input.length - (← get).length)) : JsonReader JsonValue).run left =
          .ok tree rest → ∃ n : Number, input = n.spell ++ rest ∧ tree = .number n.spell := by
    intro minus left split h
    obtain ⟨_, _, first, h⟩ := bind_eq_ok.mp h
    obtain ⟨_, _, second, h⟩ := bind_eq_ok.mp h
    obtain ⟨_, last, third, h⟩ := bind_eq_ok.mp h
    obtain ⟨_, _, ⟨⟩, h⟩ := bind_eq_ok.mp h
    obtain ⟨rfl, rfl⟩ := pure_eq_ok.mp h
    obtain ⟨integer, rfl⟩ := parseInteger_sound first
    obtain ⟨fraction, rfl⟩ := parseFraction_sound second
    obtain ⟨exponent, rfl⟩ := parseExponent_sound third
    have spelled : input = Number.spell ⟨minus, integer, fraction, exponent⟩ ++ last := by
      rw [split, number_spell]
      simp only [List.append_assoc]
    exact ⟨_, spelled, by rw [token spelled]⟩
  split at h
  · rename_i minus
    obtain ⟨left, rfl⟩ := headD_eq (by decide) minus
    obtain ⟨_, _, ⟨⟩, h⟩ := bind_eq_ok.mp h
    exact body true rfl h
  · exact body false rfl h

theorem parseNumber_complete (n : Number) {rest : ByteString} (past : Past continues rest) :
    parseNumber.run (n.spell ++ rest) = .ok (.number n.spell) rest := by
  have digits : Past isDigit rest := past.weaken fun c h => by simp_all [continues]
  have unmarked : ¬ (rest.head? = some 0x65 ∨ rest.head? = some 0x45) := by
    rintro (lower | upper)
    · exact past.ne rfl lower
    · exact past.ne rfl upper
  have undotted : (spellExponent n.exponent ++ rest).head? ≠ some 0x2E := by
    cases n.exponent with
    | none => exact past.ne rfl
    | some e =>
        change some (if e.upper = true then 0x45 else 0x65) ≠ some (0x2E : UInt8)
        cases e.upper <;> decide
  have token : (n.spell ++ rest).take ((n.spell ++ rest).length - rest.length) = n.spell := by simp
  have body : (do
      parseInteger
      parseFraction
      parseExponent
      return JsonValue.number ((n.spell ++ rest).take ((n.spell ++ rest).length - (← get).length)) :
        JsonReader JsonValue).run (n.integer.spell ++ (spellFraction n.fraction ++ (spellExponent n.exponent ++ rest))) =
      .ok (.number n.spell) rest := by
    rw [bind_of_ok (parseInteger_complete n.integer (past_fraction _ (past_exponent _ digits))),
      bind_of_ok (parseFraction_complete n.fraction (past_exponent _ digits) undotted),
      bind_of_ok (parseExponent_complete n.exponent digits unmarked)]
    rw [bind_of_ok (show (get : JsonReader ByteString).run rest = .ok rest rest from rfl), token]
    rfl
  have spelled : n.spell ++ rest = (if n.minus then [0x2D] else []) ++
      (n.integer.spell ++ (spellFraction n.fraction ++ (spellExponent n.exponent ++ rest))) := by
    rw [number_spell]
    simp only [List.append_assoc]
  unfold parseNumber
  rw [bind_of_ok (show (get : JsonReader ByteString).run (n.spell ++ rest) = .ok _ _ from rfl),
    bind_of_ok (peek_run _)]
  cases minus : n.minus with
  | true =>
      rw [minus] at spelled
      have dash : (n.spell ++ rest).headD 0 = 0x2D := by rw [spelled]; rfl
      have after : (n.spell ++ rest).drop 1 =
          n.integer.spell ++ (spellFraction n.fraction ++ (spellExponent n.exponent ++ rest)) := by
        rw [spelled]
        rfl
      rw [if_pos dash, bind_of_ok (advance_run 1 _), after]
      exact body
  | false =>
      rw [minus] at spelled
      have undashed : (n.spell ++ rest).headD 0 ≠ 0x2D := by
        rw [spelled]
        cases n.integer with
        | zero => exact (by decide : (0x30 : UInt8) ≠ 0x2D)
        | positive first ds =>
            have each : ∀ d : Fin 9, (0x31 + UInt8.ofNat d : UInt8) ≠ 0x2D := by decide
            exact each first
      rw [if_neg undashed]
      have whole : n.spell ++ rest =
          n.integer.spell ++ (spellFraction n.fraction ++ (spellExponent n.exponent ++ rest)) := spelled
      rw [← whole] at body
      exact body

end Zen.Proof
