import Zen.Core.Json

/-!
# The grammar of RFC 8259

One type for each production, with the bytes that a derivation spells and the tree that it denotes.
A string may hold any byte from 0x20 on as it is, but for the quote and the backslash.
-/

namespace Zen.Spec.Json

/-! ## White space -/

inductive Blank where
  | space | tab | newline | carriage

def Blank.byte : Blank → UInt8
  | space => 0x20
  | tab => 0x09
  | newline => 0x0A
  | carriage => 0x0D

abbrev Ws := List Blank

def Ws.spell (w : Ws) : ByteString := w.map Blank.byte

/-- A structural character has white space on both sides. -/
structure Around where
  before : Ws
  after : Ws

def Around.spell (a : Around) (c : UInt8) : ByteString := a.before.spell ++ [c] ++ a.after.spell

/-! ## Numbers -/

abbrev Digit := Fin 10

def digit (d : Digit) : UInt8 := 0x30 + UInt8.ofNat d

structure Digits where
  first : Digit
  rest : List Digit

def Digits.spell (ds : Digits) : ByteString := digit ds.first :: ds.rest.map digit

inductive Integer where
  | zero
  | positive (first : Fin 9) (rest : List Digit)

def Integer.spell : Integer → ByteString
  | zero => [0x30]
  | positive first rest => (0x31 + UInt8.ofNat first) :: rest.map digit

inductive Sign where
  | plus | minus

def Sign.byte : Sign → UInt8
  | plus => 0x2B
  | minus => 0x2D

structure Exponent where
  upper : Bool
  sign : Option Sign
  digits : Digits

def Exponent.spell (e : Exponent) : ByteString :=
  [if e.upper then 0x45 else 0x65] ++ (e.sign.map Sign.byte).toList ++ e.digits.spell

structure Number where
  minus : Bool
  integer : Integer
  fraction : Option Digits
  exponent : Option Exponent

def Number.spell (n : Number) : ByteString :=
  (if n.minus then [0x2D] else []) ++ n.integer.spell ++
    (match n.fraction with
      | some ds => 0x2E :: ds.spell
      | none => []) ++
    match n.exponent with
      | some e => e.spell
      | none => []

/-! ## Strings -/

inductive Hex where
  | digit (d : Digit)
  | letter (upper : Bool) (d : Fin 6)

def Hex.byte : Hex → UInt8
  | digit d => Json.digit d
  | letter upper d => (if upper then 0x41 else 0x61) + UInt8.ofNat d

def Hex.value : Hex → Nat
  | digit d => d
  | letter _ d => 10 + d

inductive Escape where
  | quote | backslash | slash | backspace | formFeed | lineFeed | carriageReturn | tab

def Escape.byte : Escape → UInt8
  | quote => 0x22
  | backslash => 0x5C
  | slash => 0x2F
  | backspace => 0x62
  | formFeed => 0x66
  | lineFeed => 0x6E
  | carriageReturn => 0x72
  | tab => 0x74

def Escape.denotes : Escape → UInt8
  | quote => 0x22
  | backslash => 0x5C
  | slash => 0x2F
  | backspace => 0x08
  | formFeed => 0x0C
  | lineFeed => 0x0A
  | carriageReturn => 0x0D
  | tab => 0x09

inductive Chr where
  | raw (b : UInt8) (unescaped : 0x20 ≤ b ∧ b ≠ 0x22 ∧ b ≠ 0x5C)
  | escaped (e : Escape)
  | unicode (a b c d : Hex)

def Chr.spell : Chr → ByteString
  | raw b _ => [b]
  | escaped e => [0x5C, e.byte]
  | unicode a b c d => [0x5C, 0x75, a.byte, b.byte, c.byte, d.byte]

def codeUnit (a b c d : Hex) : Nat := ((a.value * 16 + b.value) * 16 + c.value) * 16 + d.value

def high (unit : Nat) : Bool := 0xD800 ≤ unit && unit ≤ 0xDBFF
def low (unit : Nat) : Bool := 0xDC00 ≤ unit && unit ≤ 0xDFFF

/-- The bytes of a code point. -/
def utf8 (cp : Nat) : ByteString := String.utf8EncodeChar (Char.ofNat cp)

/-- Every escape of a surrogate is a pair of a high and a low one. -/
def paired : List Chr → Bool
  | [] => true
  | .unicode a b c d :: cs =>
      if high (codeUnit a b c d) then
        match cs with
        | .unicode a' b' c' d' :: cs => low (codeUnit a' b' c' d') && paired cs
        | _ => false
      else !low (codeUnit a b c d) && paired cs
  | _ :: cs => paired cs

/-- A pair of surrogates is one character, as is every other element of a string. -/
def decoded : List Chr → ByteString
  | [] => []
  | .raw b _ :: cs => b :: decoded cs
  | .escaped e :: cs => e.denotes :: decoded cs
  | .unicode a b c d :: cs =>
      if high (codeUnit a b c d) then
        match cs with
        | .unicode a' b' c' d' :: cs =>
            utf8 (0x10000 + (codeUnit a b c d - 0xD800) * 0x400 + (codeUnit a' b' c' d' - 0xDC00)) ++ decoded cs
        | _ => []
      else utf8 (codeUnit a b c d) ++ decoded cs

def spellString (s : List Chr) : ByteString := [0x22] ++ s.flatMap Chr.spell ++ [0x22]

/-! ## Values -/

mutual

inductive Node where
  | false
  | null
  | true
  | emptyObject (opening closing : Around)
  | object (opening : Around) (members : Members) (closing : Around)
  | emptyArray (opening closing : Around)
  | array (opening : Around) (items : Items) (closing : Around)
  | number (n : Number)
  | string (s : List Chr)

inductive Members where
  | one (name : List Chr) (colon : Around) (value : Node)
  | more (name : List Chr) (colon : Around) (value : Node) (comma : Around) (members : Members)

inductive Items where
  | one (value : Node)
  | more (value : Node) (comma : Around) (items : Items)

end

mutual

def Node.spell : Node → ByteString
  | .false => "false"
  | .null => "null"
  | .true => "true"
  | .emptyObject opening closing => opening.spell 0x7B ++ closing.spell 0x7D
  | .object opening members closing => opening.spell 0x7B ++ members.spell ++ closing.spell 0x7D
  | .emptyArray opening closing => opening.spell 0x5B ++ closing.spell 0x5D
  | .array opening items closing => opening.spell 0x5B ++ items.spell ++ closing.spell 0x5D
  | .number n => n.spell
  | .string s => spellString s

def Members.spell : Members → ByteString
  | .one name colon value => spellString name ++ colon.spell 0x3A ++ value.spell
  | .more name colon value comma members =>
      spellString name ++ colon.spell 0x3A ++ value.spell ++ comma.spell 0x2C ++ members.spell

def Items.spell : Items → ByteString
  | .one value => value.spell
  | .more value comma items => value.spell ++ comma.spell 0x2C ++ items.spell

end

def Members.names : Members → List ByteString
  | .one name _ _ => [decoded name]
  | .more name _ _ _ members => decoded name :: members.names

mutual

def Node.denotes : Node → JsonValue
  | .false => .bool .false
  | .null => .null
  | .true => .bool .true
  | .emptyObject _ _ => .object []
  | .object _ members _ => .object members.denotes
  | .emptyArray _ _ => .array []
  | .array _ items _ => .array items.denotes
  | .number n => .number n.spell
  | .string s => .string (decoded s)

def Members.denotes : Members → List (ByteString × JsonValue)
  | .one name _ value => [(decoded name, value.denotes)]
  | .more name _ value _ members => (decoded name, value.denotes) :: members.denotes

def Items.denotes : Items → List JsonValue
  | .one value => [value.denotes]
  | .more value _ items => value.denotes :: items.denotes

end

mutual

/-- Objects and arrays nest at most `d` deep. -/
def Node.nests (d : Int) : Node → Bool
  | .emptyObject _ _ | .emptyArray _ _ => 1 ≤ d
  | .object _ members _ => 1 ≤ d && members.nest (d - 1)
  | .array _ items _ => 1 ≤ d && items.nest (d - 1)
  | _ => .true

def Members.nest (d : Int) : Members → Bool
  | .one _ _ value => value.nests d
  | .more _ _ value _ members => value.nests d && members.nest d

def Items.nest (d : Int) : Items → Bool
  | .one value => value.nests d
  | .more value _ items => value.nests d && items.nest d

end

mutual

/-- No object has two members of the same decoded name. -/
def Node.distinct : Node → Bool
  | .object _ members _ => members.names.Nodup && members.distinct
  | .array _ items _ => items.distinct
  | _ => .true

def Members.distinct : Members → Bool
  | .one _ _ value => value.distinct
  | .more _ _ value _ members => value.distinct && members.distinct

def Items.distinct : Items → Bool
  | .one value => value.distinct
  | .more value _ items => value.distinct && items.distinct

end

mutual

def Node.paired : Node → Bool
  | .object _ members _ => members.paired
  | .array _ items _ => items.paired
  | .string s => Json.paired s
  | _ => .true

def Members.paired : Members → Bool
  | .one name _ value => Json.paired name && value.paired
  | .more name _ value _ members => Json.paired name && value.paired && members.paired

def Items.paired : Items → Bool
  | .one value => value.paired
  | .more value _ items => value.paired && items.paired

end

structure Text where
  before : Ws
  value : Node
  after : Ws

def Text.spell (text : Text) : ByteString := text.before.spell ++ text.value.spell ++ text.after.spell

end Zen.Spec.Json
