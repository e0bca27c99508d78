import Zen.Core.Bytes
import Zen.Lib.Reader

/-!
# JSON texts

The reader recurses with a fuel that its input cannot use up. Bytes are written as their ASCII codes.
-/

namespace Zen
open Lib

/-- Numbers keep their token. -/
inductive JsonValue where
  | null
  | bool (boolean : Bool)
  | number (text : ByteString)
  | string (text : ByteString)
  | array (items : List JsonValue)
  | object (members : List (ByteString × JsonValue))

namespace JsonValue

def find (key : ByteString) : JsonValue → Option JsonValue
  | object members => (members.find? fun m => m.1 == key).map Prod.snd
  | _ => none

end JsonValue

def encodeUtf8 (cp : Nat) : ByteString :=
  if cp ≤ 0x7F then [UInt8.ofNat cp]
  else if cp ≤ 0x7FF then [UInt8.ofNat (0xC0 ||| (cp >>> 6)), UInt8.ofNat (0x80 ||| (cp &&& 0x3F))]
  else if cp ≤ 0xFFFF then
    [UInt8.ofNat (0xE0 ||| (cp >>> 12)), UInt8.ofNat (0x80 ||| ((cp >>> 6) &&& 0x3F)),
      UInt8.ofNat (0x80 ||| (cp &&& 0x3F))]
  else
    [UInt8.ofNat (0xF0 ||| (cp >>> 18)), UInt8.ofNat (0x80 ||| ((cp >>> 12) &&& 0x3F)),
      UInt8.ofNat (0x80 ||| ((cp >>> 6) &&& 0x3F)), UInt8.ofNat (0x80 ||| (cp &&& 0x3F))]

abbrev JsonReader (α : Type) := Reader ByteString UInt8 α

namespace JsonReader

-- `'\0'` at the end of the input
def peek : JsonReader UInt8 := do return (← get).headD 0

def advance (n : Nat) : JsonReader Unit := modify fun input => input.drop n

def isBlank (c : UInt8) : Bool := c == 0x20 || c == 0x09 || c == 0x0A || c == 0x0D

def isDigit (c : UInt8) : Bool := 0x30 ≤ c && c ≤ 0x39

def skipWs : JsonReader Unit := modify fun input => input.dropWhile isBlank

def skipDigits : JsonReader Unit := modify fun input => input.dropWhile isDigit

/-! ## Strings -/

def hexValue (c : UInt8) : Option Nat :=
  if 0x30 ≤ c ∧ c ≤ 0x39 then some (c.toNat - 0x30)
  else if 0x61 ≤ c ∧ c ≤ 0x66 then some (c.toNat - 0x61 + 10)
  else if 0x41 ≤ c ∧ c ≤ 0x46 then some (c.toNat - 0x41 + 10)
  else none

def hexFold : (cp : Nat) → ByteString → Option Nat
  | cp, [] => some cp
  | cp, c :: rest =>
      match hexValue c with
      | none => none
      | some d => hexFold ((cp <<< 4) ||| d) rest

def parseHex4 : JsonReader Nat := do
  let input ← get
  if input.length < 4 then throw (ascii "truncated \\u escape")
  else
    match hexFold 0 (input.take 4) with
    | none => throw (ascii "invalid \\u escape")
    | some cp => do
        advance 4
        return cp

def isHighSurrogate (cp : Nat) : Bool := 0xD800 ≤ cp && cp ≤ 0xDBFF
def isLowSurrogate (cp : Nat) : Bool := 0xDC00 ≤ cp && cp ≤ 0xDFFF

def parseUnicode : JsonReader ByteString := do
  let cp ← parseHex4
  if isHighSurrogate cp then
    if (← get).take 2 ≠ [0x5C, 0x75] then throw (ascii "unpaired high surrogate") -- "\u"
    else do
      advance 2
      let lo ← parseHex4
      if !isLowSurrogate lo then throw (ascii "invalid low surrogate")
      else return encodeUtf8 (0x10000 + ((cp - 0xD800) <<< 10) + (lo - 0xDC00))
  else if isLowSurrogate cp then throw (ascii "unexpected low surrogate")
  else return encodeUtf8 cp

def parseEscape : JsonReader ByteString := do
  match ← get with
  | [] => throw (ascii "unterminated escape")
  | e :: rest => do
      set rest
      if e = 0x22 then return [0x22] -- a quote
      else if e = 0x5C then return [0x5C] -- a backslash
      else if e = 0x2F then return [0x2F] -- a slash
      else if e = 0x62 then return [0x08] -- b
      else if e = 0x66 then return [0x0C] -- f
      else if e = 0x6E then return [0x0A] -- n
      else if e = 0x72 then return [0x0D] -- r
      else if e = 0x74 then return [0x09] -- t
      else if e = 0x75 then parseUnicode -- u
      else throw (ascii "invalid escape")

def parseStringLoop : (fuel : Nat) → (out : ByteString) → JsonReader ByteString
  | 0, _ => throw (ascii "malformed JSON")
  | fuel + 1, out => do
      match ← get with
      | [] => throw (ascii "unterminated string")
      | c :: rest =>
          if c = 0x22 then do
            set rest
            return out
          else if c = 0x5C then do
            set rest
            let piece ← parseEscape
            parseStringLoop fuel (out ++ piece)
          else if c < 0x20 then throw (ascii "control character in string")
          else do
            set rest
            parseStringLoop fuel (out ++ [c])

def parseString : JsonReader ByteString := do
  advance 1
  parseStringLoop ((← get).length + 1) []

/-! ## Numbers and literals -/

def parseInteger : JsonReader Unit := do
  match ← get with
  | [] => throw (ascii "malformed number")
  | c :: _ =>
      if c = 0x30 then advance 1
      else if 0x31 ≤ c ∧ c ≤ 0x39 then skipDigits
      else throw (ascii "malformed number")

def parseDigits (error : ByteString) : JsonReader Unit := do
  match ← get with
  | [] => throw error
  | c :: _ => if isDigit c then skipDigits else throw error

def parseFraction : JsonReader Unit := do
  if (← get).head? = some 0x2E then do -- '.'
    advance 1
    parseDigits "malformed fraction"
  else return

def parseExponent : JsonReader Unit := do
  if (← get).head? = some 0x65 ∨ (← get).head? = some 0x45 then do -- 'e' and 'E'
    advance 1
    if (← get).head? = some 0x2B ∨ (← get).head? = some 0x2D then advance 1 -- '+' and '-'
    parseDigits "malformed exponent"
  else return

def parseNumber : JsonReader JsonValue := do
  let start ← get
  if (← peek) = 0x2D then advance 1 -- '-'
  parseInteger
  parseFraction
  parseExponent
  return .number (start.take (start.length - (← get).length))

def matchLiteral (lit : ByteString) : JsonReader Unit := do
  if (← get).take lit.length ≠ lit then throw (ascii "invalid literal") else advance lit.length

def parseBool : JsonReader JsonValue := do
  if (← peek) = 0x74 then do -- 't'
    matchLiteral "true"
    return .bool true
  else do
    matchLiteral "false"
    return .bool false

def parseNull : JsonReader JsonValue := do
  matchLiteral "null"
  return .null

/-! ## Values -/

def enter (maxDepth depth : Int) : JsonReader Unit :=
  if maxDepth < depth + 1 then throw (ascii "maximum nesting depth exceeded") else return

-- `loop` reads the members, the object being not empty
def parseObject (maxDepth depth : Int) (loop : JsonReader JsonValue) : JsonReader JsonValue := do
  enter maxDepth depth
  advance 1
  skipWs
  if (← peek) = 0x7D then do -- '}'
    advance 1
    return .object []
  else loop

def parseArray (maxDepth depth : Int) (loop : JsonReader JsonValue) : JsonReader JsonValue := do
  enter maxDepth depth
  advance 1
  skipWs
  if (← peek) = 0x5D then do -- ']'
    advance 1
    return .array []
  else loop

mutual

def parseValue (maxDepth : Int) : (fuel : Nat) → (depth : Int) → JsonReader JsonValue
  | 0, _ => throw (ascii "malformed JSON")
  | fuel + 1, depth => do
      skipWs
      match ← get with
      | [] => throw (ascii "unexpected end of input")
      | c :: _ =>
          if c = 0x7B then parseObject maxDepth depth (parseMembers maxDepth fuel depth []) -- '{'
          else if c = 0x5B then parseArray maxDepth depth (parseItems maxDepth fuel depth []) -- '['
          else if c = 0x22 then return .string (← parseString)
          else if c = 0x74 ∨ c = 0x66 then parseBool -- 't' and 'f'
          else if c = 0x6E then parseNull -- 'n'
          else if c = 0x2D ∨ isDigit c then parseNumber
          else throw (ascii "unexpected character")

def parseMembers (maxDepth : Int) : (fuel : Nat) → (depth : Int) → (members : List (ByteString × JsonValue)) →
    JsonReader JsonValue
  | 0, _, _ => throw (ascii "malformed JSON")
  | fuel + 1, depth, members => do
      skipWs
      if (← peek) ≠ 0x22 then throw (ascii "expected string key in object")
      else do
        let key ← parseString
        if members.any fun m => m.1 == key then throw (ascii "duplicate object key")
        else do
          skipWs
          if (← peek) ≠ 0x3A then throw (ascii "expected ':' in object")
          else do
            advance 1
            let val ← parseValue maxDepth fuel (depth + 1)
            skipWs
            let c ← peek
            if c = 0x2C then do -- ','
              advance 1
              parseMembers maxDepth fuel depth (members ++ [(key, val)])
            else if c = 0x7D then do
              advance 1
              return .object (members ++ [(key, val)])
            else throw (ascii "expected ',' or '\x7d' in object")

def parseItems (maxDepth : Int) : (fuel : Nat) → (depth : Int) → (items : List JsonValue) → JsonReader JsonValue
  | 0, _, _ => throw (ascii "malformed JSON")
  | fuel + 1, depth, items => do
      let val ← parseValue maxDepth fuel (depth + 1)
      skipWs
      let c ← peek
      if c = 0x2C then do
        advance 1
        parseItems maxDepth fuel depth (items ++ [val])
      else if c = 0x5D then do
        advance 1
        return .array (items ++ [val])
      else throw (ascii "expected ',' or ']' in array")

end

def parseText (maxDepth : Int) (fuel : Nat) : JsonReader JsonValue := do
  skipWs
  let v ← parseValue maxDepth fuel 0
  skipWs
  if (← get) ≠ [] then throw (ascii "trailing characters after JSON value") else return v

end JsonReader

def parseJson (input : ByteString) (maxDepth : Int) : Except ByteString JsonValue :=
  match (JsonReader.parseText maxDepth (2 * input.length + 2)).run input with
  | .ok v _ => .ok v
  | .error e _ => .error e

/-! ## Writing -/

def hexChar (d : Nat) : UInt8 := UInt8.ofNat (if d < 10 then 0x30 + d else 0x61 + (d - 10))

def quoteByte (c : UInt8) : ByteString :=
  if c = 0x22 then ascii "\\\""
  else if c = 0x5C then ascii "\\\\"
  else if c = 0x08 then ascii "\\b"
  else if c = 0x0C then ascii "\\f"
  else if c = 0x0A then ascii "\\n"
  else if c = 0x0D then ascii "\\r"
  else if c = 0x09 then ascii "\\t"
  else if c < 0x20 then ascii "\\u00" ++ [hexChar (c.toNat >>> 4 &&& 0xF), hexChar (c.toNat &&& 0xF)]
  else [c]

def jsonQuote (s : ByteString) : ByteString := [0x22] ++ s.flatMap quoteByte ++ [0x22]

end Zen
