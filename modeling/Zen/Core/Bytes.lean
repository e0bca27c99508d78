import Mathlib.Data.List.Basic

/-!
# Byte strings and exceptions

Every text of the program is a byte string: names are arbitrary bytes, not Unicode.
-/

namespace Zen

abbrev ByteString := List UInt8

def ascii (s : String) : ByteString := s.toList.map fun c => UInt8.ofNat c.toNat

instance : Coe String ByteString := ⟨ascii⟩

instance : LawfulBEq ByteString := inferInstance

-- std::to_string, of unsigned and of signed integers
def decimal (n : Nat) : ByteString := (Nat.toDigits 10 n).map fun c => UInt8.ofNat c.toNat

def signedDecimal (n : Int) : ByteString :=
  if n < 0 then ascii "-" ++ decimal n.natAbs else decimal n.natAbs

inductive Exn where
  | invalidArgument (what : ByteString)
  | runtimeError (what : ByteString)
  | schemaConflict (what : ByteString)
  | dllBoundary (what : ByteString)
  deriving DecidableEq

def Exn.what : Exn → ByteString
  | .invalidArgument what | .runtimeError what | .schemaConflict what | .dllBoundary what => what

end Zen
