import Zen.Core.Json

/-!
# UTF-8 and the texts of a JSON tree
-/

namespace Zen.Spec

/-- A Unicode scalar value: a code point that is not a surrogate. -/
def Scalar (cp : Nat) : Prop := cp ≤ 0x10FFFF ∧ ¬(0xD800 ≤ cp ∧ cp ≤ 0xDFFF)

instance (cp : Nat) : Decidable (Scalar cp) := inferInstanceAs (Decidable (_ ∧ _))

/-- The bytes spell a sequence of scalar values. -/
def Utf8 (s : ByteString) : Prop := ∃ cps : List Nat, (∀ cp ∈ cps, Scalar cp) ∧ s = cps.flatMap encodeUtf8

/-- Every key and every string of the tree is a text of `P`. -/
inductive Texts (P : ByteString → Prop) : JsonValue → Prop where
  | null : Texts P .null
  | bool (boolean : Bool) : Texts P (.bool boolean)
  | number (text : ByteString) : Texts P (.number text)
  | string {text : ByteString} (good : P text) : Texts P (.string text)
  | array {items : List JsonValue} (good : ∀ v ∈ items, Texts P v) : Texts P (.array items)
  | object {members : List (ByteString × JsonValue)} (keys : ∀ m ∈ members, P m.1)
      (values : ∀ m ∈ members, Texts P m.2) : Texts P (.object members)

end Zen.Spec
