import Mathlib.Data.List.Forall2
import Zen.Author.Shape
import Zen.Spec.Native

/-!
# What a shape says of its values

`Named` is what a struct brings with it: its members have names, and no two of them the same, at any
depth. `Same` compares two values at the members of a shape, wherever they are nested.
-/

namespace Zen.Author
open Raw (Cell)

mutual

def Member.Named : Member → Prop
  | .vector element => element.Named
  | .shape s => s.Named
  | _ => True

def Shape.Named : Shape → Prop
  | ⟨_, _, entries⟩ =>
      (∀ e ∈ entries, e.name ≠ []) ∧ (entries.map FieldEntry.name).Nodup ∧ entriesNamed entries

def entriesNamed : List FieldEntry → Prop
  | [] => True
  | ⟨_, member⟩ :: entries => member.Named ∧ entriesNamed entries

end

mutual

def Member.Same : Member → Cell → Cell → Prop
  | .int64, c, d | .double, c, d | .string, c, d | .bool, c, d | .bytes, c, d => c = d
  | .vector element, c, d => ∃ cells cells', c = .list cells ∧ d = .list cells' ∧ List.Forall₂ element.Same cells cells'
  | .shape s, c, d => ∃ v w, c = .message v ∧ d = .message w ∧ s.Same v w

def Shape.Same : Shape → Raw.Value → Raw.Value → Prop
  | ⟨_, _, entries⟩, v, w => entriesSame entries v w

def entriesSame : List FieldEntry → Raw.Value → Raw.Value → Prop
  | [], _, _ => True
  | ⟨name, member⟩ :: entries, v, w =>
      (∃ c d, v.get name = some c ∧ w.get name = some d ∧ member.Same c d) ∧ entriesSame entries v w

end

end Zen.Author
