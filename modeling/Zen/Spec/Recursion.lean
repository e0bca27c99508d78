import Zen.Kernel.SchemaCodec

/-!
# The recursion of the descriptor decoder

The decoder with a meter: the state is the deepest level that `decodeType` has been called at, where
the call for a field is at level 0.
-/

namespace Zen

namespace Raw

def TypeRef.nesting : TypeRef → Nat
  | .list element => element.nesting + 1
  | _ => 0

end Raw

namespace Kernel
open Raw (Cell)

abbrev Metered (α : Type) := EStateM Exn Nat α

def entered (level : Nat) : Metered Unit := modify (max level)

def Metered.of {α : Type} : Except Exn α → Metered α
  | .ok a => return a
  | .error e => throw e

def meteredType (deps : Registry) : (level : Nat) → (tokens : List Cell) → Metered (TypeRef × List Cell)
  | level, [] => do
      entered level
      throw (.runtimeError "schema descriptor: truncated type-token stream")
  | level, token :: rest => do
      entered level
      let tok := Cell.asMessage (some token)
      let raw := Cell.asInt (tok.get "kind")
      if raw < 0 ∨ raw > 6 then throw (.runtimeError "schema descriptor: kind out of range")
      else if raw = 5 then
        match tok.get "ref_name", tok.get "ref_version" with
        | some refName, some refVersion =>
            let name := Cell.asText (some refName)
            match deps.lookup name (Cell.asInt (some refVersion)).toUInt64.toUInt32 with
            | some ref => return (typeMessage ref, rest)
            | none => throw (.runtimeError
                (ascii "schema descriptor: unresolved nested schema '" ++ name ++ ascii "'"))
        | _, _ => throw (.runtimeError "schema descriptor: Message token missing its reference")
      else if raw = 6 then do
        let (element, rest) ← meteredType deps (level + 1) rest
        return (typeList element, rest)
      else return (typeOf raw, rest)

def meteredField (deps : Registry) (fd : Raw.Value) : Metered Field := do
  let (type, rest) ← meteredType deps 0 (Cell.asList (fd.get "type"))
  if !rest.isEmpty then throw (.runtimeError "schema descriptor: trailing type tokens")
  return ⟨Cell.asText (fd.get "name"), type, Cell.asBool (fd.get "required")⟩

def meteredSchema (desc : Raw.Value) (deps : Registry) : Metered Schema := do
  let rebuilt ← (Cell.asList (desc.get "fields")).mapM fun c => meteredField deps (Cell.asMessage (some c))
  Metered.of (Schema.make (Cell.asText (desc.get "name")) (Cell.asInt (desc.get "version")).toUInt64.toUInt32 rebuilt)

/-- The levels that `decodeType` recurses while the descriptor is decoded. -/
def recursionDepth (desc : Raw.Value) (deps : Registry) : Nat :=
  match (meteredSchema desc deps).run 0 with
  | .ok _ n | .error _ n => n

/-! ## Shallow descriptors -/

def isListToken (token : Cell) : Bool := Cell.asInt ((Cell.asMessage (some token)).get "kind") = 6

/-- The List tokens that a stream begins with. -/
def leadingLists (tokens : List Cell) : Nat := (tokens.takeWhile isListToken).length

def fieldLists (c : Cell) : Nat := leadingLists (Cell.asList ((Cell.asMessage (some c)).get "type"))

/-- No field that comes after decodable ones only begins its type with more List tokens than the cap. -/
def Shallow (desc : Raw.Value) (deps : Registry) : Prop :=
  ∀ before c after, Cell.asList (desc.get "fields") = before ++ c :: after →
    (∀ b ∈ before, ∃ f, decodeField deps (Cell.asMessage (some b)) = .ok f) → fieldLists c ≤ kMaxBinaryDepth

end Kernel
end Zen
