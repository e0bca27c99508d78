import Zen.Core.Access
import Zen.Kernel.SchemaCodec
import Zen.Switchboard.Switchboard

/-!
# Consumers of gated values

The functions that read a value without a check, since the gate has seen it. Each access is kept
with the fault that it can run into.
-/

namespace Zen.Kernel
open Raw (Cell)

/-- A computation that may throw an exception of its own, or fault. -/
abbrev Unguarded (α : Type) := ExceptT Exn (Except Fault) α

def decodeType! (deps : Registry) : (tokens : List Cell) → Unguarded (TypeRef × List Cell)
  | [] => throw (.runtimeError "schema descriptor: truncated type-token stream")
  | token :: rest => do
      let tok ← token.asMessage!
      let raw ← (← tok.get! "kind").asInt!
      if raw < 0 ∨ raw > 6 then throw (.runtimeError "schema descriptor: kind out of range")
      else if raw = 5 then
        match tok.get "ref_name", tok.get "ref_version" with
        | some refName, some refVersion => do
            let name ← refName.asText!
            let version ← refVersion.asInt!
            match deps.lookup name version.toUInt64.toUInt32 with
            | some ref => return (typeMessage ref, rest)
            | none => throw (.runtimeError
                (ascii "schema descriptor: unresolved nested schema '" ++ name ++ ascii "'"))
        | _, _ => throw (.runtimeError "schema descriptor: Message token missing its reference")
      else if raw = 6 then do
        let (element, rest) ← decodeType! deps rest
        return (typeList element, rest)
      else return (typeOf raw, rest)

def decodeField! (deps : Registry) (fieldCell : Cell) : Unguarded Field := do
  let fd ← fieldCell.asMessage!
  let name ← (← fd.get! "name").asText!
  let required ← (← fd.get! "required").asBool!
  let tokens ← (← fd.get! "type").asList!
  let (type, rest) ← decodeType! deps tokens
  if !rest.isEmpty then throw (.runtimeError "schema descriptor: trailing type tokens")
  return ⟨name, type, required⟩

def decodeSchema! (desc : Raw.Value) (deps : Registry) : Unguarded Schema := do
  let name ← (← desc.get! "name").asText!
  let version ← (← desc.get! "version").asInt!
  let fields ← (← desc.get! "fields").asList!
  let rebuilt ← fields.mapM (decodeField! deps)
  ExceptT.mk (.ok (Schema.make name version.toUInt64.toUInt32 rebuilt))

end Zen.Kernel

namespace Zen.Sb

-- what `reload` reads of a policy
def policyReads! (policy : Raw.Value) : Except Fault (Int64 × Bool) := do
  let maxReloads ← (← policy.get! "max_reloads").asInt!
  let reviveFromLastGood ← (← policy.get! "revive_from_last_good").asBool!
  return (maxReloads, reviveFromLastGood)

end Zen.Sb
