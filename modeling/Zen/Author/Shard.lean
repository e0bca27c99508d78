import Zen.Author.Shape
import Zen.Switchboard.Machine

/-!
# Authored Shards

A class derived from `ShardBase` is its state shape, the shapes it accepts and its policy. `handle`
routes a delivered message to the handler of one accepted shape; what the handlers do is a parameter.
-/

namespace Zen.Author
open Lib Sb

structure LifecyclePolicy where
  maxReloads : Int64 := 4
  reviveFromLastGood : Bool := true

structure ShardClass where
  state : Shape
  accept : List Shape
  policyConfig : LifecyclePolicy := {}

namespace ShardClass

def acceptedSchemas (c : ShardClass) : Except Exn (List Schema) := c.accept.mapM Shape.schemaOf

def snapshot (c : ShardClass) (state : c.state.Object) : Except Exn Value := c.state.toValue state

def revive (c : ShardClass) (v : Value) : Except Fault c.state.Object := fromValue c.state v.raw

-- the value after both of its fields are set
def policy (c : ShardClass) : Value :=
  ⟨⟨lifecyclePolicySchema.raw, [some (.int c.policyConfig.maxReloads), some (.bool c.policyConfig.reviveFromLastGood)]⟩,
    Eq.refl true⟩

end ShardClass

/-! ## Handling a message -/

/-- What a handler gets next to the message: whom to answer, and as whom. The bus itself is whatever the
handler's state `τ` says of it. -/
structure Mail where
  inbound : Message
  self : ShardId

inductive Failure where
  | threw (e : Exn)
  | logicError (what : ByteString)
  | fault (f : Fault)

abbrev Handler (τ α : Type) := EStateM Failure τ α

variable {τ ν ρ ω : Type}

def Handler.of {α : Type} : Except Exn α → Handler τ α
  | .ok a => return a
  | .error e => throw (.threw e)

def Handler.unchecked {α : Type} : Except Fault α → Handler τ α
  | .ok a => return a
  | .error f => throw (.fault f)

/-- The overloads of `on`. -/
abbrev On (τ : Type) := (s : Shape) → s.Object → Mail → Handler τ Unit

def dispatchTo (on : On τ) (mail : Mail) (s : Shape) : Handler τ Bool := do
  let schema ← Handler.of s.schemaOf
  if !sameIdentity schema mail.inbound.payload.schema then return false
  else
    let obj ← Handler.unchecked (fromValue s mail.inbound.payload.raw)
    on s obj mail
    return true

-- the fold over `||`, which stops at the first match
def dispatchAny (on : On τ) (mail : Mail) : List Shape → Handler τ Bool
  | [] => return false
  | s :: shapes => do
      if ← dispatchTo on mail s then return true
      else dispatchAny on mail shapes

def ShardClass.handle (c : ShardClass) (on : On τ) (self : ShardId) (inbound : Message) : Handler τ Unit := do
  let routed ← dispatchAny on ⟨inbound, self⟩ c.accept
  if !routed then
    -- the dash of the source is U+2014, three bytes of UTF-8
    throw (.logicError (ascii "zen::author::ShardBase: delivered message of shape '" ++ inbound.name ++ ascii " v" ++
      decimal inbound.version.toNat ++ ascii "' matched no handler " ++ [0xE2, 0x80, 0x94] ++
      ascii " accept-set and handler set are out of sync"))

/-! ## On the bus -/

/-- The states of the authored Shards, and what other Shards keep. -/
abbrev Memory (cls : ν → ShardClass) (ω : Type) := ((n : ν) → (cls n).state.Object) × ω

/-- Authored Shards next to any others, which may change anything. Where the source has undefined
behaviour, so may a Shard. -/
def authorOps [DecidableEq ν] (cls : ν → ShardClass) (others : ShardOps ρ (Memory cls ω))
    (undefined : Fault → EStateM Exn (Memory cls ω) Unit) : ShardOps (ν ⊕ ρ) (Memory cls ω) where
  acceptedSchemas
    | .inl n => fun memory =>
        match (cls n).acceptedSchemas with
        | .ok schemas => .ok (schemas.map some) memory
        | .error e => .error e memory
    | .inr shard => others.acceptedSchemas shard
  snapshot
    | .inl n => fun memory =>
        match (cls n).snapshot (memory.1 n) with
        | .ok v => .ok v memory
        | .error e => .error e memory
    | .inr shard => others.snapshot shard
  policy
    | .inl n => pure (cls n).policy
    | .inr shard => others.policy shard
  revive
    | .inl n, v => fun memory =>
        match (cls n).revive v with
        | .ok state => .ok () (Function.update memory.1 n state, memory.2)
        | .error f => undefined f memory
    | .inr shard, v => others.revive shard v

/-- A bus on which schemas have been published before. -/
def published {σ ω : Type} (registry : Registry) (env : ω) : Machine σ ω := { world := { sb := { registry }, env } }

end Zen.Author
