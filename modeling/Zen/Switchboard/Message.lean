import Zen.Core.Gate

/-!
# Messages, grants and outcomes

Ids and sequence numbers are natural numbers: the counters of the source have 64 bits and are only
ever incremented. Id 0 is no Shard.
-/

namespace Zen.Sb

abbrev ShardId := Nat

structure Message where
  payload : Value
  sender : ShardId := 0
  replyTo : ShardId := 0
  correlation : UInt64 := 0

def Message.name (m : Message) : ByteString := m.payload.schema.name
def Message.version (m : Message) : UInt32 := m.payload.schema.version

structure SendRule where
  anyShape : Bool := false
  shapeName : ByteString := []
  shapeVersion : UInt32 := 0
  anyTarget : Bool := false
  target : ShardId := 0
  deriving DecidableEq

/-- The send permissions. The bus reads nothing else of a grant. -/
structure Grant where
  rules : List SendRule := []
  deriving DecidableEq

def Grant.permits (g : Grant) (name : ByteString) (version : UInt32) (target : ShardId) : Bool :=
  g.rules.any fun r =>
    (r.anyShape || (r.shapeName == name && r.shapeVersion == version)) &&
      (r.anyTarget || r.target == target)

namespace Grant

def allow (g : Grant) (shapeName : ByteString) (shapeVersion : UInt32) (target : ShardId) : Grant :=
  { rules := g.rules ++ [{ shapeName, shapeVersion, target }] }

def allowToAny (g : Grant) (shapeName : ByteString) (shapeVersion : UInt32) : Grant :=
  { rules := g.rules ++ [{ shapeName, shapeVersion, anyTarget := true }] }

end Grant

inductive RefusalReason where
  | none | noSuchTarget | targetUnavailable | notAccepted | gateRefused | capabilityDenied
  deriving DecidableEq

structure Refusal where
  reason : RefusalReason := .none
  error : Error := {}
  deriving DecidableEq

def Refusal.message (r : Refusal) : ByteString :=
  match r.reason with
  | .none => "no refusal"
  | .noSuchTarget => "no such target shard"
  | .targetUnavailable => "target shard is dead (awaiting revival)"
  | .notAccepted => "target does not accept this schema"
  | .gateRefused => ascii "gate refused: " ++ r.error.message
  | .capabilityDenied => "sender's grant does not permit this shape to this target"

inductive Disposition where
  | pending | delivered | refused
  deriving DecidableEq

structure DeliveryOutcome where
  disposition : Disposition := .pending
  refusal : Refusal := {}
  deriving DecidableEq

inductive EventKind where
  | delivered | refused | died | revived
  deriving DecidableEq

structure BusEvent where
  kind : EventKind
  seq : Nat := 0
  target : ShardId
  sender : ShardId := 0
  schemaName : ByteString
  schemaVersion : UInt32
  refusal : Refusal := {}
  fromLastKnownGood : Bool := false
  payload : Option Value := none

structure ReviveOutcome where
  revived : Bool := false
  fromLastKnownGood : Bool := false
  reloadsExhausted : Bool := false
  policyMalformed : Bool := false
  refusal : Refusal := {}
  deriving DecidableEq

structure Envelope where
  msg : Message
  target : ShardId
  seq : Nat
  gated : Bool

end Zen.Sb
