import Zen.Core.Serialize
import Zen.Lib.OrdMap
import Zen.Lib.Wp
import Zen.Switchboard.Message

/-!
# The Switchboard

`σ` is the type of handles to Shard objects and `ω` whatever those objects keep between calls:
`ShardOps` is their virtual table. Besides the bus and the Shards' own state, a `World` logs what the
bus does to the outside: the events its observers see and the calls it makes on Shards and gate.
-/

namespace Zen.Sb
open Lib

variable {σ ω α : Type}

structure ShardOps (σ ω : Type) where
  acceptedSchemas : σ → EStateM Exn ω (List (Option Schema))
  snapshot : σ → EStateM Exn ω Value
  policy : σ → EStateM Exn ω Value
  revive : σ → Value → EStateM Exn ω Unit

structure ShardRecord (σ : Type) where
  id : ShardId
  shard : σ
  accept : List Schema
  stateSchema : Schema
  lastKnownGood : Value
  grant : Grant
  reloadsUsed : Nat
  alive : Bool

structure Switchboard (σ : Type) where
  registry : Registry := {}
  shards : OrdMap (ShardRecord σ) := .empty
  nextShardId : ShardId := 1
  queue : List Envelope := []
  journal : List DeliveryOutcome := [{}]
  nextSeq : Nat := 1
  inDispatch : Bool := false
  stopRequested : Bool := false

structure Log where
  events : List BusEvent := []
  gated : List (Value × Schema) := []
  handled : List (ShardId × Message) := []
  revived : List (ShardId × Schema × Value) := []
  dequeued : List Nat := []
  decided : List Nat := []

structure World (σ ω : Type) where
  sb : Switchboard σ
  env : ω
  log : Log := {}

def acceptMatch (rec : ShardRecord σ) (name : ByteString) (version : UInt32) : Option Schema :=
  rec.accept.find? fun s => s.name == name && s.version == version

namespace Switchboard

def find (sb : Switchboard σ) (id : ShardId) : Option (ShardRecord σ) := sb.shards.find id

def acceptedSchemas (sb : Switchboard σ) (id : ShardId) : List Schema :=
  match sb.find id with
  | none => []
  | some rec => rec.accept

def resolveSchema (sb : Switchboard σ) (name : ByteString) (version : UInt32) : Option Schema :=
  sb.registry.lookup name version

def unregisterShard (sb : Switchboard σ) (id : ShardId) : Switchboard σ × Option σ :=
  match sb.find id with
  | none => (sb, none)
  | some rec => ({ sb with shards := sb.shards.erase id }, some rec.shard)

/-! ## Enqueueing -/

def enqueueDirected (sb : Switchboard σ) (target : ShardId) (msg : Message) (gated : Bool) :
    Switchboard σ :=
  { sb with
    nextSeq := sb.nextSeq + 1
    journal := sb.journal ++ [{}]
    queue := sb.queue ++ [⟨msg, target, sb.nextSeq, gated⟩] }

def fanoutLoop (msg : Message) (gated : Bool) :
    List (ShardRecord σ) → Switchboard σ → (recipients : Nat) → Switchboard σ × Nat
  | [], sb, recipients => (sb, recipients)
  | rec :: records, sb, recipients =>
      if !rec.alive then fanoutLoop msg gated records sb recipients
      else if acceptMatch rec msg.name msg.version = none then fanoutLoop msg gated records sb recipients
      else fanoutLoop msg gated records (sb.enqueueDirected rec.id msg gated) (recipients + 1)

def fanout (sb : Switchboard σ) (msg : Message) (gated : Bool) : Switchboard σ × Nat :=
  fanoutLoop msg gated sb.shards.values sb 0

def send (sb : Switchboard σ) (target : ShardId) (msg : Message) : Switchboard σ :=
  sb.enqueueDirected target msg false

def publish (sb : Switchboard σ) (msg : Message) : Switchboard σ × Nat := sb.fanout msg false

def sendAs (sb : Switchboard σ) (asSender target : ShardId) (msg : Message) : Switchboard σ :=
  sb.enqueueDirected target { msg with sender := asSender } true

def publishAs (sb : Switchboard σ) (asSender : ShardId) (msg : Message) : Switchboard σ × Nat :=
  sb.fanout { msg with sender := asSender } true

def outcome (sb : Switchboard σ) (seq : Nat) : DeliveryOutcome :=
  if seq = 0 then {} else sb.journal.getD seq {}

def permitted (sb : Switchboard σ) (e : Envelope) : Bool :=
  match sb.find e.msg.sender with
  | none => false
  | some sender => sender.grant.permits e.msg.name e.msg.version e.target

end Switchboard

/-! ## Delivery -/

namespace World

def emit (w : World σ ω) (event : BusEvent) : World σ ω :=
  { w with log := { w.log with events := w.log.events ++ [event] } }

def record (w : World σ ω) (seq : Nat) (disposition : Disposition) (refusal : Refusal) : World σ ω :=
  { w with
    sb := { w.sb with journal := w.sb.journal.set seq ⟨disposition, refusal⟩ }
    log := { w.log with decided := w.log.decided ++ [seq] } }

def deliveryEvent (e : Envelope) (kind : EventKind) : BusEvent :=
  { kind, seq := e.seq, target := e.target, sender := e.msg.sender, schemaName := e.msg.name,
    schemaVersion := e.msg.version }

def refuse (w : World σ ω) (e : Envelope) (refusal : Refusal) : World σ ω :=
  (w.record e.seq .refused refusal).emit { deliveryEvent e .refused with refusal }

/-- What is left of a `deliver_one` once the handler of its target has returned. -/
def delivered (w : World σ ω) (e : Envelope) (trusted : Message) : World σ ω :=
  (w.record e.seq .delivered {}).emit { deliveryEvent e .delivered with payload := some trusted.payload }

/-- The part of `deliver_one` up to the handler, with the message the handler is called with, if it is. -/
def deliverOne (w : World σ ω) (e : Envelope) : World σ ω × Option Message :=
  match w.sb.find e.target with
  | none => (w.refuse e { reason := .noSuchTarget }, none)
  | some rec =>
      if !rec.alive then (w.refuse e { reason := .targetUnavailable }, none)
      else if e.gated && !w.sb.permitted e then (w.refuse e { reason := .capabilityDenied }, none)
      else
        match acceptMatch rec e.msg.name e.msg.version with
        | none => (w.refuse e { reason := .notAccepted }, none)
        | some door =>
            let w := { w with log := { w.log with gated := w.log.gated ++ [(e.msg.payload, door)] } }
            match admitLive e.msg.payload door .firstError with
            | .reject errors => (w.refuse e ⟨.gateRefused, (Admission.reject errors).firstError⟩, none)
            | .accept payload =>
                let trusted : Message := ⟨payload, e.msg.sender, e.msg.replyTo, e.msg.correlation⟩
                ({ w with log := { w.log with handled := w.log.handled ++ [(e.target, trusted)] } },
                  some trusted)

def stateEvent (rec : ShardRecord σ) (id : ShardId) (kind : EventKind) : BusEvent :=
  { kind, target := id, schemaName := rec.stateSchema.name, schemaVersion := rec.stateSchema.version }

def kill (w : World σ ω) (id : ShardId) : World σ ω :=
  match w.sb.find id with
  | none => w
  | some rec =>
      emit { w with sb := { w.sb with shards := w.sb.shards.update id fun r => { r with alive := false } } }
        (stateEvent rec id .died)

end World

/-! ## Operations that call back into a Shard -/

abbrev BusM (σ ω α : Type) := EStateM Exn (World σ ω) α

namespace BusM

def callback (call : EStateM Exn ω α) : BusM σ ω α := fun w =>
  match call.run w.env with
  | .ok a env => .ok a { w with env }
  | .error e env => .error e { w with env }

def registerSchema (schema : Schema) : BusM σ ω Schema := fun w =>
  match w.sb.registry.registerSchema schema with
  | .ok (registry, owner, _) => .ok owner { w with sb := { w.sb with registry } }
  | .error e => .error e w

def gate (claimant : Value) (door : Schema) : BusM σ ω Admission := do
  modify fun w => { w with log := { w.log with gated := w.log.gated ++ [(claimant, door)] } }
  return admitLive claimant door .firstError

def revive (ops : ShardOps σ ω) (rec : ShardRecord σ) (state : Value) : BusM σ ω Unit := do
  modify fun w => { w with log := { w.log with revived := w.log.revived ++ [(rec.id, rec.stateSchema, state)] } }
  callback (ops.revive rec.shard state)

def updateRecord (id : ShardId) (f : ShardRecord σ → ShardRecord σ) : BusM σ ω Unit :=
  modify fun w => { w with sb := { w.sb with shards := w.sb.shards.update id f } }

def registerAccept : List (Option Schema) → BusM σ ω (List Schema)
  | [] => return []
  | none :: _ => throw (.invalidArgument "register_shard: a declared accept schema is null")
  | some schema :: declared => do
      let owner ← registerSchema schema
      let owners ← registerAccept declared
      return owner :: owners

def addRecord (shard : σ) (accept : List Schema) (stateSchema : Schema) (lastKnownGood : Value)
    (grant : Grant) : BusM σ ω ShardId := do
  let id := (← get).sb.nextShardId
  modify fun w =>
    { w with
      sb := { w.sb with
        nextShardId := id + 1
        shards := w.sb.shards.emplace id
          { id, shard, accept, stateSchema, lastKnownGood, grant, reloadsUsed := 0, alive := true } } }
  return id

end BusM

open BusM

def registerShard (ops : ShardOps σ ω) (incoming : Option σ) (grant : Grant) : BusM σ ω ShardId :=
  match incoming with
  | none => throw (.invalidArgument "register_shard: shard must be non-null")
  | some shard => do
      let declared ← callback (ops.acceptedSchemas shard)
      let accept ← registerAccept declared
      let snap ← callback (ops.snapshot shard)
      let _ ← registerSchema snap.schema
      match ← gate snap snap.schema with
      | .reject errors => throw (.invalidArgument
          (ascii "register_shard: initial snapshot does not conform to its own schema: " ++
            (Admission.reject errors).firstError.message))
      | .accept lastKnownGood => addRecord shard accept snap.schema lastKnownGood grant

def snapshotBytes (ops : ShardOps σ ω) (id : ShardId) : BusM σ ω ByteString := do
  match (← get).sb.find id with
  | none => throw (.invalidArgument "snapshot_bytes: no such shard")
  | some rec =>
      let state ← callback (ops.snapshot rec.shard)
      match serialize state with
      | .ok bytes => return bytes
      | .error e => throw e

def lifecyclePolicySchema : Schema :=
  ⟨⟨ascii "LifecyclePolicy", 1, [⟨ascii "max_reloads", .int, true⟩,
    ⟨ascii "revive_from_last_good", .bool, true⟩]⟩, by decide⟩

/-- The gate has seen both fields present and of their kinds, so the defaults are never taken. -/
def maxReloads (policy : Value) : Int :=
  match policy.get "max_reloads" with
  | some (.int n) => n.toInt
  | _ => 0

def reviveFromLastGood (policy : Value) : Bool :=
  match policy.get "revive_from_last_good" with
  | some (.bool b) => b
  | _ => false

def reload (ops : ShardOps σ ω) (id : ShardId) (candidateBytes : ByteString) :
    BusM σ ω ReviveOutcome := do
  match (← get).sb.find id with
  | none => return { refusal := { reason := .noSuchTarget } }
  | some rec =>
      let declared ← callback (ops.policy rec.shard)
      match ← gate declared lifecyclePolicySchema with
      | .reject errors => return {
          policyMalformed := true
          refusal := ⟨.gateRefused, (Admission.reject errors).firstError⟩ }
      | .accept policy =>
          if maxReloads policy ≤ rec.reloadsUsed then return { reloadsExhausted := true }
          else
            match admitUnverified (parse candidateBytes) rec.stateSchema .firstError with
            | .accept state => do
                revive ops rec state
                updateRecord id fun r =>
                  { r with lastKnownGood := state, reloadsUsed := r.reloadsUsed + 1, alive := true }
                modify fun w => w.emit (World.stateEvent rec id .revived)
                return { revived := true }
            | .reject errors =>
                let refusal : Refusal := ⟨.gateRefused, (Admission.reject errors).firstError⟩
                if reviveFromLastGood policy then do
                  revive ops rec rec.lastKnownGood
                  updateRecord id fun r => { r with reloadsUsed := r.reloadsUsed + 1, alive := true }
                  modify fun w => w.emit
                    { World.stateEvent rec id .revived with fromLastKnownGood := true, refusal }
                  return { revived := true, fromLastKnownGood := true, refusal }
                else do
                  modify fun w => w.emit { World.stateEvent rec id .refused with refusal }
                  return { refusal }

def swapState (ops : ShardOps σ ω) (id : ShardId) (candidateBytes : ByteString) :
    BusM σ ω ReviveOutcome := do
  match (← get).sb.find id with
  | none => return { refusal := { reason := .noSuchTarget } }
  | some rec =>
      match admitUnverified (parse candidateBytes) rec.stateSchema .firstError with
      | .reject errors => do
          let refusal : Refusal := ⟨.gateRefused, (Admission.reject errors).firstError⟩
          modify fun w => w.emit { World.stateEvent rec id .refused with refusal }
          return { refusal }
      | .accept state => do
          revive ops rec state
          updateRecord id fun r => { r with lastKnownGood := state, alive := true }
          modify fun w => w.emit (World.stateEvent rec id .revived)
          return { revived := true }

end Zen.Sb
