import Zen.Kernel.Export
import Zen.Kernel.System

/-!
# Delivery to a library

The host adapter hands a message to the library as bytes. What the handler there sends comes back as
bytes, and is resolved and gated before it goes onto the bus. With that a host runs: each call on its
bus to the end, each operation of its kernel between two of these.
-/

namespace Zen.Kernel
open Lib Sb

variable {ν ς : Type}

def resolved (registry : Registry) (payload : ByteString) : Except ZenStatus Value :=
  let u := parse payload
  match registry.lookup (claimedName u) (claimedVersion u) with
  | none => .error zenErrUnknownSchema
  | some door =>
      match admitUnverified u door .firstError with
      | .reject _ => .error zenErrRefused
      | .accept v => .ok v

def route (registry : Registry) (payload : ByteString) (call : Value → BusCall) :
    Dialogue BusCall BusAnswer ZenStatus :=
  match resolved registry payload with
  | .error status => .done status
  | .ok v => .ask (call v) fun _ => .done zenOk

def zenHostSend (registry : Registry) (target replyTo : ShardId) (correlation : UInt64) (payload : ByteString) :
    Dialogue BusCall BusAnswer ZenStatus :=
  route registry payload fun v => .send target ⟨v, 0, replyTo, correlation⟩

def zenHostPublish (registry : Registry) (replyTo : ShardId) (correlation : UInt64) (payload : ByteString) :
    Dialogue BusCall BusAnswer ZenStatus :=
  route registry payload fun v => .publish ⟨v, 0, replyTo, correlation⟩

-- the callback table
def hostApi (registry : Registry) : HostCall → Dialogue BusCall BusAnswer ZenStatus
  | .send target replyTo correlation payload => zenHostSend registry target replyTo correlation payload
  | .publish replyTo correlation payload => zenHostPublish registry replyTo correlation payload

/-- The status of the library is dropped: the message has been delivered. -/
def HostAdapter.handle (plugin : Plugin ς) (adapter : HostAdapter) (registry : Registry) (inbound : Message)
    (foreign : Foreign ς) : Dialogue BusCall BusAnswer (Except Exn Unit × Foreign ς) :=
  match serialize inbound.payload with
  | .error e => .done (.error e, foreign)
  | .ok bytes =>
      ((plugin.handle adapter.abi adapter.inst inbound.sender inbound.replyTo inbound.correlation bytes
        foreign.memory).through (hostApi registry)).map fun (_, memory) => (.ok (), { foreign with memory })

def hostHandlers (plugin : Plugin ς) (native : Handlers ν ς) : Handlers (Shard ν) (Foreign ς)
  | registry, .native shard, inbound, foreign =>
      (native registry shard inbound foreign.memory).map fun (result, memory) => (result, { foreign with memory })
  | registry, .library adapter, inbound, foreign => adapter.handle plugin registry inbound foreign

/-! ## A host that runs -/

/-- What the host gets to know of what it has asked for. -/
inductive Outcome where
  | quiet
  | loaded (id : Option ShardId)
  | reloaded (done : Bool)
  | unloaded (found : Bool)
  deriving DecidableEq

namespace System

def outcome (seam : Seam ς) (native : ShardOps ν ς) (s : System ν ς) : Input ν ς → Outcome
  | .bus _ => .quiet
  | .load name path =>
      match (load seam native name path).run s.kernel with
      | .ok result _ => .loaded (if result.ok then some result.id else none)
      | .error _ _ => .loaded none
  | .reloadFrom name newPath =>
      match (reloadFrom seam native name newPath).run s.kernel with
      | .ok result _ => .reloaded result.reloaded
      | .error _ _ => .reloaded false
  | .unload name =>
      match (unload seam name).run s.kernel with
      | .ok found _ => .unloaded found
      | .error _ _ => .unloaded false

def operate (plugin : Plugin ς) (native : ShardOps ν ς) (handlers : Handlers ν ς) (fuel : Nat) :
    Input ν ς → StateT (System ν ς) Option Outcome
  | .bus call => fun s =>
      (play (hostOps plugin.toSeam native) (hostHandlers plugin handlers) fuel [hosted call] s.machine).map fun m =>
        (.quiet, s.withMachine m)
  | input => fun s => (step plugin.toSeam native input s).map fun s' => (s.outcome plugin.toSeam native input, s')

end System
end Zen.Kernel
