import Zen.Isolation.Host
import Zen.Switchboard.Machine

/-!
# Runs of an isolation host

A `step` of the host is taken apart: each child has its turn, the bus is pumped, each link is
supervised. Whatever can happen to the bus may happen in between, but for the first part, which calls
nobody. Only the host makes proxies: what others register is native.
-/

namespace Zen.Isolation
open Lib Sb

variable {ν ς : Type}

/-- How far the `step` that is running has come, with the links that still wait for their turn. -/
inductive Phase where
  | idle
  | io (todo : List Pointer)
  | pumping
  | supervising (todo : List Pointer)
  deriving DecidableEq

structure System (ν ς : Type) where
  machine : Machine (Shard ν) (Host ς)
  phase : Phase := .idle

/-- The operating system answers as it likes: to a mount, to the calls on a channel, and to the spawn
that a revival makes, be it the host's own or one that somebody asks the bus for. -/
inductive Input (ν ς : Type) where
  | configure (enforcement : Capability → Bool) (devMode forceEntryFailure : Bool)
  | mount (name soPath : ByteString) (grant : HostGrant) (answers : MountAnswers)
  | unmount (name : ByteString)
  | step
  | drain (sends : List SendResult) (recvs : List RecvResult)
  | pump
  | supervise (answers : SpawnAnswers)
  | finish
  | bus (input : Sb.Input ν ς) (answers : SpawnAnswers)

def hosted : Sb.Input ν ς → Sb.Input (Shard ν) (Host ς)
  | .registerShard incoming grant => .registerShard (incoming.map .native) grant
  | .unregisterShard id => .unregisterShard id
  | .send target msg => .send target msg
  | .publish msg => .publish msg
  | .sendAs asSender target msg => .sendAs asSender target msg
  | .publishAs asSender msg => .publishAs asSender msg
  | .kill id => .kill id
  | .reload id candidateBytes => .reload id candidateBytes
  | .swapState id candidateBytes => .swapState id candidateBytes
  | .stop => .stop
  | .pump => .pump
  | .turn => .turn
  | .handlerSends target msg => .handlerSends target msg
  | .handlerPublishes msg => .handlerPublishes msg
  | .handlerReturns => .handlerReturns
  | .handlerThrows => .handlerThrows
  | .outside change => .outside fun host => { host with memory := change host.memory }

def proxyOf (sb : Switchboard (Shard ν)) (id : ShardId) : Option Pointer :=
  match sb.find id with
  | some rec =>
      match rec.shard with
      | .proxy p => some p
      | .native _ => none
  | none => none

namespace System

def start (host : Host ς) : System ν ς := { machine := .start { host with
  registry := {}, heap := fun _ => none, nextLink := 0, links := [], calls := [], respawns := [] } }

def world (s : System ν ς) : World (Shard ν) (Host ς) := s.machine.world

def host (s : System ν ς) : Host ς := s.machine.world.env

def bus (s : System ν ς) : Switchboard (Shard ν) := s.machine.world.sb

def withWorld (s : System ν ς) (world : World (Shard ν) (Host ς)) : System ν ς :=
  { s with machine := { s.machine with world } }

def withHost (s : System ν ς) (env : Host ς) : System ν ς := s.withWorld { s.world with env }

def todo (s : System ν ς) : List Pointer := s.host.links.map Prod.snd

/-- The end of a `mount`: the bus has given out a grant if it succeeded. -/
def mounted (s : System ν ς) (grant : Sb.Grant) :
    EStateM.Result Exn (World (Shard ν) (Host ς)) OutOfProcessResult → System ν ς
  | .ok result world => { s with machine := { s.machine with
      world, registered := s.machine.registered ++ if result.ok then [(result.id, grant)] else [] } }
  | .error _ world => s.withWorld world

/-- What the proxy does with a message, once its `handle` has been called: it makes no calls on the bus,
so nothing comes in between. The second component says whether an exception has left the pump. -/
def proxyHandles (p : Pointer) (e : Envelope) (trusted : Message) (frames : List Frame)
    (m : Machine (Shard ν) (Host ς)) : Machine (Shard ν) (Host ς) × Bool :=
  match (shipDeliver p trusted).run m.world.env with
  | .ok _ env => ({ m with world := { m.world with env }.delivered e trusted, stack := frames }, false)
  | .error _ env => ({ m with world := { m.world with env }, stack := frames.tail }, true)

/-- The end of a turn of the pump, which found the stack `before`: if it has called the handler of a
proxy, this runs to its end. -/
def dispatched (before : List Frame) (m : Machine (Shard ν) (Host ς)) : Machine (Shard ν) (Host ς) × Bool :=
  match m.stack with
  | .handler e trusted :: frames =>
      if frames.length < before.length then (m, false)
      else
        match proxyOf m.world.sb e.target with
        | some p => proxyHandles p e trusted frames m
        | none => (m, false)
  | _ => (m, false)

/-- A `pump` that ends lets the `step` that called it go on; one that throws ends it. -/
def after (s : System ν ς) : Machine (Shard ν) (Host ς) × Bool → System ν ς
  | (machine, threw) =>
      let s := { s with machine }
      if machine.stack ≠ [] then s
      else if threw then { s with phase := .idle }
      else if s.phase = .pumping then { s with phase := .supervising s.todo }
      else s

def onBus (native : ShardOps ν ς) (input : Sb.Input ν ς) (s : System ν ς) : Option (System ν ς) :=
  (Machine.step (proxyOps native) (hosted input) s.machine).map fun m =>
    match input with
    | .turn => s.after (dispatched s.machine.stack m)
    | input => s.after (m, input.throws)

def drain (s : System ν ς) (p : Pointer) (sends : List SendResult) (recvs : List RecvResult) : System ν ς :=
  match s.host.heap p with
  | none => s
  | some link =>
      let world := drainChild p sends recvs s.world
      { s with machine := { s.machine.enqueued world.sb (some link.id) with world } }

def step (native : ShardOps ν ς) : Input ν ς → System ν ς → Option (System ν ς)
  | .configure enforcement devMode forceEntryFailure, s =>
      some (s.withHost { s.host with enforcement, devMode, forceEntryFailure })
  | .mount name soPath grant answers, s =>
      match s.phase with
      | .idle | .pumping =>
          some (s.mounted grant.sends ((Isolation.mount native name soPath grant answers).run s.world))
      | _ => none
  | .unmount name, s =>
      match s.phase with
      | .idle | .pumping =>
          match (Isolation.unmount name).run s.world with
          | .ok _ world | .error _ world => some (s.withWorld world)
      | _ => none
  | .step, s => if s.phase = .idle ∧ s.machine.stack = [] then some { s with phase := .io s.todo } else none
  | .drain sends recvs, s =>
      match s.phase with
      | .io (p :: todo) => some { s.drain p sends recvs with phase := .io todo }
      | _ => none
  | .pump, s =>
      match s.phase with
      | .io [] => some ({ s with phase := .pumping }.after (s.machine.pump, false))
      | _ => none
  | .supervise answers, s =>
      match s.phase, s.machine.stack with
      | .supervising (p :: todo), [] =>
          let s := s.withHost { s.host with answers }
          match (Isolation.supervise native p).run s.world with
          | .ok _ world => some { s.withWorld world with phase := .supervising todo }
          | .error _ world => some { s.withWorld world with phase := .idle }
      | _, _ => none
  | .finish, s =>
      match s.phase, s.machine.stack with
      | .supervising [], [] => some { s with phase := .idle }
      | _, _ => none
  | .bus input answers, s =>
      match s.phase with
      | .io _ => none
      | _ => onBus native input (s.withHost { s.host with answers })

end System

abbrev Reaches (native : ShardOps ν ς) := Run (System.step native)

end Zen.Isolation
