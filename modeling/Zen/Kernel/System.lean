import Zen.Kernel.Kernel

/-!
# Runs of a host with a kernel

Besides everything that can happen to the bus, the host loads, reloads and unloads libraries, also
while a handler runs. Only the kernel makes adapters: what the host itself registers is native.
-/

namespace Zen.Kernel
open Lib Sb

variable {ν ς α : Type}

structure System (ν ς : Type) where
  kernel : Kernel ν ς
  stack : List Frame := []
  origins : List (Option ShardId) := []
  registered : List (ShardId × Grant) := []

inductive Input (ν ς : Type) where
  | bus (input : Sb.Input ν ς)
  | load (name path : ByteString)
  | reloadFrom (name newPath : ByteString)
  | unload (name : ByteString)

def hosted : Sb.Input ν ς → Sb.Input (Shard ν) (Foreign ς)
  | .registerShard incoming grant => .registerShard (incoming.map .native) grant
  | .unregisterShard id => .unregisterShard id
  | .send target msg => .send target msg
  | .publish msg => .publish msg
  | .sendAs asSender target msg => .sendAs asSender target msg
  | .publishAs asSender msg => .publishAs asSender msg
  | .kill id => .kill id
  | .reload id candidateBytes => .reload id candidateBytes
  | .swapState id candidateBytes => .swapState id candidateBytes
  | .stop => .stop
  | .pump => .pump
  | .turn => .turn
  | .handlerSends target msg => .handlerSends target msg
  | .handlerPublishes msg => .handlerPublishes msg
  | .handlerReturns => .handlerReturns
  | .handlerThrows => .handlerThrows
  | .outside change => .outside fun foreign => { foreign with memory := change foreign.memory }

namespace System

def start (memory : ς) : System ν ς := { kernel := { world := { sb := {}, env := { memory } } } }

def machine (s : System ν ς) : Machine (Shard ν) (Foreign ς) :=
  { world := s.kernel.world, stack := s.stack, origins := s.origins, registered := s.registered }

def withMachine (s : System ν ς) (m : Machine (Shard ν) (Foreign ς)) : System ν ς :=
  { kernel := { s.kernel with world := m.world }, stack := m.stack, origins := m.origins,
    registered := m.registered }

def ended (s : System ν ς) : EStateM.Result Exn (Kernel ν ς) α → System ν ς
  | .ok _ kernel => { s with kernel }
  | .error _ kernel => { s with kernel }

def step (seam : Seam ς) (native : ShardOps ν ς) : Input ν ς → System ν ς → Option (System ν ς)
  | .bus input, s => (Machine.step (hostOps seam native) (hosted input) s.machine).map s.withMachine
  | .load name path, s =>
      match (Kernel.load seam native name path).run s.kernel with
      | .ok result kernel =>
          if result.ok then
            some { s with kernel, registered := s.registered ++ [(result.id, allowAny)] }
          else some { s with kernel }
      | .error _ kernel => some { s with kernel }
  | .reloadFrom name newPath, s => some (s.ended ((Kernel.reloadFrom seam native name newPath).run s.kernel))
  | .unload name, s => some (s.ended ((Kernel.unload seam name).run s.kernel))

end System

abbrev Reaches (seam : Seam ς) (native : ShardOps ν ς) := Run (System.step seam native)

end Zen.Kernel
