import Zen.Kernel.System
import Zen.Lib.Custody

/-!
# Who holds which library

The calls of a run as acts on libraries and on instances that live in them. A library is reached
through the descriptor that it was last asked for.
-/

namespace Zen.Kernel
open Lib Sb Custody

variable {ν ς : Type}

abbrev Act := Custody.Act Pointer Pointer Pointer
abbrev Holding := Custody.Holding Pointer Pointer Pointer
abbrev Holdings := Custody.Holdings Pointer Pointer Pointer

def Call.acts : Call → List Act
  | .libOpen _ none => []
  | .libOpen _ (some lib) => [.opens lib]
  | .shardAbi lib => [.asks lib]
  | .libClose lib => [.closes lib]
  | .create abi inst => [.creates abi inst]
  | .destroy abi inst => [.destroys abi inst]
  | .describe abi inst _ _ | .snapshot abi inst _ _ | .policy abi inst _ _ | .revive abi inst _ _ => [.uses abi inst]

namespace System

/-- The call of `handle`, where the loop has reached the Shard of a library. -/
def handles (s s' : System ν ς) : List Act :=
  if s.stack.length < s'.stack.length then
    match s'.stack with
    | .handler e _ :: _ =>
        match adapterOf s.kernel.world.sb e.target with
        | some adapter => [.uses adapter.abi adapter.inst]
        | none => []
    | _ => []
  else []

/-- What an input does to libraries and instances, in order. -/
def acts (seam : Seam ς) (native : ShardOps ν ς) (input : Input ν ς) (s : System ν ς) : List Act :=
  match step seam native input s with
  | none => []
  | some s' => (s'.kernel.world.env.calls.drop s.kernel.world.env.calls.length).flatMap Call.acts ++ s.handles s'

def history (seam : Seam ς) (native : ShardOps ν ς) (inputs : List (Input ν ς)) (s : System ν ς) : List Act :=
  outputs (step seam native) (acts seam native) inputs s

end System

/-- Only the kernel takes the Shard of a library off the bus. -/
def LeavesLibraries : Input ν ς → System ν ς → Prop
  | .bus (.unregisterShard id), s => adapterOf s.kernel.world.sb id = none
  | _, _ => True

/-- The operation does not throw. -/
def Returns (seam : Seam ς) (native : ShardOps ν ς) : Input ν ς → System ν ς → Prop
  | .bus _, _ => True
  | .load name path, s => ∃ result k', (load seam native name path).run s.kernel = .ok result k'
  | .reloadFrom name newPath, s => ∃ result k', (reloadFrom seam native name newPath).run s.kernel = .ok result k'
  | .unload name, s => ∃ result k', (unload seam name).run s.kernel = .ok result k'

/-- The instance that a record of the kernel stands for. -/
def held (sb : Switchboard (Shard ν)) (l : Loaded) : Holding :=
  ⟨l.lib, l.abi, ((adapterOf sb l.id).map HostAdapter.inst).getD 0⟩

/-- One live instance for each record, in its open library, and nothing besides. -/
structure Balanced (h : Holdings) (k : Kernel ν ς) : Prop where
  opened : h.opened = k.libs.map Loaded.lib
  live : h.live = k.libs.map (held k.world.sb)
  adapters : ∀ l ∈ k.libs, ∃ adapter, adapterOf k.world.sb l.id = some adapter ∧ adapter.abi = l.abi

/-- The destructor of the kernel. -/
def destruction (names : List ByteString) : List (Input ν ς) := names.map .unload

end Zen.Kernel
