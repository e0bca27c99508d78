import Zen.Author.Shard
import Zen.Kernel.System

/-!
# The message door of the kernel

A control Shard calls the kernel for each message it accepts. On a governed host nothing else does: what
may load, replace and unload libraries is decided by the grants of the bus.
-/

namespace Zen.Kernel
open Lib Sb Author

variable {ν ς ρ ω α : Type}

def loadLibrary : Shape := ⟨ascii "LoadLibrary", 1, [⟨ascii "name", .string⟩, ⟨ascii "path", .string⟩]⟩

def reloadLibrary : Shape := ⟨ascii "ReloadLibrary", 1, [⟨ascii "name", .string⟩, ⟨ascii "path", .string⟩]⟩

def unloadLibrary : Shape := ⟨ascii "UnloadLibrary", 1, [⟨ascii "name", .string⟩]⟩

def controlState : Shape := ⟨ascii "ControlState", 1, [⟨ascii "ops", .int64⟩]⟩

def controlShard : ShardClass :=
  { state := controlState, accept := [loadLibrary, reloadLibrary, unloadLibrary] }

def loadCapability (control : ShardId) : Grant :=
  let g : Grant := {}
  let g := g.allow loadLibrary.zenName loadLibrary.zenVersion control
  let g := g.allow reloadLibrary.zenName reloadLibrary.zenVersion control
  g.allow unloadLibrary.zenName unloadLibrary.zenVersion control

/-! ## The handlers -/

inductive Order where
  | load (name path : ByteString)
  | reloadFrom (name newPath : ByteString)
  | unload (name : ByteString)
  deriving DecidableEq

/-- The call of the kernel that is in the overload of `on` for each shape. -/
def order : (s : Shape) → s.Object → Option Order
  | ⟨zenName, _, [⟨_, .string⟩, ⟨_, .string⟩]⟩, (name, path, ()) =>
      if zenName = loadLibrary.zenName then some (.load name path)
      else if zenName = reloadLibrary.zenName then some (.reloadFrom name path)
      else none
  | ⟨zenName, _, [⟨_, .string⟩]⟩, (name, ()) =>
      if zenName = unloadLibrary.zenName then some (.unload name) else none
  | _, _ => none

def operating (x : KernelM ν ς α) : Handler (System ν ς) α := fun s =>
  match x.run s.kernel with
  | .ok a kernel => .ok a { s with kernel }
  | .error e kernel => .error (.threw e) { s with kernel }

-- the result of the operation is dropped
def carryOut (seam : Seam ς) (native : ShardOps ν ς) : Order → Handler (System ν ς) Unit
  | .load name path => do
      let result ← operating (load seam native name path)
      if result.ok then modify fun s => { s with registered := s.registered ++ [(result.id, allowAny)] }
  | .reloadFrom name newPath => do
      let _ ← operating (reloadFrom seam native name newPath)
  | .unload name => do
      let _ ← operating (unload seam name)

/-- What native Shards keep if the control Shard is one of them. -/
abbrev ControlMemory (ω : Type) := Memory (fun _ : Unit => controlShard) ω

-- signed overflow, which the source leaves undefined, wraps
def counted (memory : ControlMemory ω) : ControlMemory ω :=
  let ops : Int64 := (memory.1 ()).1
  (fun _ => (ops + 1, ()), memory.2)

def System.remembering (s : System ν ς) (change : ς → ς) : System ν ς :=
  { s with kernel := { s.kernel with world := { s.kernel.world with
      env := { s.kernel.world.env with memory := change s.kernel.world.env.memory } } } }

def controlOn (seam : Seam (ControlMemory ω)) (native : ShardOps ν (ControlMemory ω)) :
    On (System ν (ControlMemory ω)) := fun s obj _ =>
  match order s obj with
  | some o => do
      modify fun s => s.remembering counted
      carryOut seam native o
  | none => return ()

/-! ## A host whose kernel is reached by message -/

/-- `others` are the native Shards next to the control Shard. -/
structure Governed (ρ ω : Type) where
  seam : Seam (ControlMemory ω)
  others : ShardOps ρ (ControlMemory ω)
  undefined : Fault → EStateM Exn (ControlMemory ω) Unit

namespace Governed

inductive Input (ρ ω : Type) where
  | bus (input : Sb.Input (Unit ⊕ ρ) (ControlMemory ω))
  | control

abbrev Host (ρ ω : Type) := System (Unit ⊕ ρ) (ControlMemory ω)

def native (g : Governed ρ ω) : ShardOps (Unit ⊕ ρ) (ControlMemory ω) :=
  authorOps (fun _ : Unit => controlShard) g.others g.undefined

def mountControl : Sb.Input (Unit ⊕ ρ) (ControlMemory ω) := .registerShard (some (.inl ())) {}

def controls (s : Host ρ ω) (id : ShardId) : Bool :=
  match s.kernel.world.sb.find id with
  | some { shard := .native (.inl ()), .. } => true
  | _ => false

-- the handler on top of the stack, if it is the one of a control Shard
def commanded (s : Host ρ ω) : Option (Envelope × Message) :=
  match s.stack with
  | .handler e trusted :: _ => if controls s e.target then some (e, trusted) else none
  | _ => none

-- the host drops the Shard that it takes off the bus, and an adapter destroys its instance
def dropped (g : Governed ρ ω) : Sb.Input (Unit ⊕ ρ) (ControlMemory ω) → (before s : Host ρ ω) → Host ρ ω
  | .unregisterShard id, before, s =>
      match adapterOf before.kernel.world.sb id with
      | some adapter => s.ended ((KernelM.onSeam (SeamM.destroy g.seam adapter.abi adapter.inst)).run s.kernel)
      | none => s
  | _, _, s => s

def onBus (g : Governed ρ ω) (input : Sb.Input (Unit ⊕ ρ) (ControlMemory ω)) (s : Host ρ ω) : Option (Host ρ ω) :=
  (System.step g.seam g.native (.bus input) s).map (g.dropped input s)

def ended (g : Governed ρ ω) : EStateM.Result Failure (Host ρ ω) Unit → Option (Host ρ ω)
  | .ok _ s => g.onBus .handlerReturns s
  | .error (.threw _) s => g.onBus .handlerThrows s
  | .error (.logicError _) s => g.onBus .handlerThrows s
  | .error (.fault f) s =>
      match (g.undefined f).run s.kernel.world.env.memory with
      | .ok _ memory => g.onBus .handlerReturns (s.remembering fun _ => memory)
      | .error _ memory => g.onBus .handlerThrows (s.remembering fun _ => memory)

/-- While the handler of the control Shard runs, nothing else does. -/
def step (g : Governed ρ ω) : Input ρ ω → Host ρ ω → Option (Host ρ ω)
  | .bus input, s =>
      match commanded s with
      | none => g.onBus input s
      | some _ => none
  | .control, s =>
      match commanded s with
      | none => none
      | some (e, trusted) => g.ended ((controlShard.handle (controlOn g.seam g.native) e.target trusted).run s)

abbrev Reaches (g : Governed ρ ω) := Run g.step

end Governed
end Zen.Kernel
