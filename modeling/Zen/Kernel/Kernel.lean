import Zen.Kernel.SchemaCodec
import Zen.Kernel.Seam
import Zen.Switchboard.Machine

/-!
# The kernel

Loading, hot-reloading and unloading of libraries. An exception keeps the state it was thrown in:
what `reconstruct` has registered stays registered when it fails.
-/

namespace Zen.Kernel
open Lib Sb

variable {ν ς α : Type}

/-- The adapter that a record of the source points to is the one in the bus record of `id`. -/
structure Loaded where
  name : ByteString
  lib : Pointer
  abi : Pointer
  id : ShardId

structure Manifest where
  accepted : List Schema
  state : Schema

/-- What each library that got behind a Shard says it accepts is kept in `bound`, in order. The kernel
does not read it. -/
structure Kernel (ν ς : Type) where
  world : World (Shard ν) (Foreign ς)
  registry : Registry := {}
  libs : List Loaded := []
  bound : List (ShardId × List Schema) := []

abbrev KernelM (ν ς α : Type) := EStateM Exn (Kernel ν ς) α

namespace KernelM

def onBus (x : BusM (Shard ν) (Foreign ς) α) : KernelM ν ς α := fun k =>
  match x.run k.world with
  | .ok a world => .ok a { k with world }
  | .error e world => .error e { k with world }

def onSeam (x : SeamM ς α) : KernelM ν ς α := onBus (BusM.callback x)

def onRegistry (x : EStateM Exn Registry α) : KernelM ν ς α := fun k =>
  match x.run k.registry with
  | .ok a registry => .ok a { k with registry }
  | .error e registry => .error e { k with registry }

/-- A `try` with a handler for every `std::exception`. -/
def attempt (x : KernelM ν ς α) : KernelM ν ς (Except Exn α) := fun k =>
  match x.run k with
  | .ok a k => .ok (.ok a) k
  | .error e k => .ok (.error e) k

end KernelM

open KernelM

def find (k : Kernel ν ς) (name : ByteString) : Option Loaded := k.libs.find? fun l => l.name == name

/-! ## Manifests -/

def reconstructSchema (desc : Raw.Value) : EStateM Exn Registry Schema := fun registry =>
  match decodeSchema desc registry with
  | .error e => .error e registry
  | .ok s =>
      match registry.registerSchema s with
      | .error e => .error e registry
      | .ok (registry, _) => .ok s registry

def reconstructAll : (accepted : List Raw.Cell) → EStateM Exn Registry (List Schema)
  | [] => return []
  | c :: accepted => do
      let s ← reconstructSchema (Raw.Cell.asMessage (some c))
      let rest ← reconstructAll accepted
      return s :: rest

def reconstructManifest (bytes : ByteString) : EStateM Exn Registry Manifest :=
  match admitUnverified (parse bytes) manifestSchema .firstError with
  | .reject errors => throw (.dllBoundary (ascii "library manifest refused by the gate: " ++
      (Admission.reject errors).firstError.message))
  | .accept manifest => do
      let accepted ← reconstructAll (Raw.Cell.asList (manifest.get "accepted"))
      let state ← reconstructSchema (Raw.Cell.asMessage (manifest.get "state"))
      return ⟨accepted, state⟩

def reconstruct (seam : Seam ς) (abi inst : Pointer) : KernelM ν ς Manifest := do
  let (status, bytes) ← onSeam (SeamM.describe seam abi inst)
  if status ≠ zenOk then throw (statusError "describe()" status)
  else onRegistry (reconstructManifest bytes)

/-! ## Load -/

structure LoadResult where
  ok : Bool := false
  id : ShardId := 0
  error : ByteString := []
  deriving DecidableEq

def allowAny : Grant := { rules := [{ anyShape := true, anyTarget := true }] }

def discard (seam : Seam ς) (lib abi inst : Pointer) : KernelM ν ς Unit := do
  onSeam (SeamM.destroy seam abi inst)
  onSeam (SeamM.libClose seam lib)

/-- An adapter that does not get onto the bus destroys its instance as it goes, so the two ways to
fail after `create` end alike. -/
def mount (seam : Seam ς) (native : ShardOps ν ς) (name : ByteString) (lib abi inst : Pointer) :
    KernelM ν ς ShardId := do
  let mf ← reconstruct seam abi inst
  let id ← onBus (registerShard (hostOps seam native)
    (some (.library ⟨abi, inst, mf.accepted, mf.state⟩)) allowAny)
  modify fun k => { k with
    libs := k.libs ++ [⟨name, lib, abi, id⟩], bound := k.bound ++ [(id, mf.accepted)] }
  return id

def load (seam : Seam ς) (native : ShardOps ν ς) (name path : ByteString) : KernelM ν ς LoadResult := do
  if (find (← get) name).isSome then return { error := ascii "already loaded: " ++ name }
  else
    match ← onSeam (SeamM.libOpen seam path) with
    | .error error => return { error := ascii "open failed: " ++ error }
    | .ok lib =>
        match ← onSeam (fetchAbi seam lib) with
        | .error error => do
            onSeam (SeamM.libClose seam lib)
            return { error }
        | .ok abi =>
            match ← onSeam (SeamM.create seam abi) with
            | none => do
                onSeam (SeamM.libClose seam lib)
                return { error := "library create() returned null" }
            | some inst =>
                match ← attempt (mount seam native name lib abi inst) with
                | .error e => do
                    discard seam lib abi inst
                    return { error := ascii "load refused: " ++ e.what }
                | .ok id => return { ok := true, id }

/-! ## Reload -/

structure ReloadResult where
  ok : Bool := false
  reloaded : Bool := false
  versionMismatch : Bool := false
  error : ByteString := []
  deriving DecidableEq

def adapterOf (sb : Switchboard (Shard ν)) (id : ShardId) : Option HostAdapter :=
  match sb.find id with
  | some { shard := .library adapter, .. } => some adapter
  | _ => none

def rebind (seam : Seam ς) (id : ShardId) (adapter : HostAdapter) (newAbi newInst : Pointer) :
    KernelM ν ς Unit := do
  onSeam (SeamM.destroy seam adapter.abi adapter.inst)
  onBus (BusM.updateRecord id fun rec =>
    { rec with shard := .library { adapter with abi := newAbi, inst := newInst } })

/-- From the commit on. `described` is what the new library says it accepts; the source drops it. -/
def commit (seam : Seam ς) (native : ShardOps ν ς) (rec : Loaded) (adapter : HostAdapter)
    (snapshot : ByteString) (newLib newAbi newInst : Pointer) (described : List Schema) :
    KernelM ν ς ReloadResult := do
  rebind seam rec.id adapter newAbi newInst
  modify fun k => { k with
    libs := k.libs.map fun l => if l.name == rec.name then { l with abi := newAbi, lib := newLib } else l
    bound := k.bound ++ [(rec.id, described)] }
  let ro ← onBus (swapState (hostOps seam native) rec.id snapshot)
  onSeam (SeamM.libClose seam rec.lib)
  if !ro.revived then return { ok := true, error := "revive after swap was refused" }
  else return { ok := true, reloaded := true }

/-- From the creation of the new instance on. -/
def replace (seam : Seam ς) (native : ShardOps ν ς) (rec : Loaded) (snapshot : ByteString)
    (newLib newAbi newInst : Pointer) : KernelM ν ς ReloadResult := do
  match ← attempt (reconstruct seam newAbi newInst) with
  | .error e => do
      discard seam newLib newAbi newInst
      return { error := ascii "new library refused: " ++ e.what }
  | .ok mf =>
      -- `snapshot_bytes` has found the record of a loaded Shard, so there is an adapter
      match adapterOf (← get).world.sb rec.id with
      | none => return {}
      | some adapter =>
          if !sameIdentity mf.state adapter.stateSchema then do
            discard seam newLib newAbi newInst
            return { ok := true, versionMismatch := true,
                     error := "state schema version mismatch; reload refused" }
          else commit seam native rec adapter snapshot newLib newAbi newInst mf.accepted

def reloadFrom (seam : Seam ς) (native : ShardOps ν ς) (name newPath : ByteString) :
    KernelM ν ς ReloadResult := do
  match find (← get) name with
  | none => return { error := ascii "not loaded: " ++ name }
  | some rec =>
      match ← attempt (onBus (snapshotBytes (hostOps seam native) rec.id)) with
      | .error e => return { error := ascii "snapshot of the live shard failed: " ++ e.what }
      | .ok snapshot =>
          match ← onSeam (SeamM.libOpen seam newPath) with
          | .error error => return { error := ascii "open failed: " ++ error }
          | .ok newLib =>
              match ← onSeam (fetchAbi seam newLib) with
              | .error error => do
                  onSeam (SeamM.libClose seam newLib)
                  return { error }
              | .ok newAbi =>
                  match ← onSeam (SeamM.create seam newAbi) with
                  | none => do
                      onSeam (SeamM.libClose seam newLib)
                      return { error := "library create() returned null" }
                  | some newInst => replace seam native rec snapshot newLib newAbi newInst

/-! ## Unload -/

def unload (seam : Seam ς) (name : ByteString) : KernelM ν ς Bool := do
  match find (← get) name with
  | none => return false
  | some rec => do
      modify fun k => { k with libs := k.libs.filter fun l => !(l.name == name) }
      let released := ((← get).world.sb.unregisterShard rec.id).2
      modify fun k => { k with world := { k.world with sb := (k.world.sb.unregisterShard rec.id).1 } }
      match released with
      | some (.library adapter) => onSeam (SeamM.destroy seam adapter.abi adapter.inst)
      | _ => pure ()
      onSeam (SeamM.libClose seam rec.lib)
      return true

end Zen.Kernel
