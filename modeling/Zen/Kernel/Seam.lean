import Zen.Switchboard.Switchboard

/-!
# Behind the C seam

A `Seam` is all that the host can call in the platform's loader and in the libraries it opens:
opaque pointers, byte strings and status codes, over a memory `ς` of their own. No function here
throws, since no exception crosses the seam; apart from that the libraries may do anything. Each
call is written down.
-/

namespace Zen.Kernel
open Lib Sb

variable {ν ς α : Type}

abbrev Pointer := Nat
abbrev ZenStatus := Int32

def zenOk : ZenStatus := 0
def zenAbiVersion : UInt32 := 1

/-- A null pointer is `none`; `shardAbi` is the symbol `zen_shard_abi`, if there is one, called. -/
structure Seam (ς : Type) where
  libOpen : (path : ByteString) → ς → Except ByteString Pointer × ς
  shardAbi : (lib : Pointer) → ς → Option (Option Pointer) × ς
  libClose : (lib : Pointer) → ς → ς
  abiVersion : (abi : Pointer) → ς → UInt32
  create : (abi : Pointer) → ς → Option Pointer × ς
  destroy : (abi inst : Pointer) → ς → ς
  describe : (abi inst : Pointer) → ς → (ZenStatus × ByteString) × ς
  snapshot : (abi inst : Pointer) → ς → (ZenStatus × ByteString) × ς
  policy : (abi inst : Pointer) → ς → (ZenStatus × ByteString) × ς
  revive : (abi inst : Pointer) → (state : ByteString) → ς → ZenStatus × ς

inductive Call where
  | libOpen (path : ByteString) (lib : Option Pointer)
  | shardAbi (lib : Pointer)
  | libClose (lib : Pointer)
  | create (abi : Pointer) (inst : Option Pointer)
  | destroy (abi inst : Pointer)
  | describe (abi inst : Pointer) (status : ZenStatus) (bytes : ByteString)
  | snapshot (abi inst : Pointer) (status : ZenStatus) (bytes : ByteString)
  | policy (abi inst : Pointer) (status : ZenStatus) (bytes : ByteString)
  | revive (abi inst : Pointer) (state : ByteString) (status : ZenStatus)
  deriving DecidableEq

structure Foreign (ς : Type) where
  memory : ς
  calls : List Call := []

abbrev SeamM (ς α : Type) := EStateM Exn (Foreign ς) α

def perform (f : ς → α × ς) (call : α → Call) : SeamM ς α := fun w =>
  let result := f w.memory
  .ok result.1 { memory := result.2, calls := w.calls ++ [call result.1] }

namespace SeamM

def libOpen (seam : Seam ς) (path : ByteString) : SeamM ς (Except ByteString Pointer) :=
  perform (seam.libOpen path) fun result => .libOpen path result.toOption

def libClose (seam : Seam ς) (lib : Pointer) : SeamM ς Unit :=
  perform (fun memory => ((), seam.libClose lib memory)) fun _ => .libClose lib

def create (seam : Seam ς) (abi : Pointer) : SeamM ς (Option Pointer) :=
  perform (seam.create abi) fun inst => .create abi inst

def destroy (seam : Seam ς) (abi inst : Pointer) : SeamM ς Unit :=
  perform (fun memory => ((), seam.destroy abi inst memory)) fun _ => .destroy abi inst

def describe (seam : Seam ς) (abi inst : Pointer) : SeamM ς (ZenStatus × ByteString) :=
  perform (seam.describe abi inst) fun result => .describe abi inst result.1 result.2

def snapshot (seam : Seam ς) (abi inst : Pointer) : SeamM ς (ZenStatus × ByteString) :=
  perform (seam.snapshot abi inst) fun result => .snapshot abi inst result.1 result.2

def policy (seam : Seam ς) (abi inst : Pointer) : SeamM ς (ZenStatus × ByteString) :=
  perform (seam.policy abi inst) fun result => .policy abi inst result.1 result.2

def revive (seam : Seam ς) (abi inst : Pointer) (state : ByteString) : SeamM ς ZenStatus :=
  perform (seam.revive abi inst state) fun status => .revive abi inst state status

end SeamM

def fetchAbi (seam : Seam ς) (lib : Pointer) : SeamM ς (Except ByteString Pointer) := do
  match ← perform (seam.shardAbi lib) (fun _ => .shardAbi lib) with
  | none => return .error "library does not export zen_shard_abi"
  | some none => return .error "zen_shard_abi returned null"
  | some (some abi) =>
      let version := seam.abiVersion abi (← get).memory
      if version ≠ zenAbiVersion then
        return .error (ascii "unsupported abi_version " ++ decimal version.toNat ++
          ascii " (host supports " ++ decimal zenAbiVersion.toNat ++ ascii ")")
      else return .ok abi

/-! ## The host adapter -/

structure HostAdapter where
  abi : Pointer
  inst : Pointer
  accepted : List Schema
  stateSchema : Schema

def admitBytes (bytes : ByteString) (door : Schema) (what : ByteString) : SeamM ς Value :=
  match admitUnverified (parse bytes) door .firstError with
  | .accept v => pure v
  | .reject errors => throw (.dllBoundary (ascii "library " ++ what ++ ascii " refused by the gate: " ++
      (Admission.reject errors).firstError.message))

def statusError (what : ByteString) (status : ZenStatus) : Exn :=
  .dllBoundary (ascii "library " ++ what ++ ascii " failed with status " ++ signedDecimal status.toInt)

namespace HostAdapter

def snapshot (seam : Seam ς) (adapter : HostAdapter) : SeamM ς Value := do
  let (status, bytes) ← SeamM.snapshot seam adapter.abi adapter.inst
  if status ≠ zenOk then throw (statusError "snapshot()" status)
  else admitBytes bytes adapter.stateSchema "snapshot"

def policy (seam : Seam ς) (adapter : HostAdapter) : SeamM ς Value := do
  let (status, bytes) ← SeamM.policy seam adapter.abi adapter.inst
  if status ≠ zenOk then throw (statusError "policy()" status)
  else admitBytes bytes lifecyclePolicySchema "policy"

def revive (seam : Seam ς) (adapter : HostAdapter) (state : Value) : SeamM ς Unit :=
  match serialize state with
  | .error e => throw e
  | .ok bytes => do
      let status ← SeamM.revive seam adapter.abi adapter.inst bytes
      if status ≠ zenOk then throw (statusError "revive()" status)

end HostAdapter

/-- A Shard on the bus is one compiled into the host, or an adapter. -/
inductive Shard (ν : Type) where
  | native (shard : ν)
  | library (adapter : HostAdapter)

def onMemory (x : EStateM Exn ς α) : SeamM ς α := fun w =>
  match x.run w.memory with
  | .ok a memory => .ok a { w with memory }
  | .error e memory => .error e { w with memory }

def hostOps (seam : Seam ς) (native : ShardOps ν ς) : ShardOps (Shard ν) (Foreign ς) where
  acceptedSchemas
    | .native shard => onMemory (native.acceptedSchemas shard)
    | .library adapter => pure (adapter.accepted.map some)
  snapshot
    | .native shard => onMemory (native.snapshot shard)
    | .library adapter => adapter.snapshot seam
  policy
    | .native shard => onMemory (native.policy shard)
    | .library adapter => adapter.policy seam
  revive
    | .native shard, state => onMemory (native.revive shard state)
    | .library adapter, state => adapter.revive seam state

end Zen.Kernel
