import Zen.Kernel.SchemaCodec
import Zen.Kernel.Seam
import Zen.Switchboard.Handlers

/-!
# Exported Shards

What `ZEN_EXPORT_SHARD` makes of a Shard class: the thunks of its descriptor, and the bus that its
handlers are given there.
-/

namespace Zen.Kernel
open Lib Sb

variable {τ ς α : Type}

def zenErr : ZenStatus := -1
def zenErrRefused : ZenStatus := -2
def zenErrUnknownSchema : ZenStatus := -3

def claimedName (u : Unverified ByteString) : ByteString :=
  match u with
  | .ok claim => claim.name
  | .error _ => []

def claimedVersion (u : Unverified ByteString) : UInt32 :=
  match u with
  | .ok claim => claim.version
  | .error _ => 0

/-- A class derived from `Shard`; an object of it is its state. The const methods leave the state alone. -/
structure ShardClass (τ : Type) where
  create : Except Exn τ
  acceptedSchemas : τ → Except Exn (List Schema)
  snapshot : τ → Except Exn Value
  policy : τ → Except Exn Value
  revive : Value → EStateM Exn τ Unit
  handle : Message → τ → Dialogue BusCall BusAnswer (Except Exn Unit × τ)

/-! ## The bus in the library -/

/-- A call on the callback table of the host. -/
inductive HostCall where
  | send (target replyTo : ShardId) (correlation : UInt64) (payload : ByteString)
  | publish (replyTo : ShardId) (correlation : UInt64) (payload : ByteString)

-- the status is dropped, and the ticket and the count say nothing
def forward (payload : Value) (call : ByteString → HostCall) : Dialogue HostCall ZenStatus BusAnswer :=
  match serialize payload with
  | .error e => .done (.error e)
  | .ok bytes => .ask (call bytes) fun _ => .done (.ok 0)

def hostApiBus : BusCall → Dialogue HostCall ZenStatus BusAnswer
  | .send target msg => forward msg.payload (.send target msg.replyTo msg.correlation)
  | .publish msg => forward msg.payload (.publish msg.replyTo msg.correlation)

/-! ## The thunks -/

def statusOf : Except Exn Unit → ZenStatus
  | .ok _ => zenOk
  | .error _ => zenErr

-- a sink gets all the bytes at once, or none
def written (bytes : Except Exn ByteString) : ZenStatus × ByteString :=
  match bytes with
  | .ok bytes => (zenOk, bytes)
  | .error _ => (zenErr, [])

namespace ShardClass

def doCreate (c : ShardClass τ) : Option τ := c.create.toOption

def doDescribe (c : ShardClass τ) (s : τ) : ZenStatus × ByteString := written do
  let accepted ← c.acceptedSchemas s
  let state ← c.snapshot s
  serialize (encodeManifest accepted state.schema)

def doSnapshot (c : ShardClass τ) (s : τ) : ZenStatus × ByteString := written do serialize (← c.snapshot s)

def doPolicy (c : ShardClass τ) (s : τ) : ZenStatus × ByteString := written do serialize (← c.policy s)

def doRevive (c : ShardClass τ) (state : ByteString) (s : τ) : ZenStatus × τ :=
  match c.snapshot s with
  | .error _ => (zenErr, s)
  | .ok probe =>
      match admitUnverified (parse state) probe.schema .firstError with
      | .reject _ => (zenErrRefused, s)
      | .accept v =>
          match (c.revive v).run s with
          | .ok _ s => (zenOk, s)
          | .error _ s => (zenErr, s)

def doHandle (c : ShardClass τ) (sender replyTo : ShardId) (correlation : UInt64) (payload : ByteString) (s : τ) :
    Dialogue HostCall ZenStatus (ZenStatus × τ) :=
  match c.acceptedSchemas s with
  | .error _ => .done (zenErr, s)
  | .ok accepted =>
      let u := parse payload
      match accepted.find? fun sc => sc.name == claimedName u && sc.version == claimedVersion u with
      | none => .done (zenErrUnknownSchema, s)
      | some door =>
          match admitUnverified u door .firstError with
          | .reject _ => .done (zenErrRefused, s)
          | .accept v => ((c.handle ⟨v, sender, replyTo, correlation⟩ s).through hostApiBus).map fun (result, s) =>
              (statusOf result, s)

end ShardClass

/-! ## A library of classes -/

/-- The seam with the thunk for a message, which asks its host for what its handler sends. -/
structure Plugin (ς : Type) extends Seam ς where
  handle : (abi inst : Pointer) → (sender replyTo : ShardId) → (correlation : UInt64) → (payload : ByteString) → ς →
    Dialogue HostCall ZenStatus (ZenStatus × ς)

/-- What the platform's loader does, with a memory of its own. -/
structure Loader (ς : Type) where
  libOpen : (path : ByteString) → ς → Except ByteString Pointer × ς
  shardAbi : (lib : Pointer) → Pointer
  libClose : (lib : Pointer) → ς → ς

/-- The objects that have been made, by their addresses. -/
structure Objects (τ : Type) where
  at? : Pointer → Option τ := fun _ => none
  next : Pointer := 1

namespace Objects

def create (objects : Objects τ) (s : τ) : Objects τ :=
  { at? := Function.update objects.at? objects.next (some s), next := objects.next + 1 }

def destroy (objects : Objects τ) (inst : Pointer) : Objects τ :=
  { objects with at? := Function.update objects.at? inst none }

def store (objects : Objects τ) (inst : Pointer) (s : τ) : Objects τ :=
  { objects with at? := Function.update objects.at? inst (some s) }

end Objects

/-- Memory of the loader and of the objects. -/
abbrev Image (ς τ : Type) := ς × Objects τ

-- no thunk is called with a pointer at which there is no object
def filled (objects : Objects τ) (inst : Pointer) (thunk : τ → ZenStatus × ByteString) : ZenStatus × ByteString :=
  match objects.at? inst with
  | some s => thunk s
  | none => (zenErr, [])

/-- The libraries whose descriptors are those of the classes `cls`. -/
def exported (loader : Loader ς) (cls : Pointer → ShardClass τ) : Plugin (Image ς τ) where
  libOpen path := fun (memory, objects) =>
    let result := loader.libOpen path memory
    (result.1, result.2, objects)
  shardAbi lib := fun image => (some (some (loader.shardAbi lib)), image)
  libClose lib := fun (memory, objects) => (loader.libClose lib memory, objects)
  abiVersion _ := fun _ => zenAbiVersion
  create abi := fun (memory, objects) =>
    match (cls abi).doCreate with
    | none => (none, memory, objects)
    | some s => (some objects.next, memory, objects.create s)
  destroy _ inst := fun (memory, objects) => (memory, objects.destroy inst)
  describe abi inst := fun image => (filled image.2 inst (cls abi).doDescribe, image)
  snapshot abi inst := fun image => (filled image.2 inst (cls abi).doSnapshot, image)
  policy abi inst := fun image => (filled image.2 inst (cls abi).doPolicy, image)
  revive abi inst state := fun (memory, objects) =>
    match objects.at? inst with
    | none => (zenErr, memory, objects)
    | some s =>
        let result := (cls abi).doRevive state s
        (result.1, memory, objects.store inst result.2)
  handle abi inst sender replyTo correlation payload := fun (memory, objects) =>
    match objects.at? inst with
    | none => .done (zenErr, memory, objects)
    | some s => ((cls abi).doHandle sender replyTo correlation payload s).map fun (status, s) =>
        (status, memory, objects.store inst s)

/-! ## The same objects, compiled into the host -/

structure Object where
  cls : Pointer
  inst : Pointer

def onObject (inst : Pointer) (f : τ → Except Exn α) : EStateM Exn (Image ς τ) α := fun image =>
  match image.2.at? inst with
  | none => .error (.runtimeError []) image
  | some s =>
      match f s with
      | .ok a => .ok a image
      | .error e => .error e image

def compiledOps (cls : Pointer → ShardClass τ) : ShardOps Object (Image ς τ) where
  acceptedSchemas o := onObject o.inst fun s => return (← (cls o.cls).acceptedSchemas s).map some
  snapshot o := onObject o.inst (cls o.cls).snapshot
  policy o := onObject o.inst (cls o.cls).policy
  revive o v := fun (memory, objects) =>
    match objects.at? o.inst with
    | none => .error (.runtimeError []) (memory, objects)
    | some s =>
        match ((cls o.cls).revive v).run s with
        | .ok _ s => .ok () (memory, objects.store o.inst s)
        | .error e s => .error e (memory, objects.store o.inst s)

def compiledHandlers (cls : Pointer → ShardClass τ) : Handlers Object (Image ς τ) := fun _ o msg (memory, objects) =>
  match objects.at? o.inst with
  | none => .done (.error (.runtimeError []), memory, objects)
  | some s => ((cls o.cls).handle msg s).map fun (result, s) => (result, memory, objects.store o.inst s)

end Zen.Kernel
