import Zen.Isolation.Link

/-!
# The isolation host

A link lives where its pointer says until it is unmounted; the proxy on the bus holds the pointer. The
host is what the Shards of the bus keep between calls, since a `reload` of the bus comes back to it
through the proxy.
-/

namespace Zen.Isolation
open Lib Sb

variable {ν ς α : Type}

/-- `answers` is what the operating system will say to the next spawn. Of the list `respawns`, which the
host does not read, each entry is a call of `spawn_and_handshake` for a revival. -/
structure Host (ς : Type) where
  registry : Registry := {}
  heap : Pointer → Option Link := fun _ => none
  nextLink : Pointer := 0
  links : List (ByteString × Pointer) := []
  enforcement : Capability → Bool := fun _ => true
  devMode : Bool := false
  forceEntryFailure : Bool := false
  leafCounter : Nat := 0
  answers : SpawnAnswers := {}
  calls : List OsCall := []
  respawns : List Pointer := []
  memory : ς

/-- A Shard on the bus is one compiled into the host, or a proxy. -/
inductive Shard (ν : Type) where
  | native (shard : ν)
  | proxy (link : Pointer)

abbrev HostM (ς α : Type) := EStateM Exn (Host ς) α

namespace Host

def put (h : Host ς) (p : Pointer) (link : Link) : Host ς := { h with heap := Function.update h.heap p (some link) }

def drop (h : Host ς) (p : Pointer) : Host ς := { h with heap := Function.update h.heap p none }

def called (h : Host ς) (calls : List OsCall) : Host ς := { h with calls := h.calls ++ calls }

def teardown (h : Host ς) (p : Pointer) (link : Link) : Host ς :=
  (h.put p (teardownChild link).1).called (teardownChild link).2

end Host

/-! ## What the proxy does -/

-- a proxy leaves the bus before its link goes, so the pointer is good
def onLink (p : Pointer) (missing : α) (f : Link → HostM ς α) : HostM ς α := do
  match (← get).heap p with
  | some link => f link
  | none => return missing

def deliverHeader (msg : Message) : DeliverHeader :=
  ⟨UInt64.ofNat msg.sender, UInt64.ofNat msg.replyTo, msg.correlation⟩

def shipDeliver (p : Pointer) (msg : Message) : HostM ς Unit :=
  onLink p () fun link =>
    match link.channel with
    | none => return
    | some ch =>
        match serialize msg.payload with
        | .error e => throw e
        | .ok bytes => modify fun h => h.put p
            { link with channel := some (ch.queue .deliver (deliverPayload (deliverHeader msg) bytes)) }

/-- The link after the spawn of a revival, the calls made, and whether the handshake succeeded. -/
def respawn (force : Bool) (a : SpawnAnswers) (link : Link) : Link × List OsCall × Bool :=
  let (link, calls) := if link.channel.isSome then teardownChild link else (link, [])
  match (spawnAndHandshake force a).run ⟨link, calls⟩ with
  | .ok _ s => (s.link, s.calls, true)
  | .error _ s => ((teardownChild s.link).1, s.calls ++ (teardownChild s.link).2, false)

def Link.queue (link : Link) (op : Op) (payload : ByteString) : Link :=
  { link with channel := link.channel.map fun ch => ch.queue op payload }

def respawnAndRevive (p : Pointer) (state : Value) : HostM ς Unit :=
  onLink p () fun link => do
    let h ← get
    let (link, calls, spawned) := respawn h.forceEntryFailure h.answers link
    set { (h.put p link).called calls with respawns := h.respawns ++ [p] }
    if spawned then
      match serialize state with
      | .error e => throw e
      | .ok bytes => modify fun h => h.put p (link.queue .revive bytes)
    else return

-- the source reads these without looking whether they are there
def cached (x : Option α) : HostM ς α :=
  match x with
  | some a => return a
  | none => throw (.runtimeError "bad optional access")

def onMemory (x : EStateM Exn ς α) : HostM ς α := fun h =>
  match x.run h.memory with
  | .ok a memory => .ok a { h with memory }
  | .error e memory => .error e { h with memory }

def proxyOps (native : ShardOps ν ς) : ShardOps (Shard ν) (Host ς) where
  acceptedSchemas
    | .native shard => onMemory (native.acceptedSchemas shard)
    | .proxy p => onLink p [] fun link => return link.accept.map some
  snapshot
    | .native shard => onMemory (native.snapshot shard)
    | .proxy p => do cached ((← get).heap p >>= Link.snapshotValue)
  policy
    | .native shard => onMemory (native.policy shard)
    | .proxy p => do cached ((← get).heap p >>= Link.policyValue)
  revive
    | .native shard, state => onMemory (native.revive shard state)
    | .proxy p, state => respawnAndRevive p state

/-! ## Mounting -/

structure OutOfProcessResult where
  ok : Bool := false
  id : ShardId := 0
  error : ByteString := []
  deriving DecidableEq

def refusedBy (what : ByteString) (errors : List Error) : Exn :=
  .runtimeError (what ++ ascii " refused: " ++ (Admission.reject errors).firstError.message)

/-- The schemas that are registered before a failure stay registered. -/
def reconstructAndCache (link : Link) (hello : Hello) : EStateM Exn Registry Link :=
  match admitUnverified (parse hello.manifest) Kernel.manifestSchema .firstError with
  | .reject errors => throw (refusedBy "manifest" errors)
  | .accept manifest => do
      let accept ← Kernel.reconstructAll (Raw.Cell.asList (manifest.get "accepted"))
      let state ← Kernel.reconstructSchema (Raw.Cell.asMessage (manifest.get "state"))
      match admitUnverified (parse hello.policy) lifecyclePolicySchema .firstError with
      | .reject errors => throw (refusedBy "policy" errors)
      | .accept policy =>
          match admitUnverified (parse hello.snapshot) state .firstError with
          | .reject errors => throw (refusedBy "snapshot" errors)
          | .accept snapshot => return { link with
              accept, stateSchema := some state, policyValue := some policy,
              snapshotValue := some snapshot, snapshotBytes := hello.snapshot }

/-- What `mount` gets from the operating system besides the answers of its spawn. -/
structure MountAnswers where
  mkdtemp : Option ByteString := some "/tmp/zen-sb-XXXXXX"
  defaultCaps : ResourceCaps := {}
  spawn : SpawnAnswers := {}

def networkRefusal (name : ByteString) : ByteString :=
  ascii "refused (fail-safe): cannot enforce network isolation for '" ++ name ++
    ascii "' on this host (no unprivileged network namespace). Grant os_cap::Network to allow the network intentionally, or enable dev-mode to run it network-uncontained."

def filesystemRefusal (name : ByteString) : ByteString :=
  ascii "refused (fail-safe): cannot enforce filesystem isolation for '" ++ name ++
    ascii "' on this host (no unprivileged mount namespace). Grant FsAccess::WriteAnywhere to opt out intentionally, or enable dev-mode to run it filesystem-uncontained."

def resourcesRefusal (name : ByteString) : ByteString :=
  ascii "refused (fail-safe): cannot enforce resource limits for '" ++ name ++
    ascii "' on this host (no cgroup-v2 delegation " ++ [0xE2, 0x80, 0x94] ++ -- an em dash in UTF-8
    ascii " run the host under a delegated scope). Grant unlimited resources to opt out, or enable dev-mode to run it resource-uncontained."

/-- The outcome that the grant, the report and dev-mode leave for a capability, if any. -/
def resolve (h : Host ς) (granted : Bool) (capability : Capability) : Option Outcome :=
  if granted then some .granted
  else if h.enforcement capability then some .enforced
  else if h.devMode then some .uncontained
  else none

def capsFor (defaults : ResourceCaps) (limits : ResourceLimits) : ResourceCaps where
  memoryMax := if 0 < limits.memoryBytes then limits.memoryBytes else defaults.memoryMax
  pidsMax := if 0 < limits.pids then limits.pids else defaults.pidsMax
  cpuWeight := if 0 < limits.cpuWeight then limits.cpuWeight else defaults.cpuWeight

abbrev LinkM (ς α : Type) := EStateM ByteString (Host ς × Link) α

def resolved (capability : Capability) (outcome : Outcome) : LinkM ς Unit :=
  modify fun (h, link) => (h, { link with resolutions := link.resolutions ++ [⟨capability, outcome, false⟩] })

def resolveNetwork (grant : HostGrant) : LinkM ς Unit := do
  let (h, link) ← get
  match resolve h (grant.hasOsCapability osCapNetwork) .network with
  | none => throw (networkRefusal link.name)
  | some outcome => resolved .network outcome

def resolveFilesystem (grant : HostGrant) (a : MountAnswers) : LinkM ς Unit := do
  let (h, link) ← get
  match resolve h (grant.filesystem == .writeAnywhere) .filesystem with
  | none => throw (filesystemRefusal link.name)
  | some .enforced =>
      match a.mkdtemp with
      | none => throw (ascii "filesystem sandbox: could not create a view root for '" ++ link.name ++ ascii "'")
      | some root => do
          modify fun (h, link) => (h.called [.mkdtemp root], { link with fsRoot := root })
          resolved .filesystem .enforced
  | some outcome => resolved .filesystem outcome

def resolveResources (grant : HostGrant) (a : MountAnswers) : LinkM ς Unit := do
  let (h, link) ← get
  match resolve h grant.resources.unlimited .resources with
  | none => throw (resourcesRefusal link.name)
  | some .enforced => do
      modify fun (h, link) => ({ h with leafCounter := h.leafCounter + 1 }, { link with
        cgCaps := capsFor a.defaultCaps grant.resources
        cgLeaf := ascii "zen-shard-" ++ decimal h.leafCounter })
      resolved .resources .enforced
  | some outcome => resolved .resources outcome

/-- The three blocks of `mount` that resolve the capabilities. -/
def resolveCapabilities (grant : HostGrant) (a : MountAnswers) : LinkM ς Unit := do
  resolveNetwork grant
  resolveFilesystem grant a
  resolveResources grant a

-- a `std::map` by name
def insertLink (name : ByteString) (p : Pointer) : List (ByteString × Pointer) → List (ByteString × Pointer)
  | [] => [(name, p)]
  | entry :: links => if name < entry.1 then (name, p) :: entry :: links else entry :: insertLink name p links

def findLink (h : Host ς) (name : ByteString) : Option Pointer :=
  (h.links.find? fun entry => entry.1 == name).map Prod.snd

abbrev BusHostM (ν ς α : Type) := BusM (Shard ν) (Host ς) α

namespace BusHostM

def modifyHost (f : Host ς → Host ς) : BusHostM ν ς Unit := modify fun w => { w with env := f w.env }

-- a `try` with a handler for every `std::exception`
def caught (x : BusHostM ν ς α) : BusHostM ν ς (Except Exn α) := fun w =>
  match x.run w with
  | .ok a w => .ok (.ok a) w
  | .error e w => .ok (.error e) w

end BusHostM

open BusHostM

-- the end of `mount`, from the registration on
def enroll (native : ShardOps ν ς) (name : ByteString) (p : Pointer) (link : Link) (grant : Sb.Grant) :
    BusHostM ν ς OutOfProcessResult := do
  match ← caught (registerShard (proxyOps native) (some (.proxy p)) grant) with
  | .error e => do
      modifyHost fun h => (h.drop p).called (teardownChild link).2
      return { error := ascii "register refused: " ++ e.what }
  | .ok id => do
      modifyHost fun h => { h.put p { link with id } with links := insertLink name p h.links }
      return { ok := true, id }

/-- Of the ways to fail, those before the spawn and the refusal of the name tear nothing down. -/
def mount (native : ShardOps ν ς) (name soPath : ByteString) (grant : HostGrant) (a : MountAnswers) :
    BusHostM ν ς OutOfProcessResult := do
  let h := (← get).env
  if (findLink h name).isSome then return { error := ascii "already mounted: " ++ name }
  else
    let p := h.nextLink
    match (resolveCapabilities grant a).run ({ h with nextLink := p + 1 }, { name, soPath }) with
    | .error e (h, _) => do
        modifyHost fun _ => h
        return { error := e }
    | .ok _ (h, link) =>
        match (spawnAndHandshake h.forceEntryFailure a.spawn).run { link } with
        | .error e s => do
            modifyHost fun _ => h.called (s.calls ++ (teardownChild s.link).2)
            return { error := ascii "spawn/handshake failed: " ++ e }
        | .ok hello s =>
            match (reconstructAndCache s.link hello).run h.registry with
            | .error e registry => do
                modifyHost fun _ => Host.called { h with registry } (s.calls ++ (teardownChild s.link).2)
                return { error := ascii "handshake refused by the gate: " ++ e.what }
            | .ok link registry => do
                modifyHost fun _ => (Host.put { h with registry } p link).called s.calls
                enroll native name p link grant.sends

def unmount (name : ByteString) : BusHostM ν ς Unit := do
  let h := (← get).env
  match findLink h name with
  | none => return
  | some p =>
      match h.heap p with
      | none => return
      | some link => do
          modify fun w => { w with sb := (w.sb.unregisterShard link.id).1 }
          modifyHost fun h => ({ (h.drop p) with links := h.links.filter fun entry => entry.1 ≠ name }).called
            (teardownChild link).2

/-! ## Frames of a child -/

/-- Bytes that do not parse claim no schema; whatever the bus would resolve for them, the gate refuses. -/
def handleEmit (link : Link) (payload : ByteString) (sb : Switchboard (Shard ν)) : Switchboard (Shard ν) :=
  match readEmit.run payload with
  | .error _ _ => sb
  | .ok (header, bytes) _ =>
      match parse bytes with
      | .error _ => sb
      | .ok claim =>
          match sb.resolveSchema claim.name claim.version with
          | none => sb
          | some door =>
              match admitUnverified (parse bytes) door .firstError with
              | .reject _ => sb
              | .accept v =>
                  let msg : Message := ⟨v, 0, header.replyTo.toNat, header.correlation⟩
                  if header.kind = kEmitPublish then (sb.publishAs link.id msg).1
                  else sb.sendAs link.id header.target.toNat msg

def handleSnapshot (link : Link) (payload : ByteString) : Link :=
  match link.stateSchema with
  | none => link
  | some door =>
      match admitUnverified (parse payload) door .firstError with
      | .reject _ => link
      | .accept v => { link with snapshotValue := some v, snapshotBytes := payload }

def handleChildFrame (p : Pointer) (w : World (Shard ν) (Host ς)) (frame : Incoming) : World (Shard ν) (Host ς) :=
  match w.env.heap p with
  | none => w
  | some link =>
      if frame.op = .emit then { w with sb := handleEmit link frame.payload w.sb }
      else if frame.op = .snapshot then { w with env := w.env.put p (handleSnapshot link frame.payload) }
      else w

/-- A child's turn in the first part of `step`. -/
def drainChild (p : Pointer) (sends : List SendResult) (recvs : List RecvResult) (w : World (Shard ν) (Host ς)) :
    World (Shard ν) (Host ς) :=
  match w.env.heap p with
  | none => w
  | some link =>
      match link.channel with
      | none => w
      | some ch =>
          let (ch, frames) := (ch.flush sends).1.poll recvs
          frames.foldl (handleChildFrame p) { w with env := w.env.put p { link with channel := some ch } }

/-! ## Supervision -/

def Link.hasChild (link : Link) : Bool :=
  match link.channel with
  | none => false
  | some ch => !ch.done

-- the second half of `recover`: what the reload has come to
def concluded (p : Pointer) (ro : ReviveOutcome) : BusHostM ν ς Unit := do
  match (← get).env.heap p with
  | none => return
  | some link =>
      if ro.revived && link.channel.isSome then
        modifyHost fun h => h.put p { link with dead := false, deathSignaled := false }
      else modifyHost fun h => h.teardown p { link with quarantined := true, dead := true }

def recover (native : ShardOps ν ς) (p : Pointer) (link : Link) : BusHostM ν ς Unit := do
  modifyHost fun h => h.teardown p link
  concluded p (← reload (proxyOps native) link.id link.snapshotBytes)

/-- A link's turn in the last part of `step`. -/
def supervise (native : ShardOps ν ς) (p : Pointer) : BusHostM ν ς Unit := do
  match (← get).env.heap p with
  | none => return
  | some link =>
      if link.quarantined then return
      else if !link.hasChild && !link.deathSignaled then do
        let link := { link with dead := true, deathSignaled := true }
        modifyHost fun h => h.put p link
        modify fun w => w.kill link.id
        recover native p link
      else if link.dead then recover native p link
      else return

end Zen.Isolation
