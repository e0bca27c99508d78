import Zen.Isolation.Channel
import Zen.Kernel.Kernel

/-!
# Links and their children

What the operating system answers while a child is spawned is a `SpawnAnswers`: any call may fail,
and the handshake may bring any bytes in any pieces. The calls that leave something behind (a process,
a directory, a cgroup leaf) are written down.
-/

namespace Zen.Isolation
open Lib Sb

abbrev Pointer := Nat
abbrev Pid := Nat

/-! ## Capabilities -/

inductive Capability where
  | network | filesystem | resources
  deriving DecidableEq

inductive Outcome where
  | enforced | granted | uncontained
  deriving DecidableEq

structure CapabilityResolution where
  capability : Capability
  outcome : Outcome
  confirmed : Bool := false
  deriving DecidableEq

inductive FsAccess where
  | none | readOnly | writeScoped | writeNoExec | writeAnywhere
  deriving DecidableEq

structure ResourceLimits where
  memoryBytes : Int64 := 0
  pids : Int64 := 0
  cpuWeight : Int64 := 0
  unlimited : Bool := false
  deriving DecidableEq

structure ResourceCaps where
  memoryMax : Int64 := -1
  pidsMax : Int64 := -1
  cpuWeight : Int64 := 0
  deriving DecidableEq

def osCapNetwork : UInt32 := 1

/-- A grant with the parts that the bus does not read. -/
structure HostGrant where
  sends : Sb.Grant := {}
  os : UInt32 := 0
  filesystem : FsAccess := .none
  resources : ResourceLimits := {}
  deriving DecidableEq

def HostGrant.hasOsCapability (g : HostGrant) (cap : UInt32) : Bool := cap != 0 && g.os &&& cap == cap

/-! ## Links -/

/-- An optional value that the source dereferences unchecked is an `Option` here too. The plan of the
restricted view and the notes of the resolutions are left out: nothing here reads them. -/
structure Link where
  name : ByteString
  soPath : ByteString
  id : ShardId := 0
  channel : Option Channel := none
  pid : Option Pid := none
  accept : List Schema := []
  stateSchema : Option Schema := none
  snapshotValue : Option Value := none
  snapshotBytes : ByteString := []
  policyValue : Option Value := none
  resolutions : List CapabilityResolution := []
  fsRoot : ByteString := []
  cgLeaf : ByteString := []
  cgCaps : ResourceCaps := {}
  dead : Bool := false
  deathSignaled : Bool := false
  quarantined : Bool := false

def Link.sandboxed (link : Link) (capability : Capability) : Bool :=
  match link.resolutions.find? fun r => r.capability == capability with
  | some r => r.outcome == .enforced
  | none => false

def networkSandboxed (link : Link) : Bool := link.sandboxed .network
def filesystemSandboxed (link : Link) : Bool := link.sandboxed .filesystem
def resourcesContained (link : Link) : Bool := link.sandboxed .resources

/-! ## Spawning -/

inductive OsCall where
  | mkdtemp (root : ByteString)
  | mkdir (root : ByteString)
  | rmdir (root : ByteString)
  | createLeaf (leaf : ByteString) (caps : ResourceCaps)
  | removeLeaf (leaf : ByteString)
  | spawn (pid : Pid)
  | confirm (pid : Pid) (capability : Capability)
  | reap (pid : Pid)
  deriving DecidableEq

/-- The answers of one spawn. `hello` is a list of rounds of `wait_for_hello`: what `recv` gives in the
round, and whether the child is waited for once more after it. -/
structure SpawnAnswers where
  socketpair : Bool := true
  leaf : Bool := true
  pipes : Bool := true
  fork : Option Pid := some 1
  signaled : Bool := true
  idMaps : Bool := true
  moved : Bool := true
  posixSpawn : Option Pid := some 1
  hello : List (List RecvResult × Bool) := []
  netns : Bool := true
  mountns : Bool := true
  cgroup : Bool := true

structure Spawning where
  link : Link
  calls : List OsCall := []

abbrev SpawnM (α : Type) := EStateM ByteString Spawning α

namespace SpawnM

def call (c : OsCall) : SpawnM Unit := modify fun s => { s with calls := s.calls ++ [c] }

def callIf (c : Bool) (os : OsCall) : SpawnM Unit := if c then call os else return

def ensure (ok : Bool) (error : ByteString) : SpawnM Unit := if ok then return else throw error

def setLink (f : Link → Link) : SpawnM Unit := modify fun s => { s with link := f s.link }

end SpawnM

open SpawnM

-- the frames that come with the Hello, before it or after it, are dropped
def waitForHello : List (List RecvResult × Bool) → Channel → Channel × Option Incoming
  | [], ch => (ch, none)
  | (results, again) :: rounds, ch =>
      let (ch, frames) := ch.poll results
      match frames.find? fun f => f.op == .hello with
      | some hello => (ch, some hello)
      | none => if ch.done || !again then (ch, none) else waitForHello rounds ch

/-- The fork with its two pipes. The child is told to go on or to die at the point where it has
unshared; one that is made to fail there has not signalled. -/
def forkSandboxed (force : Bool) (a : SpawnAnswers) (needsUserns sandboxRes : Bool) : SpawnM Pid := do
  ensure a.pipes "sandbox sync pipe failed"
  match a.fork with
  | none => throw (ascii "fork (sandboxed spawn) failed")
  | some pid =>
      call (.spawn pid)
      let signaled := a.signaled && !force
      let prepared := signaled && (!needsUserns || a.idMaps) && (!sandboxRes || a.moved)
      setLink fun link => { link with pid := if prepared then link.pid else some pid }
      ensure prepared "could not prepare the sandboxed child (id-map or cgroup move failed)"
      return pid

def spawnPlain (a : SpawnAnswers) : SpawnM Pid :=
  match a.posixSpawn with
  | none => throw (ascii "posix_spawn failed")
  | some pid => do
      call (.spawn pid)
      return pid

def launch (force : Bool) (a : SpawnAnswers) (needsUserns sandboxRes : Bool) : SpawnM Pid :=
  if needsUserns || sandboxRes then forkSandboxed force a needsUserns sandboxRes else spawnPlain a

def confirmSandbox (wanted confirmed : Bool) (pid : Pid) (capability : Capability) (error : ByteString) :
    SpawnM Unit :=
  if wanted then do
    ensure confirmed error
    call (.confirm pid capability)
  else return

def markConfirmed (link : Link) : Link :=
  { link with resolutions := link.resolutions.map fun r =>
      if r.outcome == .enforced && link.sandboxed r.capability then { r with confirmed := true } else r }

structure Hello where
  manifest : ByteString
  policy : ByteString
  snapshot : ByteString

def handshake (a : SpawnAnswers) : SpawnM Hello := do
  let (ch, hello) := waitForHello a.hello {}
  setLink fun link => { link with channel := some ch }
  match hello with
  | none => throw (ascii "child did not complete the handshake")
  | some frame =>
      match readHello.run frame.payload with
      | .error _ _ => throw (ascii "malformed Hello frame")
      | .ok (manifest, policy, snapshot) _ => return ⟨manifest, policy, snapshot⟩

def spawnAndHandshake (force : Bool) (a : SpawnAnswers) : SpawnM Hello := do
  ensure a.socketpair "socketpair failed"
  let link := (← get).link
  let sandboxNet := networkSandboxed link
  let sandboxFs := filesystemSandboxed link
  let sandboxRes := resourcesContained link
  let needsUserns := sandboxNet || sandboxFs
  callIf (sandboxFs && link.fsRoot ≠ []) (.mkdir link.fsRoot)
  callIf sandboxRes (.createLeaf link.cgLeaf link.cgCaps)
  ensure (!sandboxRes || a.leaf) "resource sandbox: could not create/limit the cgroup leaf"
  let pid ← launch force a needsUserns sandboxRes
  setLink fun link => { link with pid := some pid }
  let hello ← handshake a
  confirmSandbox sandboxNet a.netns pid .network
    "network sandbox not confirmed: child shares the host network namespace"
  confirmSandbox sandboxFs a.mountns pid .filesystem
    "filesystem sandbox not confirmed: child shares the host mount namespace"
  confirmSandbox sandboxRes a.cgroup pid .resources
    "resource sandbox not confirmed: child not in its cgroup leaf or limits not applied"
  setLink markConfirmed
  return hello

/-- The Shutdown frame goes to a child that is reaped below, by force if it does not heed it. -/
def teardownChild (link : Link) : Link × List OsCall :=
  ({ link with channel := none, pid := none },
    (match link.pid with
      | some pid => [.reap pid]
      | none => []) ++
    (if link.fsRoot ≠ [] then [.rmdir link.fsRoot] else []) ++
    if link.cgLeaf ≠ [] then [.removeLeaf link.cgLeaf] else [])

end Zen.Isolation
