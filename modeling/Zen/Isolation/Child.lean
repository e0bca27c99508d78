import Zen.Isolation.System
import Zen.Isolation.Wire

/-!
# The child and its library

`zen-shard-host` opens a library, says Hello and then serves the frames of its host one by one. It has
one thread and its calls on the socket block, so what it has to write stands in `out` until the kernel
has taken it, and it reads only when that is empty.
-/

namespace Zen.Isolation
open Lib Kernel

variable {ν ς τ α : Type}

/-- A call that `handle` makes on the bus it is given. -/
inductive Emission where
  | send (target replyTo correlation : UInt64) (payload : ByteString)
  | publish (replyTo correlation : UInt64) (payload : ByteString)

/-- The seam of the kernel, and the thunk for a message, which the kernel's part leaves out. Its status
is read by nobody. -/
structure Library (τ : Type) extends Seam τ where
  handle : (abi inst : Pointer) → DeliverHeader → (payload : ByteString) → τ → List Emission × τ

def Emission.frame : Emission → Incoming
  | send target replyTo correlation payload =>
      ⟨.emit, emitPayload ⟨kEmitSend, target, replyTo, correlation⟩ payload⟩
  | publish replyTo correlation payload =>
      ⟨.emit, emitPayload ⟨kEmitPublish, 0, replyTo, correlation⟩ payload⟩

/-- What the host meant a child to start from, and the snapshot it had cached when it spawned it. -/
structure Revival where
  state : ByteString
  cached : ByteString
  deriving DecidableEq

/-- A process. `down` and `up` are in the socket, `got` has come of the frame that is being read. The
last three are not in the program: the state that the library has taken without complaint, the
snapshots made since, and what the host meant it to take. -/
structure Child (τ : Type) where
  memory : τ
  abi : Pointer
  inst : Pointer
  down : ByteString := []
  got : ByteString := []
  out : ByteString := []
  up : ByteString := []
  exited : Bool := false
  took : Option ByteString := none
  line : List ByteString := []
  revival : Option Revival := none

/-! ## Up to the Hello -/

-- the exception is the exit code
abbrev MainM (τ α : Type) := EStateM Nat τ α

def MainM.call (f : τ → α × τ) : MainM τ α := fun memory => .ok (f memory).1 (f memory).2

def MainM.filled (f : τ → (ZenStatus × ByteString) × τ) : MainM τ ByteString := do
  let (status, bytes) ← MainM.call f
  if status ≠ zenOk then throw 7 else return bytes

def greet (lib : Library τ) (soPath : ByteString) : MainM τ (Pointer × Pointer × Incoming) := do
  match ← MainM.call (lib.libOpen soPath) with
  | .error _ => throw 3
  | .ok so =>
      match ← MainM.call (lib.shardAbi so) with
      | none => throw 4
      | some none => throw 5
      | some (some abi) => do
          if lib.abiVersion abi (← get) ≠ zenAbiVersion then throw 5
          match ← MainM.call (lib.create abi) with
          | none => throw 6
          | some inst => do
              let manifest ← MainM.filled (lib.describe abi inst)
              let policy ← MainM.filled (lib.policy abi inst)
              let snapshot ← MainM.filled (lib.snapshot abi inst)
              return (abi, inst, ⟨.hello, helloPayload manifest policy snapshot⟩)

/-- A process just started, with the Hello it has to write, if it gets that far. -/
def boot (lib : Library τ) (soPath : ByteString) (memory : τ) : Child τ × List Incoming :=
  match (greet lib soPath).run memory with
  | .ok (abi, inst, hello) memory => ({ memory, abi, inst, out := frameBytes hello }, [hello])
  | .error _ memory => ({ memory, abi := 0, inst := 0, exited := true }, [])

/-! ## The loop -/

namespace Child

def emitSnapshot (lib : Library τ) (c : Child τ) : Child τ × List Incoming :=
  match lib.snapshot c.abi c.inst c.memory with
  | ((status, bytes), memory) =>
      if status ≠ zenOk then ({ c with memory }, [])
      else ({ c with memory, line := c.line ++ [bytes] }, [⟨.snapshot, bytes⟩])

/-- The body of the loop, with the frames it sends. -/
def serve (lib : Library τ) (c : Child τ) (f : Incoming) : Child τ × List Incoming :=
  if f.op = .deliver then
    match readDeliver.run f.payload with
    | .error _ _ => ({ c with exited := true }, [])
    | .ok (header, bytes) _ =>
        let (emissions, memory) := lib.handle c.abi c.inst header bytes c.memory
        let (c, frames) := emitSnapshot lib { c with memory }
        (c, emissions.map Emission.frame ++ frames)
  else if f.op = .revive then
    let (status, memory) := lib.revive c.abi c.inst f.payload c.memory
    emitSnapshot lib { c with memory, took := if status = zenOk then some f.payload else none, line := [] }
  else if f.op = .shutdown then ({ c with exited := true }, [])
  else (c, [])

end Child

inductive ChildInput where
  | recv (n : Nat)
  | send (n : Nat)
  | dies

namespace Child

/-- One `recv` of the child, which serves the frame that is complete with it, or one `send`; or its end. -/
def step (lib : Library τ) : ChildInput → Child τ → Option (Child τ)
  | .recv n, c =>
      if c.exited ∨ c.out ≠ [] ∨ n = 0 ∨ wanted c.got < n ∨ c.down.length < n then none
      else
        let got := c.got ++ c.down.take n
        let c := { c with down := c.down.drop n }
        match scanFrame got with
        | .short => some { c with got }
        | .bad => some { c with got, exited := true }
        | .frame f rest =>
            let (c, frames) := serve lib { c with got := rest } f
            some { c with out := words frameBytes frames }
  | .send n, c =>
      if c.exited ∨ n = 0 ∨ c.out.length < n then none
      else some { c with up := c.up ++ c.out.take n, out := c.out.drop n }
  | .dies, c => some { c with exited := true, out := [] }

end Child

/-! ## Host and children -/

structure Joint (ν ς τ : Type) where
  system : System ν ς
  children : Pointer → Option (Child τ) := fun _ => none

/-- What a `poll` has read of the socket. -/
def pollTaken (results : List RecvResult) (ch : Channel) : ByteString :=
  if ch.failed then [] else Channel.recvTaken results ch

/-- What `wait_for_hello` has read. -/
def helloTaken : List (List RecvResult × Bool) → Channel → ByteString
  | [], _ => []
  | (results, again) :: rounds, ch =>
      let taken := pollTaken results ch
      let (ch, frames) := ch.poll results
      match frames.find? fun f => f.op == .hello with
      | some _ => taken
      | none => if ch.done || !again then taken else taken ++ helloTaken rounds ch

-- the link whose child an input may start, stop, write to or read from
def Input.concerns (s : System ν ς) : Input ν ς → Option Pointer
  | .mount _ _ _ _ => some s.host.nextLink
  | .unmount name => findLink s.host name
  | .drain _ _ =>
      match s.phase with
      | .io (p :: _) => some p
      | _ => none
  | .supervise _ =>
      match s.phase with
      | .supervising (p :: _) => some p
      | _ => none
  | .bus (.reload id _) _ | .bus (.swapState id _) _ => proxyOf s.bus id
  | _ => none

def Input.hello : Input ν ς → List (List RecvResult × Bool)
  | .mount _ _ _ answers => answers.spawn.hello
  | .supervise answers | .bus _ answers => answers.hello
  | _ => []

/-- The state that an input has revived a Shard with. -/
def revivedState (s s' : System ν ς) : Option ByteString :=
  match s'.world.log.revived.drop s.world.log.revived.length with
  | [] => none
  | (_, _, state) :: _ => (serialize state).toOption

/-- The process that an input has started, in `memory`, as it is after the handshake. -/
def newborn (lib : Library τ) (input : Input ν ς) (memory : τ) (link : Link) (revival : Option Revival) :
    Option (Child τ) :=
  let born := (boot lib link.soPath memory).1
  let taken := helloTaken input.hello {}
  if taken <+: born.out then some { born with out := born.out.drop taken.length, revival } else none

/-- The process once the host has flushed and polled its link. -/
def Child.drained (ch : Channel) (sends : List SendResult) (recvs : List RecvResult) (c : Child τ) :
    Option (Child τ) :=
  let (ch, written) := ch.flush sends
  let taken := pollTaken recvs ch
  if taken <+: c.up then some { c with down := c.down ++ written, up := c.up.drop taken.length } else none

/-- The process at the other end of the link at `p` after an input, if that can be: what the host has
read is what the process has written. -/
def follow (lib : Library τ) (input : Input ν ς) (memory : τ) (s s' : System ν ς) (p : Pointer)
    (child : Option (Child τ)) : Option (Option (Child τ)) :=
  match s'.host.heap p with
  | none => some none
  | some link' =>
      if link'.channel.isNone then some none
      else
        match s.host.heap p with
        | none => (newborn lib input memory link' none).map some
        | some link =>
            if s.host.respawns.count p < s'.host.respawns.count p then
              (newborn lib input memory link'
                ((revivedState s s').map fun state => ⟨state, link.snapshotBytes⟩)).map some
            else
              match input, link.channel with
              | .drain sends recvs, some ch => (child.bind (Child.drained ch sends recvs)).map some
              | _, _ => some child

inductive JointInput (ν ς τ : Type) where
  | host (input : Input ν ς) (memory : τ)
  | child (p : Pointer) (input : ChildInput)

namespace Joint

def start (host : Host ς) : Joint ν ς τ := { system := .start host }

def step (native : Sb.ShardOps ν ς) (lib : Library τ) : JointInput ν ς τ → Joint ν ς τ → Option (Joint ν ς τ)
  | .host input memory, j =>
      (System.step native input j.system).bind fun s' =>
        match input.concerns j.system with
        | none => some { j with system := s' }
        | some p => (follow lib input memory j.system s' p (j.children p)).map fun child =>
            ⟨s', Function.update j.children p child⟩
  | .child p input, j =>
      (j.children p).bind fun c => (Child.step lib input c).map fun c =>
        { j with children := Function.update j.children p (some c) }

end Joint
end Zen.Isolation
