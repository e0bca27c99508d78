import Zen.Lib.Run
import Zen.Switchboard.Switchboard

/-!
# Runs of the bus

The call stack is explicit: `pump` pushes its loop, the loop pushes a handler, and while a handler
runs anything may be called, also by the host and by observers. An input is one such call or one
turn of the loop. Exceptions of operations go back to their caller; an exception of a handler leaves
`pump` with it.
-/

namespace Zen.Sb
open Lib

variable {σ ω : Type}

inductive Frame where
  | loop
  | handler (e : Envelope) (trusted : Message)

def Frame.isHandler : Frame → Bool
  | loop => false
  | handler _ _ => true

/-- For each sequence number, from 1 on, `origins` says as which Shard its message was sent (`none`: by
the host itself); `registered` says which grant each id was given. The bus reads neither. -/
structure Machine (σ ω : Type) where
  world : World σ ω
  stack : List Frame := []
  origins : List (Option ShardId) := []
  registered : List (ShardId × Grant) := []

inductive Input (σ ω : Type) where
  | registerShard (incoming : Option σ) (grant : Grant)
  | unregisterShard (id : ShardId)
  | send (target : ShardId) (msg : Message)
  | publish (msg : Message)
  | sendAs (asSender target : ShardId) (msg : Message)
  | publishAs (asSender : ShardId) (msg : Message)
  | kill (id : ShardId)
  | reload (id : ShardId) (candidateBytes : ByteString)
  | swapState (id : ShardId) (candidateBytes : ByteString)
  | stop
  | pump
  | turn
  | handlerSends (target : ShardId) (msg : Message)
  | handlerPublishes (msg : Message)
  | handlerReturns
  | handlerThrows
  | outside (change : ω → ω)

def Input.throws : Input σ ω → Bool
  | handlerThrows => true
  | _ => false

namespace Machine

def start (env : ω) : Machine σ ω := { world := { sb := {}, env } }

def withBus (m : Machine σ ω) (sb : Switchboard σ) : Machine σ ω :=
  { m with world := { m.world with sb } }

def enqueued (m : Machine σ ω) (sb : Switchboard σ) (origin : Option ShardId) : Machine σ ω :=
  { m.withBus sb with
    origins := m.origins ++ List.replicate (sb.nextSeq - m.world.sb.nextSeq) origin }

def sentBy (m : Machine σ ω) (seq : Nat) : Option ShardId := (m.origins[seq - 1]?).join

def ended {α : Type} (m : Machine σ ω) : EStateM.Result Exn (World σ ω) α → Machine σ ω
  | .ok _ world => { m with world }
  | .error _ world => { m with world }

def pump (m : Machine σ ω) : Machine σ ω :=
  if m.world.sb.inDispatch then m
  else { m.withBus { m.world.sb with inDispatch := true, stopRequested := false } with
    stack := .loop :: m.stack }

def popped (m : Machine σ ω) (e : Envelope) (queue : List Envelope) : World σ ω :=
  { m.world with
    sb := { m.world.sb with queue }
    log := { m.world.log with dequeued := m.world.log.dequeued ++ [e.seq] } }

/-- One evaluation of the condition of the loop, with the body if it holds. -/
def turn (m : Machine σ ω) (frames : List Frame) : Machine σ ω :=
  match m.world.sb.queue with
  | [] => { m.withBus { m.world.sb with inDispatch := false } with stack := frames }
  | e :: queue =>
      if m.world.sb.stopRequested then
        { m.withBus { m.world.sb with inDispatch := false } with stack := frames }
      else
        match (m.popped e queue).deliverOne e with
        | (world, none) => { m with world }
        | (world, some trusted) => { m with world, stack := .handler e trusted :: m.stack }

def step (ops : ShardOps σ ω) : Input σ ω → Machine σ ω → Option (Machine σ ω)
  | .registerShard incoming grant, m =>
      match (Sb.registerShard ops incoming grant).run m.world with
      | .ok id world => some { m with world, registered := m.registered ++ [(id, grant)] }
      | .error _ world => some { m with world }
  | .unregisterShard id, m => some (m.withBus (m.world.sb.unregisterShard id).1)
  | .send target msg, m => some (m.enqueued (m.world.sb.send target msg) none)
  | .publish msg, m => some (m.enqueued (m.world.sb.publish msg).1 none)
  | .sendAs asSender target msg, m =>
      some (m.enqueued (m.world.sb.sendAs asSender target msg) (some asSender))
  | .publishAs asSender msg, m =>
      some (m.enqueued (m.world.sb.publishAs asSender msg).1 (some asSender))
  | .kill id, m => some { m with world := m.world.kill id }
  | .reload id candidateBytes, m => some (m.ended ((Sb.reload ops id candidateBytes).run m.world))
  | .swapState id candidateBytes, m => some (m.ended ((Sb.swapState ops id candidateBytes).run m.world))
  | .stop, m => some (m.withBus { m.world.sb with stopRequested := true })
  | .pump, m => some m.pump
  | .turn, m =>
      match m.stack with
      | .loop :: frames => some (m.turn frames)
      | _ => none
  | .handlerSends target msg, m =>
      match m.stack with
      | .handler e _ :: _ => some (m.enqueued (m.world.sb.sendAs e.target target msg) (some e.target))
      | _ => none
  | .handlerPublishes msg, m =>
      match m.stack with
      | .handler e _ :: _ => some (m.enqueued (m.world.sb.publishAs e.target msg).1 (some e.target))
      | _ => none
  | .handlerReturns, m =>
      match m.stack with
      | .handler e trusted :: frames => some { m with world := m.world.delivered e trusted, stack := frames }
      | _ => none
  | .handlerThrows, m =>
      match m.stack with
      | .handler _ _ :: .loop :: frames => some { m with stack := frames }
      | _ => none
  | .outside change, m => some { m with world := { m.world with env := change m.world.env } }

end Machine

abbrev Reaches (ops : ShardOps σ ω) := Run (Machine.step ops)

end Zen.Sb
