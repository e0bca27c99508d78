import Zen.Lib.Dialogue
import Zen.Switchboard.Behaviour

/-!
# Handlers as programs

A handler is called with a message and a bus. What it asks of the bus is answered by the bus, and it
may go on as the answers say.
-/

namespace Zen.Sb
open Lib

variable {σ ω : Type}

/-- A call on the `Bus` that a handler is given. -/
inductive BusCall where
  | send (target : ShardId) (msg : Message)
  | publish (msg : Message)

/-- A ticket, or a number of recipients, or what the call throws. -/
abbrev BusAnswer := Except Exn Nat

/-- `handle`, for the schemas registered at the time, with how it ends and what is kept then. -/
abbrev Handlers (σ ω : Type) := Registry → σ → Message → ω → Dialogue BusCall BusAnswer (Except Exn Unit × ω)

namespace BusCall

def payload : BusCall → Value
  | send _ msg => msg.payload
  | publish msg => msg.payload

-- a `ShardBus` makes the call as the Shard it belongs to
def input : BusCall → Input σ ω
  | send target msg => .handlerSends target msg
  | publish msg => .handlerPublishes msg

def answer (m : Machine σ ω) : BusCall → BusAnswer
  | send _ _ => .ok m.world.sb.nextSeq
  | publish msg =>
      match m.stack with
      | .handler e _ :: _ => .ok (m.world.sb.publishAs e.target msg).2
      | _ => .ok 0

end BusCall

def ending : Except Exn Unit → Input σ ω
  | .ok _ => .handlerReturns
  | .error _ => .handlerThrows

namespace Machine

def converse (ops : ShardOps σ ω) : Dialogue BusCall BusAnswer (Except Exn Unit × ω) → Machine σ ω → Option (Machine σ ω)
  | .done (result, env), m => (step ops (.outside fun _ => env) m).bind (step ops (ending result))
  | .ask call next, m => (step ops call.input m).bind (converse ops (next (call.answer m)))

/-- Runs the handler that the last turn has called, if it has called one. -/
def attend (ops : ShardOps σ ω) (h : Handlers σ ω) (m : Machine σ ω) : Option (Machine σ ω) :=
  match m.stack with
  | .handler e trusted :: _ =>
      match m.world.sb.find e.target with
      | some rec => converse ops (h m.world.sb.registry rec.shard trusted m.world.env) m
      | none => none
  | _ => some m

end Machine

/-- The complete run of the calls that the host makes, each once the loop of the last `pump` has ended,
if it is over within `fuel` steps. -/
def play (ops : ShardOps σ ω) (h : Handlers σ ω) : Nat → List (Input σ ω) → Machine σ ω → Option (Machine σ ω)
  | 0, _, _ => none
  | fuel + 1, calls, m =>
      match m.stack with
      | [] =>
          match calls with
          | [] => some m
          | call :: calls => if call.isCall then (Machine.step ops call m).bind (play ops h fuel calls) else none
      | [.loop] => ((Machine.step ops .turn m).bind (Machine.attend ops h)).bind (play ops h fuel calls)
      | _ => none

end Zen.Sb
