import Zen.Switchboard.Machine

/-!
# Handlers as functions

With a `Behaviour` in place of the open choices of a handler, a run of the bus is determined by the
calls of the host: what a handler does is a function of its Shard, the message and the memory, and not
of the tickets and counts that its own calls return.
-/

namespace Zen.Sb
open Lib

variable {σ ω : Type}

def Input.isCall : Input σ ω → Bool
  | turn | handlerReturns | handlerThrows => false
  | _ => true

/-- The calls a handler makes, in order (`outside` where it changes its memory), and how it ends. -/
structure Conduct (σ ω : Type) where
  calls : List (Input σ ω)
  throws : Bool := false
  inside : ∀ call ∈ calls, call.isCall = true

def Conduct.last (c : Conduct σ ω) : Input σ ω := if c.throws then .handlerThrows else .handlerReturns

def Conduct.inputs (c : Conduct σ ω) : List (Input σ ω) := c.calls ++ [c.last]

abbrev Behaviour (σ ω : Type) := ShardId → σ → Message → ω → Conduct σ ω

/-- What happens between a turn of the loop and the next one. -/
def Machine.answers (h : Behaviour σ ω) (m : Machine σ ω) : List (Input σ ω) :=
  match m.stack with
  | .handler e trusted :: _ =>
      match m.world.sb.find e.target with
      | some rec => (h e.target rec.shard trusted m.world.env).inputs
      | none => []
  | _ => []

/-- Who publishes, and how many recipients `publish` says there are. -/
def Input.recipients : Input σ ω → Machine σ ω → List (Option ShardId × Nat)
  | .publish msg, m => [(none, (m.world.sb.publish msg).2)]
  | .publishAs asSender msg, m => [(some asSender, (m.world.sb.publishAs asSender msg).2)]
  | .handlerPublishes msg, m =>
      match m.stack with
      | .handler e _ :: _ => [(some e.target, (m.world.sb.publishAs e.target msg).2)]
      | _ => []
  | _, _ => []

/-- The host makes `calls` one after the other, each once the loop of the last `pump` has ended. -/
inductive Driven (ops : ShardOps σ ω) (h : Behaviour σ ω) :
    Machine σ ω → List (Input σ ω) → List (Option ShardId × Nat) → Machine σ ω → Prop where
  | done (m : Machine σ ω) : Driven ops h m [] [] m
  | host {m mid m' : Machine σ ω} {call : Input σ ω} {calls : List (Input σ ω)}
      {counts : List (Option ShardId × Nat)} (idle : m.stack = []) (isCall : call.isCall = true)
      (action : Machine.step ops call m = some mid) (rest : Driven ops h mid calls counts m') :
      Driven ops h m (call :: calls) (call.recipients m ++ counts) m'
  | turn {m called mid m' : Machine σ ω} {frames : List Frame} {calls : List (Input σ ω)}
      {counts : List (Option ShardId × Nat)} (top : m.stack = .loop :: frames)
      (action : Machine.step ops .turn m = some called)
      (handled : exec (Machine.step ops) (called.answers h) called = some mid)
      (rest : Driven ops h mid calls counts m') :
      Driven ops h m calls (outputs (Machine.step ops) Input.recipients (called.answers h) called ++ counts) m'

/-- The complete run of `calls`, if it ends within `fuel` steps. -/
def drive (ops : ShardOps σ ω) (h : Behaviour σ ω) :
    Nat → List (Input σ ω) → Machine σ ω → Option (List (Option ShardId × Nat) × Machine σ ω)
  | 0, _, _ => none
  | fuel + 1, calls, m =>
      match m.stack with
      | [] =>
          match calls with
          | [] => some ([], m)
          | call :: calls =>
              if call.isCall then
                (Machine.step ops call m).bind fun mid =>
                  (drive ops h fuel calls mid).map fun (counts, last) => (call.recipients m ++ counts, last)
              else none
      | .loop :: _ =>
          (Machine.step ops .turn m).bind fun called =>
            (exec (Machine.step ops) (called.answers h) called).bind fun mid =>
              (drive ops h fuel calls mid).map fun (counts, last) =>
                (outputs (Machine.step ops) Input.recipients (called.answers h) called ++ counts, last)
      | _ => none

end Zen.Sb
