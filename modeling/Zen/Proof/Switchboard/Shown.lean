import Zen.Proof.Core.Canon
import Zen.Proof.Switchboard.Effects
import Zen.Switchboard.Machine

/-!
# What a bus shows

`World.shown` forgets which objects stand behind the records and what they keep, and makes NaNs
canonical. Everything the bus does without calling a Shard, it does to what it shows.
-/

namespace Zen.Sb
open Lib

variable {σ ω : Type}

def Message.canon (m : Message) : Message := { m with payload := m.payload.canon }

def Envelope.canon (e : Envelope) : Envelope := { e with msg := e.msg.canon }

def Frame.canon : Frame → Frame
  | loop => loop
  | handler e trusted => handler e.canon trusted.canon

def BusEvent.canon (event : BusEvent) : BusEvent := { event with payload := event.payload.map Value.canon }

def Log.canon (log : Log) : Log where
  events := log.events.map BusEvent.canon
  gated := log.gated.map fun entry => (entry.1.canon, entry.2)
  handled := log.handled.map fun entry => (entry.1, entry.2.canon)
  revived := log.revived.map fun entry => (entry.1, entry.2.1, entry.2.2.canon)
  dequeued := log.dequeued
  decided := log.decided

def ShardRecord.shown (rec : ShardRecord σ) : ShardRecord Unit :=
  { rec with shard := (), lastKnownGood := rec.lastKnownGood.canon }

def Switchboard.shown (sb : Switchboard σ) : Switchboard Unit :=
  { sb with shards := sb.shards.map ShardRecord.shown, queue := sb.queue.map Envelope.canon }

def World.shown (w : World σ ω) : World Unit Unit := { sb := w.sb.shown, env := (), log := w.log.canon }

def Machine.shown (m : Machine σ ω) : Machine Unit Unit :=
  { m with world := m.world.shown, stack := m.stack.map Frame.canon }

@[simp] theorem Message.canon_name (m : Message) : m.canon.name = m.name := by
  simp [Message.name, Message.canon]

@[simp] theorem Message.canon_version (m : Message) : m.canon.version = m.version := by
  simp [Message.version, Message.canon]

/-! ## Records -/

theorem find_shown (sb : Switchboard σ) (id : ShardId) : sb.shown.find id = (sb.find id).map ShardRecord.shown :=
  OrdMap.find_map ..

theorem acceptMatch_shown (rec : ShardRecord σ) (name : ByteString) (version : UInt32) :
    acceptMatch rec.shown name version = acceptMatch rec name version := rfl

theorem unregisterShard_shown (sb : Switchboard σ) (id : ShardId) :
    (sb.unregisterShard id).1.shown = (sb.shown.unregisterShard id).1 := by
  unfold Switchboard.unregisterShard
  rw [find_shown]
  cases sb.find id with
  | none => rfl
  | some rec =>
      simp only [Option.map_some, Switchboard.shown, OrdMap.map_erase]

theorem kill_shown (w : World σ ω) (id : ShardId) : (w.kill id).shown = w.shown.kill id := by
  unfold World.kill
  rw [show w.shown.sb.find id = _ from find_shown w.sb id]
  cases w.sb.find id with
  | none => rfl
  | some rec =>
      have shards := @OrdMap.map_update _ _ ShardRecord.shown (fun r : ShardRecord σ => { r with alive := false })
        (fun r => { r with alive := false }) (fun _ => rfl) w.sb.shards id
      simp only [Option.map_some, World.shown, World.emit, Switchboard.shown, Log.canon, List.map_append, shards]
      rfl

/-! ## Messages -/

theorem enqueued_shown (m : Machine σ ω) (sb : Switchboard σ) (origin : Option ShardId) :
    (m.enqueued sb origin).shown = m.shown.enqueued sb.shown origin := rfl

/-! ## Delivery -/

theorem permitted_shown (sb : Switchboard σ) (e : Envelope) : sb.shown.permitted e.canon = sb.permitted e := by
  unfold Switchboard.permitted
  rw [find_shown]
  simp only [show e.canon.msg.name = e.msg.name from e.msg.canon_name,
    show e.canon.msg.version = e.msg.version from e.msg.canon_version,
    show e.canon.msg.sender = e.msg.sender from rfl]
  cases sb.find e.msg.sender <;> rfl

theorem record_shown (w : World σ ω) (seq : Nat) (disposition : Disposition) (refusal : Refusal) :
    (w.record seq disposition refusal).shown = w.shown.record seq disposition refusal := rfl

theorem emit_shown (w : World σ ω) (event : BusEvent) : (w.emit event).shown = w.shown.emit event.canon := by
  simp [World.emit, World.shown, Log.canon]

theorem deliveryEvent_canon (e : Envelope) (kind : EventKind) :
    World.deliveryEvent e.canon kind = World.deliveryEvent e kind := by
  simp only [World.deliveryEvent, show e.canon.msg.name = e.msg.name from e.msg.canon_name,
    show e.canon.msg.version = e.msg.version from e.msg.canon_version]
  rfl

theorem refuse_shown (w : World σ ω) (e : Envelope) (refusal : Refusal) :
    (w.refuse e refusal).shown = w.shown.refuse e.canon refusal := by
  rw [World.refuse, World.refuse, emit_shown, record_shown, deliveryEvent_canon]
  rfl

theorem delivered_shown (w : World σ ω) (e : Envelope) (trusted : Message) :
    (w.delivered e trusted).shown = w.shown.delivered e.canon trusted.canon := by
  rw [World.delivered, World.delivered, emit_shown, record_shown, deliveryEvent_canon]
  rfl

theorem deliverOne_shown (w : World σ ω) (e : Envelope) :
    ((w.deliverOne e).1.shown, (w.deliverOne e).2.map Message.canon) = w.shown.deliverOne e.canon := by
  unfold World.deliverOne
  rw [show w.shown.sb.find e.canon.target = _ from find_shown w.sb e.target,
    show w.shown.sb.permitted e.canon = _ from permitted_shown w.sb e]
  cases w.sb.find e.target with
  | none => rw [← refuse_shown]; rfl
  | some rec =>
      simp only [Option.map_some, show rec.shown.alive = rec.alive from rfl,
        show e.canon.gated = e.gated from rfl, acceptMatch_shown,
        show e.canon.msg.name = e.msg.name from e.msg.canon_name,
        show e.canon.msg.version = e.msg.version from e.msg.canon_version]
      split
      · rw [← refuse_shown]; rfl
      · split
        · rw [← refuse_shown]; rfl
        · cases acceptMatch rec e.msg.name e.msg.version with
          | none => simp only; rw [← refuse_shown]; rfl
          | some door =>
              simp only [show e.canon.msg.payload = e.msg.payload.canon from rfl, admitLive_canon]
              cases admitLive e.msg.payload door .firstError with
              | reject errors =>
                  simp only [Admission.canon]
                  rw [refuse_shown]
                  simp [World.shown, Log.canon]
              | accept payload =>
                  simp [Admission.canon, World.shown, Log.canon, Message.canon, Envelope.canon]

end Zen.Sb
