import Zen.Lib.Ledger
import Zen.Proof.Switchboard.Effects

/-!
# The bus refines the dispatcher

Read through `ledger`, each input of the machine is a step of the abstract dispatcher, or no step at
all. What the gate, the grants and the Shards decide only chooses which step.
-/

namespace Zen.Sb
open Lib BusM

variable {σ ω : Type}

/-! ## Delivery -/

def DeliveryOutcome.final (o : DeliveryOutcome) : Option DeliveryOutcome :=
  if o.disposition = .pending then none else some o

/-- Every way in which `deliver_one` ends without a handler being called. -/
structure RefusedTurn (w : World σ ω) (e : Envelope) (w' : World σ ω) : Prop where
  bus : ∃ refusal, w'.sb = { w.sb with journal := w.sb.journal.set e.seq ⟨.refused, refusal⟩ }
  handled : w'.log.handled = w.log.handled
  revived : w'.log.revived = w.log.revived
  dequeued : w'.log.dequeued = w.log.dequeued
  decided : w'.log.decided = w.log.decided ++ [e.seq]

structure CalledTurn (w : World σ ω) (e : Envelope) (trusted : Message) (w' : World σ ω) : Prop where
  bus : w'.sb = w.sb
  handled : w'.log.handled = w.log.handled ++ [(e.target, trusted)]
  revived : w'.log.revived = w.log.revived
  dequeued : w'.log.dequeued = w.log.dequeued
  decided : w'.log.decided = w.log.decided
  trusted : trusted = e.msg
  routed : ∃ rec door, w.sb.find e.target = some rec ∧ rec.alive = true ∧
    acceptMatch rec e.msg.name e.msg.version = some door ∧
    admitLive e.msg.payload door .firstError = .accept e.msg.payload
  authorized : e.gated = true → w.sb.permitted e = true

theorem RefusedTurn.shards {w w' : World σ ω} {e : Envelope} (h : RefusedTurn w e w') :
    w'.sb.shards = w.sb.shards ∧ w'.sb.nextShardId = w.sb.nextShardId := by
  obtain ⟨refusal, bus⟩ := h.bus
  rw [bus]
  exact ⟨rfl, rfl⟩

theorem CalledTurn.shards {w w' : World σ ω} {e : Envelope} {trusted : Message}
    (h : CalledTurn w e trusted w') :
    w'.sb.shards = w.sb.shards ∧ w'.sb.nextShardId = w.sb.nextShardId := by
  rw [h.bus]
  exact ⟨rfl, rfl⟩

theorem acceptMatch_eq_some {rec : ShardRecord σ} {name : ByteString} {version : UInt32} {door : Schema}
    (h : acceptMatch rec name version = some door) :
    door ∈ rec.accept ∧ door.name = name ∧ door.version = version := by
  refine ⟨List.mem_of_find?_eq_some h, ?_⟩
  simpa using List.find?_some h

theorem refuse_turn (w : World σ ω) (e : Envelope) (refusal : Refusal) :
    RefusedTurn w e (w.refuse e refusal) :=
  ⟨⟨refusal, rfl⟩, rfl, rfl, rfl, rfl⟩

theorem deliverOne_spec (w : World σ ω) (e : Envelope) :
    (RefusedTurn w e (w.deliverOne e).1 ∧ (w.deliverOne e).2 = none) ∨
    ∃ trusted, (w.deliverOne e).2 = some trusted ∧ CalledTurn w e trusted (w.deliverOne e).1 := by
  unfold World.deliverOne
  cases found : w.sb.find e.target with
  | none => exact Or.inl ⟨refuse_turn w e _, rfl⟩
  | some rec =>
      simp only
      split
      · exact Or.inl ⟨refuse_turn w e _, rfl⟩
      · rename_i alive
        split
        · exact Or.inl ⟨refuse_turn w e _, rfl⟩
        · rename_i authorized
          cases matched : acceptMatch rec e.msg.name e.msg.version with
          | none => exact Or.inl ⟨refuse_turn w e _, rfl⟩
          | some door =>
              simp only
              cases verdict : admitLive e.msg.payload door .firstError with
              | reject errors => exact Or.inl ⟨⟨⟨_, rfl⟩, rfl, rfl, rfl, rfl⟩, rfl⟩
              | accept payload =>
                  obtain ⟨_, rfl⟩ := Proof.admitLive_accept.mp verdict
                  refine Or.inr ⟨_, rfl, rfl, rfl, rfl, rfl, rfl, rfl, ?_, ?_⟩
                  · exact ⟨rec, door, found, by simpa using alive, matched, verdict⟩
                  · intro gated
                    simpa [gated] using authorized

/-! ## The ledger of a machine -/

def Frame.ticket : Frame → Option Nat
  | loop => none
  | handler e _ => some e.seq

def Mail.ledger (mail : Mail) (stack : List Frame) : Ledger DeliveryOutcome where
  waiting := mail.queue.map Envelope.seq
  journal := mail.journal.map DeliveryOutcome.final
  dispatching := mail.inDispatch
  stack := stack.map Frame.ticket
  dequeued := mail.dequeued
  decided := mail.decided

def Machine.ledger (m : Machine σ ω) : Ledger DeliveryOutcome := m.world.mail.ledger m.stack

/-- One slot of the journal and one origin for each number issued; slot 0 is unused. -/
structure Numbered (m : Machine σ ω) : Prop where
  slots : m.world.sb.nextSeq = m.world.sb.journal.length
  origins : m.world.sb.nextSeq = m.origins.length + 1

def Machine.Quiet (m m' : Machine σ ω) : Prop := m'.world.mail = m.world.mail ∧ m'.stack = m.stack

theorem Machine.Quiet.ledger {m m' : Machine σ ω} (h : m.Quiet m') : m'.ledger = m.ledger := by
  rw [Machine.ledger, Machine.ledger, h.1, h.2]

theorem Machine.Quiet.numbered {m m' : Machine σ ω} (h : m.Quiet m') (origins : m'.origins = m.origins)
    (numbered : Numbered m) : Numbered m' := by
  have nextSeq : m'.world.sb.nextSeq = m.world.sb.nextSeq := congrArg Mail.nextSeq h.1
  have journal : m'.world.sb.journal = m.world.sb.journal := congrArg Mail.journal h.1
  exact ⟨by rw [nextSeq, journal, numbered.slots], by rw [nextSeq, origins, numbered.origins]⟩

/-! ## What an input does -/

inductive Turned (m : Machine σ ω) (frames : List Frame) : Machine σ ω → Prop where
  | ended : Turned m frames { m.withBus { m.world.sb with inDispatch := false } with stack := frames }
  | refused (e : Envelope) (queue : List Envelope) (w : World σ ω) (front : m.world.sb.queue = e :: queue)
      (refusal : RefusedTurn (m.popped e queue) e w) : Turned m frames { m with world := w }
  | called (e : Envelope) (queue : List Envelope) (trusted : Message) (w : World σ ω)
      (front : m.world.sb.queue = e :: queue) (call : CalledTurn (m.popped e queue) e trusted w) :
      Turned m frames { m with world := w, stack := .handler e trusted :: m.stack }

inductive Effect (m m' : Machine σ ω) : Prop where
  | quiet (h : m.Quiet m') (origins : m'.origins = m.origins)
  | enqueued (es : List Envelope) (origin : Option ShardId)
      (numbers : es.map Envelope.seq = List.range' m.world.sb.nextSeq es.length)
      (stamped : ∀ e ∈ es, origin = if e.gated then some e.msg.sender else none)
      (h : m' = m.enqueued (m.world.sb.appended es) origin)
  | began (idle : m.world.sb.inDispatch = false)
      (h : m' = { m.withBus { m.world.sb with inDispatch := true, stopRequested := false } with
        stack := .loop :: m.stack })
  | turned (frames : List Frame) (top : m.stack = .loop :: frames) (h : Turned m frames m')
  | returned (e : Envelope) (trusted : Message) (frames : List Frame)
      (top : m.stack = .handler e trusted :: frames)
      (h : m' = { m with world := m.world.delivered e trusted, stack := frames })

structure Threw (e : Envelope) (m m' : Machine σ ω) : Prop where
  top : ∃ trusted, m.stack = .handler e trusted :: .loop :: m'.stack
  state : m' = { m with stack := m'.stack }

-- the Shard that an input brings to the bus
def Input.joining : Input σ ω → Option σ
  | .registerShard incoming _ => incoming
  | _ => none

-- the Shard that an input asks to bring back
def Input.revives : Input σ ω → Option ShardId
  | .reload id _ | .swapState id _ => some id
  | _ => none

/-- What an input does, by the operation behind it. -/
inductive Acted (ops : ShardOps σ ω) (input : Input σ ω) (m m' : Machine σ ω) : Prop where
  | registered (grant : Grant) (id : ShardId) (w : World σ ω)
      (h : Registered ops m.world input.joining grant (.ok id) w)
      (state : m' = { m with world := w, registered := m.registered ++ [(id, grant)] })
  | unregistrable (grant : Grant) (e : Exn) (w : World σ ω)
      (h : Registered ops m.world input.joining grant (.error e) w) (state : m' = { m with world := w })
  | unregistered (id : ShardId) (state : m' = m.withBus (m.world.sb.unregisterShard id).1)
  | enqueued (es : List Envelope) (origin : Option ShardId)
      (numbers : es.map Envelope.seq = List.range' m.world.sb.nextSeq es.length)
      (stamped : ∀ e ∈ es, origin = if e.gated then some e.msg.sender else none)
      (state : m' = m.enqueued (m.world.sb.appended es) origin)
  | killed (id : ShardId) (state : m' = { m with world := m.world.kill id })
  | reloaded (id : ShardId) (bytes : ByteString) (r : Except Exn ReviveOutcome) (w : World σ ω)
      (h : Reloaded id bytes m.world r w) (state : m' = { m with world := w })
      (target : input.revives = some id)
  | aside (stop : Bool) (env : ω)
      (state : m' = { m with world := { m.world with sb := { m.world.sb with stopRequested := stop }, env } })
  | began (idle : m.world.sb.inDispatch = false)
      (state : m' = { m.withBus { m.world.sb with inDispatch := true, stopRequested := false } with
        stack := .loop :: m.stack })
  | turned (frames : List Frame) (top : m.stack = .loop :: frames) (h : Turned m frames m')
  | returned (e : Envelope) (trusted : Message) (frames : List Frame)
      (top : m.stack = .handler e trusted :: frames)
      (state : m' = { m with world := m.world.delivered e trusted, stack := frames })
  | threw (throws : input.throws = true) (e : Envelope) (h : Threw e m m')

theorem directed_acted (ops : ShardOps σ ω) (input : Input σ ω) (m : Machine σ ω) (target : ShardId)
    (msg : Message) (gated : Bool) {origin : Option ShardId}
    (stamped : origin = if gated then some msg.sender else none) :
    Acted ops input m (m.enqueued (m.world.sb.enqueueDirected target msg gated) origin) := by
  refine .enqueued [⟨msg, target, m.world.sb.nextSeq, gated⟩] origin rfl ?_ rfl
  intro e he
  rw [List.mem_singleton.mp he]
  exact stamped

theorem fanout_acted (ops : ShardOps σ ω) (input : Input σ ω) (m : Machine σ ω) (msg : Message)
    (gated : Bool) {origin : Option ShardId} (stamped : origin = if gated then some msg.sender else none) :
    Acted ops input m (m.enqueued (m.world.sb.fanout msg gated).1 origin) := by
  rw [fanout_eq]
  refine .enqueued _ origin ?_ ?_ rfl
  · rw [addressed_seqs, addressed, List.length_map, List.length_zipIdx]
  · intro e he
    obtain ⟨message, gate⟩ := mem_addressed he
    rw [message, gate]
    exact stamped

theorem reloaded_acted {ops : ShardOps σ ω} {input : Input σ ω} {m : Machine σ ω} {id : ShardId}
    {bytes : ByteString} {x : BusM σ ω ReviveOutcome} (spec : wp x m.world (Reloaded id bytes m.world))
    (target : input.revives = some id) : Acted ops input m (m.ended (x.run m.world)) := by
  cases run : x.run m.world with
  | ok out w => exact .reloaded id bytes (.ok out) w (wp_ok spec run) rfl target
  | error e w => exact .reloaded id bytes (.error e) w (wp_error spec run) rfl target

theorem turn_turned (m : Machine σ ω) (frames : List Frame) : Turned m frames (m.turn frames) := by
  unfold Machine.turn
  cases front : m.world.sb.queue with
  | nil => exact .ended
  | cons e queue =>
      simp only
      split
      · exact .ended
      · rcases deliverOne_spec (m.popped e queue) e with ⟨turn, none⟩ | ⟨trusted, some, turn⟩
        · generalize (m.popped e queue).deliverOne e = result at *
          obtain ⟨w, trusted⟩ := result
          subst none
          exact .refused e queue w front turn
        · generalize (m.popped e queue).deliverOne e = result at *
          obtain ⟨w, trusted'⟩ := result
          subst some
          exact .called e queue trusted w front turn

theorem kill_mail (w : World σ ω) (id : ShardId) : (w.kill id).mail = w.mail := by
  unfold World.kill
  cases w.sb.find id <;> rfl

theorem unregisterShard_mail (m : Machine σ ω) (id : ShardId) :
    (m.withBus (m.world.sb.unregisterShard id).1).world.mail = m.world.mail := by
  unfold Switchboard.unregisterShard
  cases m.world.sb.find id <;> rfl

theorem ended_world {α : Type} (m : Machine σ ω) (r : EStateM.Result Exn (World σ ω) α) :
    (m.ended r).world = leaves r := by
  cases r <;> rfl

theorem step_registers {ops : ShardOps σ ω} {incoming : Option σ} {grant : Grant} {m m' : Machine σ ω}
    (action : Machine.step ops (.registerShard incoming grant) m = some m') :
    m'.world = leaves ((registerShard ops incoming grant).run m.world) := by
  rw [Machine.step] at action
  cases run : (registerShard ops incoming grant).run m.world with
  | ok id w =>
      rw [run] at action
      cases action
      rfl
  | error e w =>
      rw [run] at action
      cases action
      rfl

theorem step_acted {ops : ShardOps σ ω} {input : Input σ ω} {m m' : Machine σ ω}
    (action : Machine.step ops input m = some m') : Acted ops input m m' := by
  cases input with
  | registerShard incoming grant =>
      have spec := registerShard_spec ops incoming grant m.world
      rw [Machine.step] at action
      cases run : (registerShard ops incoming grant).run m.world with
      | ok id w =>
          rw [run] at action
          cases action
          exact .registered grant id w (wp_ok spec run) rfl
      | error e w =>
          rw [run] at action
          cases action
          exact .unregistrable grant e w (wp_error spec run) rfl
  | unregisterShard id =>
      cases action
      exact .unregistered id rfl
  | send target msg =>
      cases action
      exact directed_acted ops _ m target msg false rfl
  | publish msg =>
      cases action
      exact fanout_acted ops _ m msg false rfl
  | sendAs asSender target msg =>
      cases action
      exact directed_acted ops _ m target { msg with sender := asSender } true rfl
  | publishAs asSender msg =>
      cases action
      exact fanout_acted ops _ m { msg with sender := asSender } true rfl
  | kill id =>
      cases action
      exact .killed id rfl
  | reload id candidateBytes =>
      cases action
      exact reloaded_acted (reload_spec ops id candidateBytes m.world) rfl
  | swapState id candidateBytes =>
      cases action
      exact reloaded_acted (wp_mono (swapState_spec ops id candidateBytes m.world) fun _ _ h => h.reloaded) rfl
  | stop =>
      cases action
      exact .aside true m.world.env rfl
  | pump =>
      cases action
      unfold Machine.pump
      split
      · exact .aside m.world.sb.stopRequested m.world.env rfl
      · rename_i idle
        exact .began (by simpa using idle) rfl
  | turn =>
      rw [Machine.step] at action
      split at action
      · rename_i frames top
        cases action
        exact .turned frames top (turn_turned m frames)
      · cases action
  | handlerSends target msg =>
      rw [Machine.step] at action
      split at action
      · rename_i e trusted frames top
        cases action
        exact directed_acted ops _ m target { msg with sender := e.target } true rfl
      · cases action
  | handlerPublishes msg =>
      rw [Machine.step] at action
      split at action
      · rename_i e trusted frames top
        cases action
        exact fanout_acted ops _ m { msg with sender := e.target } true rfl
      · cases action
  | handlerReturns =>
      rw [Machine.step] at action
      split at action
      · rename_i e trusted frames top
        cases action
        exact .returned e trusted frames top rfl
      · cases action
  | handlerThrows =>
      rw [Machine.step] at action
      split at action
      · rename_i e trusted frames top
        cases action
        exact .threw rfl e ⟨⟨trusted, top⟩, rfl⟩
      · cases action
  | outside change =>
      cases action
      exact .aside m.world.sb.stopRequested (change m.world.env) rfl

theorem step_effect {ops : ShardOps σ ω} {input : Input σ ω} {m m' : Machine σ ω}
    (action : Machine.step ops input m = some m') :
    Effect m m' ∨ (∃ e, Threw e m m') ∧ input.throws = true := by
  cases step_acted action with
  | registered grant id w h state =>
      subst state
      exact Or.inl (.quiet ⟨h.1, rfl⟩ rfl)
  | unregistrable grant e w h state =>
      subst state
      exact Or.inl (.quiet ⟨h.1, rfl⟩ rfl)
  | unregistered id state =>
      subst state
      exact Or.inl (.quiet ⟨unregisterShard_mail m id, rfl⟩ rfl)
  | enqueued es origin numbers stamped state => exact Or.inl (.enqueued es origin numbers stamped state)
  | killed id state =>
      subst state
      exact Or.inl (.quiet ⟨kill_mail m.world id, rfl⟩ rfl)
  | reloaded id bytes r w h state =>
      subst state
      exact Or.inl (.quiet ⟨h.1, rfl⟩ rfl)
  | aside stop env state =>
      subst state
      exact Or.inl (.quiet ⟨rfl, rfl⟩ rfl)
  | began idle state => exact Or.inl (.began idle state)
  | turned frames top h => exact Or.inl (.turned frames top h)
  | returned e trusted frames top state => exact Or.inl (.returned e trusted frames top state)
  | threw throws e h => exact Or.inr ⟨⟨e, h⟩, throws⟩

/-! ## Refinement -/

theorem appended_ledger {m : Machine σ ω} (numbered : Numbered m) {es : List Envelope}
    (numbers : es.map Envelope.seq = List.range' m.world.sb.nextSeq es.length)
    (origin : Option ShardId) : Ledger.Step m.ledger (m.enqueued (m.world.sb.appended es) origin).ledger := by
  have issued := Ledger.Step.issue m.ledger es.length
  have size : m.ledger.journal.length = m.world.sb.nextSeq := by
    rw [numbered.slots]
    exact List.length_map _
  rw [size, ← numbers] at issued
  convert issued using 1
  simp [Machine.ledger, Mail.ledger, Machine.enqueued, Machine.withBus, World.mail, Switchboard.appended,
    DeliveryOutcome.final]

theorem Turned.refines {m m' : Machine σ ω} {frames : List Frame} (h : Turned m frames m')
    (numbered : Numbered m) (looping : m.ledger.stack = none :: frames.map Frame.ticket) :
    Numbered m' ∧ Ledger.Step m.ledger m'.ledger := by
  cases h with
  | ended => exact ⟨⟨numbered.slots, numbered.origins⟩, .finish m.ledger looping⟩
  | refused e queue w front turn =>
      obtain ⟨refusal, bus⟩ := turn.bus
      have waiting : m.ledger.waiting = e.seq :: queue.map Envelope.seq := by
        simp [Machine.ledger, Mail.ledger, World.mail, front]
      refine ⟨⟨?_, ?_⟩, ?_⟩
      · simpa [bus, Machine.popped] using numbered.slots
      · simpa [bus, Machine.popped] using numbered.origins
      · convert Ledger.Step.refuse m.ledger ⟨.refused, refusal⟩ looping waiting using 1
        simp [Machine.ledger, Mail.ledger, World.mail, bus, turn.dequeued, turn.decided, Machine.popped,
          List.map_set, DeliveryOutcome.final]
  | called e queue trusted w front turn =>
      have waiting : m.ledger.waiting = e.seq :: queue.map Envelope.seq := by
        simp [Machine.ledger, Mail.ledger, World.mail, front]
      refine ⟨⟨?_, ?_⟩, ?_⟩
      · simpa [turn.bus, Machine.popped] using numbered.slots
      · simpa [turn.bus, Machine.popped] using numbered.origins
      · convert Ledger.Step.call m.ledger looping waiting using 1
        simp [Machine.ledger, Mail.ledger, World.mail, turn.bus, turn.dequeued, turn.decided,
          Machine.popped, Frame.ticket]

theorem Effect.refines {m m' : Machine σ ω} (numbered : Numbered m) (h : Effect m m') :
    Numbered m' ∧ (m'.ledger = m.ledger ∨ Ledger.Step m.ledger m'.ledger) := by
  cases h with
  | quiet h origins => exact ⟨h.numbered origins numbered, Or.inl h.ledger⟩
  | enqueued es origin numbers stamped h =>
      subst h
      refine ⟨?_, Or.inr (appended_ledger numbered numbers origin)⟩
      have slots := numbered.slots
      have origins := numbered.origins
      constructor <;> simp [Machine.enqueued, Machine.withBus, Switchboard.appended] <;> omega
  | began idle h =>
      subst h
      exact ⟨⟨numbered.slots, numbered.origins⟩, Or.inr (.start m.ledger idle)⟩
  | turned frames top h =>
      have looping : m.ledger.stack = none :: frames.map Frame.ticket := by
        simp [Machine.ledger, Mail.ledger, top, Frame.ticket]
      obtain ⟨numbered', step⟩ := h.refines numbered looping
      exact ⟨numbered', Or.inr step⟩
  | returned e trusted frames top h =>
      subst h
      have handling : m.ledger.stack = some e.seq :: frames.map Frame.ticket := by
        simp [Machine.ledger, Mail.ledger, top, Frame.ticket]
      refine ⟨?_, Or.inr ?_⟩
      · constructor
        · simpa [World.delivered, World.record, World.emit] using numbered.slots
        · exact numbered.origins
      · convert Ledger.Step.complete m.ledger ⟨.delivered, {}⟩ handling using 1
        simp [Machine.ledger, Mail.ledger, World.mail, World.delivered, World.record, World.emit,
          List.map_set, DeliveryOutcome.final]

theorem Threw.refines {e : Envelope} {m m' : Machine σ ω} (numbered : Numbered m) (h : Threw e m m') :
    Numbered m' ∧ Ledger.Throw m.ledger m'.ledger := by
  obtain ⟨⟨trusted, top⟩, state⟩ := h
  have handling : m.ledger.stack = some e.seq :: none :: m'.stack.map Frame.ticket := by
    simp [Machine.ledger, Mail.ledger, top, Frame.ticket]
  have world : m'.world = m.world := by rw [state]
  have origins : m'.origins = m.origins := by rw [state]
  refine ⟨⟨by rw [world, numbered.slots], by rw [world, origins, numbered.origins]⟩, ?_⟩
  · convert Ledger.Throw.throw m.ledger handling using 1
    rw [Machine.ledger, world]
    rfl

theorem step_refines {ops : ShardOps σ ω} {input : Input σ ω} {m m' : Machine σ ω} (numbered : Numbered m)
    (action : Machine.step ops input m = some m') : Numbered m' ∧
      (m'.ledger = m.ledger ∨ Ledger.Step m.ledger m'.ledger ∨
        input.throws = true ∧ Ledger.Throw m.ledger m'.ledger) := by
  rcases step_effect action with effect | ⟨⟨e, threw⟩, throws⟩
  · obtain ⟨numbered', same | step⟩ := effect.refines numbered
    · exact ⟨numbered', Or.inl same⟩
    · exact ⟨numbered', Or.inr (Or.inl step)⟩
  · obtain ⟨numbered', failed⟩ := threw.refines numbered
    exact ⟨numbered', Or.inr (Or.inr ⟨throws, failed⟩)⟩

end Zen.Sb
