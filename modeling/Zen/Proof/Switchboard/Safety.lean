import Zen.Proof.Switchboard.Fifo

/-!
# What a handler is called with

A message is checked when it is delivered, long after it was sent. What was known when it was sent is
kept by the queue: the number of each envelope in it leads to the Shard it was sent as.
-/

namespace Zen.Sb
open Lib BusM

variable {σ ω : Type}

/-! ## The queue -/

def Stamped (m : Machine σ ω) (e : Envelope) : Prop :=
  1 ≤ e.seq ∧ m.origins[e.seq - 1]? = some (if e.gated then some e.msg.sender else none)

def QueueStamped (m : Machine σ ω) : Prop := ∀ e ∈ m.world.sb.queue, Stamped m e

theorem Stamped.sentBy {m : Machine σ ω} {e : Envelope} (h : Stamped m e) :
    m.sentBy e.seq = if e.gated then some e.msg.sender else none := by
  rw [Machine.sentBy, h.2]
  rfl

theorem Stamped.gated {m : Machine σ ω} {e : Envelope} (h : Stamped m e) {a : ShardId}
    (sent : m.sentBy e.seq = some a) : e.gated = true ∧ e.msg.sender = a := by
  rw [h.sentBy] at sent
  split at sent
  · rename_i gated
    exact ⟨gated, Option.some.inj sent⟩
  · cases sent

theorem Stamped.append {m m' : Machine σ ω} {e : Envelope} (h : Stamped m e)
    {origins : List (Option ShardId)} (grown : m'.origins = m.origins ++ origins) : Stamped m' e := by
  have inside := (List.getElem?_eq_some_iff.mp h.2).1
  refine ⟨h.1, ?_⟩
  rw [grown, List.getElem?_append_left inside]
  exact h.2

theorem QueueStamped.kept {m m' : Machine σ ω} (h : QueueStamped m)
    (queue : ∀ e ∈ m'.world.sb.queue, e ∈ m.world.sb.queue) (origins : m'.origins = m.origins) :
    QueueStamped m' := by
  intro e he
  exact (h e (queue e he)).append (by rw [origins, List.append_nil])

theorem QueueStamped.appended {m : Machine σ ω} (h : QueueStamped m) (numbered : Numbered m)
    {es : List Envelope} {origin : Option ShardId}
    (numbers : es.map Envelope.seq = List.range' m.world.sb.nextSeq es.length)
    (stamped : ∀ e ∈ es, origin = if e.gated then some e.msg.sender else none) :
    QueueStamped (m.enqueued (m.world.sb.appended es) origin) := by
  have origins : (m.enqueued (m.world.sb.appended es) origin).origins =
      m.origins ++ List.replicate es.length origin := by
    simp [Machine.enqueued, Switchboard.appended]
  intro e he
  rcases List.mem_append.mp he with old | new
  · exact (h e old).append origins
  · have listed : e.seq ∈ es.map Envelope.seq := List.mem_map_of_mem new
    rw [numbers, List.mem_range'_1, numbered.origins] at listed
    refine ⟨by omega, ?_⟩
    rw [origins, List.getElem?_append_right (by omega), List.getElem?_replicate, if_pos (by omega),
      stamped e new]

theorem Turned.stamped {m m' : Machine σ ω} {frames : List Frame} (turned : Turned m frames m')
    (h : QueueStamped m) : QueueStamped m' := by
  cases turned with
  | ended => exact h.kept (fun e he => he) rfl
  | refused e queue w front turn =>
      obtain ⟨refusal, bus⟩ := turn.bus
      have rest : w.sb.queue = queue := by rw [bus]; rfl
      exact h.kept (fun e' he => front ▸ List.mem_cons_of_mem e (rest ▸ he)) rfl
  | called e queue trusted w front turn =>
      have rest : w.sb.queue = queue := by rw [turn.bus]; rfl
      exact h.kept (fun e' he => front ▸ List.mem_cons_of_mem e (rest ▸ he)) rfl

theorem Effect.stamped {m m' : Machine σ ω} (effect : Effect m m') (numbered : Numbered m)
    (h : QueueStamped m) : QueueStamped m' := by
  cases effect with
  | quiet quiet origins =>
      have queue : m'.world.sb.queue = m.world.sb.queue := congrArg Mail.queue quiet.1
      exact h.kept (fun e he => queue ▸ he) origins
  | enqueued es origin numbers stamped state =>
      subst state
      exact h.appended numbered numbers stamped
  | began idle state | returned e trusted frames top state =>
      subst state
      exact h.kept (fun e he => he) rfl
  | turned frames top turned => exact turned.stamped h

theorem queue_stamped {ops : ShardOps σ ω} {env : ω} {inputs : List (Input σ ω)} {m : Machine σ ω}
    (run : Reaches ops (.start env) inputs m) : QueueStamped m := by
  refine (run.invariant (I := fun m => Numbered m ∧ QueueStamped m) ?_ ⟨⟨rfl, rfl⟩, ?_⟩).2
  · rintro input m m' ⟨numbered, stamped⟩ action
    refine ⟨(step_refines numbered action).1, ?_⟩
    rcases step_effect action with effect | ⟨⟨e, threw⟩, _⟩
    · exact effect.stamped numbered stamped
    · rw [threw.state]
      exact stamped.kept (fun e he => he) rfl
  · intro e he
    cases he

/-! ## The calls of a run -/

theorem step_handled {ops : ShardOps σ ω} {input : Input σ ω} {m m' : Machine σ ω}
    (action : Machine.step ops input m = some m') :
    m'.world.log.handled = m.world.log.handled ∨
    ∃ e queue trusted w, m.world.sb.queue = e :: queue ∧ CalledTurn (m.popped e queue) e trusted w ∧
      m'.world.log.handled = m.world.log.handled ++ [(e.target, e.msg)] := by
  rcases step_effect action with effect | ⟨⟨e, threw⟩, _⟩
  · cases effect with
    | quiet quiet origins => exact Or.inl (congrArg Mail.handled quiet.1)
    | enqueued es origin numbers stamped state | began idle state
    | returned e trusted frames top state =>
        subst state
        exact Or.inl rfl
    | turned frames top turned =>
        cases turned with
        | ended => exact Or.inl rfl
        | refused e queue w front turn => exact Or.inl turn.handled
        | called e queue trusted w front turn =>
            refine Or.inr ⟨e, queue, trusted, w, front, turn, ?_⟩
            rw [← turn.trusted]
            exact turn.handled
  · rw [threw.state]
    exact Or.inl rfl

theorem permitted_eq_true {sb : Switchboard σ} {e : Envelope} : sb.permitted e = true ↔
    ∃ sender, sb.find e.msg.sender = some sender ∧
      sender.grant.permits e.msg.name e.msg.version e.target = true := by
  unfold Switchboard.permitted
  cases sb.find e.msg.sender <;> simp

/-- The message numbered `seq` was sent as some Shard, and this Shard may send it. -/
def AuthorizedBy (m : Machine σ ω) (seq : Nat) (target : ShardId) (msg : Message) : Prop :=
  ∀ a, m.sentBy seq = some a → msg.sender = a ∧ (m.world.sb.find a).isSome = true ∧
    ∃ grant, (a, grant) ∈ m.registered ∧ grant.permits msg.name msg.version target = true

structure SafeCall (m : Machine σ ω) (target : ShardId) (msg : Message) : Prop where
  door : ∃ rec, m.world.sb.find target = some rec ∧ rec.id = target ∧ rec.alive = true ∧
    ∃ door ∈ rec.accept, door.name = msg.name ∧ door.version = msg.version ∧ Accepted door msg.payload
  sent : ∃ e queue, m.world.sb.queue = e :: queue ∧ e.target = target ∧ e.msg = msg ∧
    AuthorizedBy m e.seq target msg

theorem CalledTurn.safe {m : Machine σ ω} {e : Envelope} {queue : List Envelope} {trusted : Message}
    {w : World σ ω} (turn : CalledTurn (m.popped e queue) e trusted w) (ok : RecordsOk m)
    (stamped : Stamped m e) (front : m.world.sb.queue = e :: queue) : SafeCall m e.target e.msg := by
  obtain ⟨rec, door, found, alive, matched, admitted⟩ := turn.routed
  obtain ⟨listed, name, version⟩ := acceptMatch_eq_some matched
  refine ⟨⟨rec, found, ok.keyed _ rec found, alive, door, listed, name, version,
    accepted_of_live admitted⟩, e, queue, front, rfl, rfl, ?_⟩
  intro a sent
  obtain ⟨gated, rfl⟩ := stamped.gated sent
  obtain ⟨sender, known, permits⟩ := permitted_eq_true.mp (turn.authorized gated)
  have before : m.world.sb.find e.msg.sender = some sender := known
  exact ⟨rfl, by rw [before]; rfl, sender.grant, ok.granted _ sender before, permits⟩

theorem deliverOne_denied {w : World σ ω} {e : Envelope} (gated : e.gated = true)
    (denied : w.sb.permitted e = false) : (w.deliverOne e).1.log.gated = w.log.gated := by
  unfold World.deliverOne
  cases w.sb.find e.target with
  | none => rfl
  | some rec =>
      simp only [gated, denied]
      split <;> rfl

theorem turn_denied {m : Machine σ ω} {frames : List Frame} {e : Envelope} {queue : List Envelope}
    (front : m.world.sb.queue = e :: queue) (gated : e.gated = true)
    (denied : m.world.sb.permitted e = false) :
    (m.turn frames).world.log.gated = m.world.log.gated := by
  have same : ((m.popped e queue).deliverOne e).1.log.gated = m.world.log.gated :=
    deliverOne_denied gated denied
  unfold Machine.turn
  rw [front]
  simp only
  split
  · rfl
  · rw [← same]
    split <;> rename_i result <;> rw [result]

theorem bus_safety {ops : ShardOps σ ω} {env : ω} {inputs : List (Input σ ω)} {input : Input σ ω}
    {m m' : Machine σ ω} (run : Reaches ops (.start env) inputs m)
    (action : Machine.step ops input m = some m') :
    (m'.world.log.handled = m.world.log.handled ∨ ∃ target msg,
      m'.world.log.handled = m.world.log.handled ++ [(target, msg)] ∧ SafeCall m target msg) ∧
    (m.registered.map Prod.fst).Nodup ∧
    ∀ e queue a, input = .turn → m.world.sb.queue = e :: queue → m.sentBy e.seq = some a →
      ¬ AuthorizedBy m e.seq e.target e.msg → m'.world.log.gated = m.world.log.gated := by
  have ok := records_ok run
  have stamped := queue_stamped run
  refine ⟨?_, ok.unique, ?_⟩
  · rcases step_handled action with same | ⟨e, queue, trusted, w, front, turn, grown⟩
    · exact Or.inl same
    · exact Or.inr ⟨e.target, e.msg, grown, turn.safe ok (stamped e (by simp [front])) front⟩
  · intro e queue a turns front sent refused
    subst turns
    obtain ⟨gated, rfl⟩ := (stamped e (by simp [front])).gated sent
    have denied : m.world.sb.permitted e = false := by
      by_contra allowed
      obtain ⟨sender, known, permits⟩ := permitted_eq_true.mp (Bool.eq_true_of_not_eq_false allowed)
      apply refused
      intro a sent'
      rw [sent] at sent'
      cases sent'
      exact ⟨rfl, by rw [known]; rfl, sender.grant, ok.granted _ sender known, permits⟩
    rw [Machine.step] at action
    split at action
    · cases action
      exact turn_denied front gated denied
    · cases action

-- the first Shard is allowed to send anything to anyone
def pingSend : List (Input Unit Unit) :=
  [.registerShard (some ()) anyone, .registerShard (some ()) {}, .sendAs 1 2 ⟨pingValue 1, 0, 0, 0⟩, .pump]

theorem bus_safety_ping : ∃ m m' msg, Reaches pingOps (.start ()) pingSend m ∧
    Machine.step pingOps .turn m = some m' ∧ m'.world.log.handled = [(2, msg)] ∧ m.sentBy 1 = some 1 ∧
    SafeCall m 2 msg := by
  have evaluated : ((exec (Machine.step pingOps) pingSend (.start ())).bind fun m =>
      (Machine.step pingOps .turn m).map fun m' =>
        (m.world.log.handled.length, m'.world.log.handled.map Prod.fst, m.sentBy 1)) =
          some (0, [2], some 1) := by
    decide +kernel
  obtain ⟨m, reached, turned⟩ := Option.bind_eq_some_iff.mp evaluated
  obtain ⟨m', action, seen⟩ := Option.map_eq_some_iff.mp turned
  simp only [Prod.mk.injEq, List.length_eq_zero_iff] at seen
  obtain ⟨before, after, sent⟩ := seen
  have run := Run.of_exec reached
  rcases (bus_safety run action).1 with same | ⟨target, msg, grown, safe⟩
  · rw [same, before] at after
    cases after
  · rw [before, List.nil_append] at grown
    rw [grown] at after
    cases after
    exact ⟨m, m', msg, run, action, grown, sent, safe⟩

end Zen.Sb
