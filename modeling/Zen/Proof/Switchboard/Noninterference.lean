import Zen.Proof.Switchboard.Conduct

/-!
# What a Shard without a grant can do to the others

Nothing: whatever it sends is refused. Of two runs that differ only in what it sends, each can follow
the other: a turn that refuses one of its messages is matched by no turn at all.
-/

namespace Zen.Sb
open Lib BusM

variable {σ ω : Type} {x : ShardId}

/-! ## Turns -/

/-- `x` is, or was, a Shard without send rules; one `pump` at most is running, and the flag says so. -/
structure Powerless (x : ShardId) (m : Machine σ ω) : Prop where
  ok : RecordsOk m
  known : x < m.world.sb.nextShardId
  ungranted : ∀ rec, m.world.sb.find x = some rec → rec.grant.rules = []
  staged : m.stack = [] ∨ m.world.sb.inDispatch = true ∧
    (m.stack = [.loop] ∨ ∃ e trusted, m.stack = [.handler e trusted, .loop])

theorem Powerless.loop {m : Machine σ ω} (h : Powerless x m) {frames : List Frame}
    (top : m.stack = .loop :: frames) : frames = [] ∧ m.world.sb.inDispatch = true := by
  rcases h.staged with idle | ⟨busy, loop | ⟨e, trusted, handler⟩⟩
  · rw [top] at idle
    cases idle
  · rw [top] at loop
    cases loop
    exact ⟨rfl, busy⟩
  · rw [top] at handler
    cases handler

theorem staged_step {ops : ShardOps σ ω} {input : Input σ ω} {m m' : Machine σ ω} (h : Powerless x m)
    (action : Machine.step ops input m = some m') :
    m'.stack = [] ∨ m'.world.sb.inDispatch = true ∧
      (m'.stack = [.loop] ∨ ∃ e trusted, m'.stack = [.handler e trusted, .loop]) := by
  rcases step_effect action with effect | ⟨⟨e, threw⟩, _⟩
  · cases effect with
    | quiet quiet origins =>
        have inDispatch : m'.world.sb.inDispatch = m.world.sb.inDispatch := congrArg Mail.inDispatch quiet.1
        rw [quiet.2, inDispatch]
        exact h.staged
    | enqueued es origin numbers stamped state =>
        subst state
        exact h.staged
    | began idle state =>
        subst state
        rcases h.staged with empty | ⟨busy, _⟩
        · exact Or.inr ⟨rfl, Or.inl (congrArg (List.cons Frame.loop) empty)⟩
        · rw [idle] at busy
          cases busy
    | turned frames top turned =>
        obtain ⟨rfl, busy⟩ := h.loop top
        cases turned with
        | ended => exact Or.inl rfl
        | refused e queue w front refusal =>
            obtain ⟨refusal, bus⟩ := refusal.bus
            refine Or.inr ⟨?_, Or.inl top⟩
            rw [bus]
            exact busy
        | called e queue trusted w front call =>
            refine Or.inr ⟨?_, Or.inr ⟨e, trusted, congrArg (List.cons _) top⟩⟩
            rw [call.bus]
            exact busy
    | returned e trusted frames top state =>
        subst state
        rcases h.staged with empty | ⟨busy, loop | ⟨e', trusted', handler⟩⟩
        · rw [top] at empty
          cases empty
        · rw [top] at loop
          cases loop
        · rw [top] at handler
          cases handler
          exact Or.inr ⟨busy, Or.inl rfl⟩
  · obtain ⟨trusted, top⟩ := threw.top
    rcases h.staged with empty | ⟨_, loop | ⟨e', trusted', handler⟩⟩
    · rw [top] at empty
      cases empty
    · rw [top] at loop
      cases loop
    · rw [top] at handler
      exact Or.inl (by simpa using congrArg (List.drop 2) handler)

theorem Powerless.step {ops : ShardOps σ ω} {input : Input σ ω} {m m' : Machine σ ω} (h : Powerless x m)
    (action : Machine.step ops input m = some m') : Powerless x m' := by
  have reshaped := step_reshaped action
  refine ⟨reshaped.ok h.ok, ?_, ?_, staged_step h action⟩
  · rcases reshaped.ids with ids | ⟨next, _⟩
    · rw [ids.nextShardId]
      exact h.known
    · rw [next]
      exact Nat.lt_succ_of_lt h.known
  · intro rec' found
    rcases reshaped.origin h.ok.below found with ⟨rec, before, kept, _⟩ | ⟨new, _⟩
    · rw [kept.grant]
      exact h.ungranted rec before
    · exact absurd (new ▸ h.known) (Nat.lt_irrefl _)

theorem Powerless.exec {ops : ShardOps σ ω} {inputs : List (Input σ ω)} {m m' : Machine σ ω}
    (h : Powerless x m) (run : exec (Machine.step ops) inputs m = some m') : Powerless x m' :=
  (Run.of_exec run).invariant (fun _ _ _ before action => before.step action) h

theorem Powerless.unpermitted {m : Machine σ ω} (h : Powerless x m) {e : Envelope} (sent : e.sentBy x = true) :
    e.gated = true ∧ m.world.sb.permitted e = false := by
  simp only [Envelope.sentBy, Bool.and_eq_true, beq_iff_eq] at sent
  refine ⟨sent.1, ?_⟩
  rw [Switchboard.permitted, sent.2]
  cases found : m.world.sb.find x with
  | none => rfl
  | some rec =>
      simp only [Grant.permits, h.ungranted rec found]
      rfl

-- a message of `x` comes to the front: it is refused, and nothing that the view shows has changed
theorem turn_sent {m : Machine σ ω} (h : Powerless x m) {e : Envelope} {queue : List Envelope}
    {frames : List Frame} (front : m.world.sb.queue = e :: queue) (sent : e.sentBy x = true)
    (runs : m.world.sb.stopRequested = false) :
    SameBut x m (m.turn frames) ∧ (m.turn frames).stack = m.stack ∧ (m.turn frames).world.sb.queue = queue := by
  obtain ⟨gated, unpermitted⟩ := h.unpermitted sent
  have refused : ((m.popped e queue).deliverOne e).2 = none ∧ ∃ refusal,
      ((m.popped e queue).deliverOne e).1 = (m.popped e queue).refuse e refusal := by
    have same : (m.popped e queue).sb.permitted e = false := unpermitted
    unfold World.deliverOne
    cases (m.popped e queue).sb.find e.target with
    | none => exact ⟨rfl, _, rfl⟩
    | some rec =>
        simp only [gated, same, Bool.not_false, Bool.and_self, if_true]
        split
        · exact ⟨rfl, _, rfl⟩
        · exact ⟨rfl, _, rfl⟩
  obtain ⟨uncalled, refusal, state⟩ := refused
  have waiting_same : waiting x m.world.sb.queue = waiting x queue := by rw [front, waiting_sent sent]
  have turned : m.turn frames = { m with world := (m.popped e queue).refuse e refusal } := by
    unfold Machine.turn
    rw [front]
    simp only [runs, Bool.false_eq_true, if_false]
    generalize (m.popped e queue).deliverOne e = result at uncalled state
    obtain ⟨w, trusted⟩ := result
    simp only at uncalled state
    subst uncalled state
    rfl
  rw [turned]
  exact ⟨⟨View.ext rfl rfl rfl waiting_same rfl rfl rfl rfl rfl, rfl⟩, rfl, rfl⟩

theorem deliverOne_same {w w' : World σ ω} (h : SameView x w w') {e e' : Envelope}
    (same : e.unnumbered = e'.unnumbered) :
    (w.deliverOne e).2 = (w'.deliverOne e').2 ∧ SameView x (w.deliverOne e).1 (w'.deliverOne e').1 := by
  obtain ⟨msg, target, seq, gated⟩ := e
  obtain ⟨msg', target', seq', gated'⟩ := e'
  simp only [Envelope.unnumbered, Envelope.mk.injEq] at same
  obtain ⟨rfl, rfl, -, rfl⟩ := same
  have permitted : w.sb.permitted ⟨msg, target, seq, gated⟩ = w'.sb.permitted ⟨msg, target, seq', gated⟩ := by
    simp only [Switchboard.permitted, h.find]
  unfold World.deliverOne
  simp only [h.find, permitted]
  cases w'.sb.find target with
  | none => exact ⟨rfl, h⟩
  | some rec =>
      simp only
      split
      · exact ⟨rfl, h⟩
      · split
        · exact ⟨rfl, h⟩
        · split
          · exact ⟨rfl, h⟩
          · split
            · exact ⟨rfl, h⟩
            · rename_i payload _
              refine ⟨rfl, ?_⟩
              exact congrArg (fun v : View σ ω => { v with
                handled := v.handled ++ [(target, Message.mk payload msg.sender msg.replyTo msg.correlation)] }) h

theorem turn_ends {m : Machine σ ω} {frames : List Frame}
    (h : m.world.sb.queue = [] ∨ m.world.sb.stopRequested = true) :
    m.turn frames = { m.withBus { m.world.sb with inDispatch := false } with stack := frames } := by
  unfold Machine.turn
  cases front : m.world.sb.queue with
  | nil => rfl
  | cons e queue =>
      rw [front] at h
      simp only [reduceCtorEq, false_or] at h
      exact if_pos h

theorem turn_ends_same {m m' : Machine σ ω} (h : SameBut x m m')
    (ends : m.world.sb.queue = [] ∨ m.world.sb.stopRequested = true)
    (ends' : m'.world.sb.queue = [] ∨ m'.world.sb.stopRequested = true) : SameBut x (m.turn []) (m'.turn []) := by
  rw [turn_ends ends, turn_ends ends']
  exact ⟨congrArg (fun v : View σ ω => { v with inDispatch := false }) h.world, rfl⟩

theorem turn_kept {m m' : Machine σ ω} (h : SameBut x m m') {e e' : Envelope} {queue queue' : List Envelope}
    (front : m.world.sb.queue = e :: queue) (front' : m'.world.sb.queue = e' :: queue')
    (kept : e.sentBy x = false) (kept' : e'.sentBy x = false) (runs : m.world.sb.stopRequested = false) :
    SameBut x (m.turn []) (m'.turn []) := by
  have runs' : m'.world.sb.stopRequested = false := (congrArg View.stopRequested h.world).symm.trans runs
  have listed : waiting x m.world.sb.queue = waiting x m'.world.sb.queue := congrArg View.waiting h.world
  rw [front, front', waiting_kept kept, waiting_kept kept', List.cons.injEq] at listed
  obtain ⟨same, rest⟩ := listed
  have popped : SameView x (m.popped e queue) (m'.popped e' queue') := by
    have left : (m.popped e queue).view x = { m.world.view x with waiting := waiting x queue } := rfl
    have right : (m'.popped e' queue').view x = { m'.world.view x with waiting := waiting x queue' } := rfl
    rw [SameView, left, right, h.world, rest]
  obtain ⟨trusted, world⟩ := deliverOne_same popped same
  unfold Machine.turn
  rw [front, front']
  simp only [runs, runs', Bool.false_eq_true, if_false]
  generalize (m.popped e queue).deliverOne e = result at trusted world
  generalize (m'.popped e' queue').deliverOne e' = result' at trusted world
  obtain ⟨w, called⟩ := result
  obtain ⟨w', called'⟩ := result'
  simp only at trusted world
  subst trusted
  cases called with
  | none => exact ⟨world, h.stack⟩
  | some trusted =>
      refine ⟨world, ?_⟩
      simp only [List.map_cons, h.stack]
      congr 1
      exact congrArg (fun e => Frame.handler e trusted) same

/-! ## Runs -/

theorem turn_step {ops : ShardOps σ ω} {m : Machine σ ω} (top : m.stack = [.loop]) :
    Machine.step ops .turn m = some (m.turn []) := by
  rw [Machine.step, top]

/-- All that is at the front of the queue and comes from `x` can be got out of the way. -/
theorem flush (ops : ShardOps σ ω) (h : Behaviour σ ω) {m : Machine σ ω} (powerless : Powerless x m)
    (top : m.stack = [.loop]) (runs : m.world.sb.stopRequested = false) :
    ∃ m', SameBut x m m' ∧ Powerless x m' ∧ m'.stack = [.loop] ∧ m'.world.sb.stopRequested = false ∧
      (∀ e queue, m'.world.sb.queue = e :: queue → e.sentBy x = false) ∧
      ∀ calls counts last, Driven ops h m' calls counts last → Driven ops h m calls counts last := by
  generalize waits : m.world.sb.queue = queue
  induction queue generalizing m with
  | nil =>
      refine ⟨m, .refl m, powerless, top, runs, ?_, fun _ _ _ rest => rest⟩
      intro e queue front
      rw [waits] at front
      cases front
  | cons e queue ih =>
      cases sent : e.sentBy x with
      | false =>
          refine ⟨m, .refl m, powerless, top, runs, ?_, fun _ _ _ rest => rest⟩
          intro e' queue' front
          rw [waits] at front
          cases front
          exact sent
      | true =>
          have action := @turn_step σ ω ops m top
          obtain ⟨same, stack, rest⟩ := @turn_sent σ ω x m powerless e queue [] waits sent runs
          have top' : (m.turn []).stack = [.loop] := stack.trans top
          have runs' : (m.turn []).world.sb.stopRequested = false :=
            (congrArg View.stopRequested same.world).symm.trans runs
          obtain ⟨m', same', powerless', loop, running, front, extend⟩ :=
            ih (powerless.step action) top' runs' rest
          refine ⟨m', same.trans same', powerless', loop, running, front, ?_⟩
          intro calls counts last driven
          have silent : (m.turn []).answers h = [] := by rw [Machine.answers, top']
          have whole := Driven.turn top action (by rw [silent]; rfl) (extend calls counts last driven)
          rw [silent] at whole
          exact whole

/-- What `m'` can do to follow one turn of `m` under the other behaviour. -/
def Follows (x : ShardId) (ops : ShardOps σ ω) (h' : Behaviour σ ω) (m' mid : Machine σ ω)
    (counts : List (Option ShardId × Nat)) : Prop :=
  ∃ mid' counts', SameBut x mid mid' ∧ Powerless x mid' ∧ others x counts = others x counts' ∧
    ∀ calls later last, Driven ops h' mid' calls later last → Driven ops h' m' calls (counts' ++ later) last

theorem follow_called {ops : ShardOps σ ω} {h h' : Behaviour σ ω} (differ : DifferInSends x h h')
    {m' called called' mid : Machine σ ω} (powerless : Powerless x called) (powerless' : Powerless x m')
    (top' : m'.stack = [.loop]) (turned : called' = m'.turn []) (same : SameBut x called called')
    (handled : exec (Machine.step ops) (called.answers h) called = some mid) :
    Follows x ops h' m' mid (outputs (Machine.step ops) Input.recipients (called.answers h) called) := by
  subst turned
  have action := @turn_step σ ω ops m' top'
  have followed : ∃ mid', exec (Machine.step ops) ((m'.turn []).answers h') (m'.turn []) = some mid' ∧
      SameBut x mid mid' ∧
      others x (outputs (Machine.step ops) Input.recipients (called.answers h) called) =
        others x (outputs (Machine.step ops) Input.recipients ((m'.turn []).answers h') (m'.turn [])) := by
    rcases powerless.staged with idle | ⟨busy, _⟩
    · have idle' : (m'.turn []).stack = [] := by
        have stack := same.stack
        rw [idle] at stack
        exact List.map_eq_nil_iff.mp stack.symm
      simp only [Machine.answers, idle, idle'] at handled ⊢
      cases handled
      exact ⟨m'.turn [], rfl, same, rfl⟩
    · exact answers_alike differ same busy handled
  obtain ⟨mid', handled', same', counts⟩ := followed
  refine ⟨mid', _, same', (powerless'.step action).exec handled', counts, ?_⟩
  intro calls later last rest
  exact .turn top' action handled' rest

theorem follow_turn {ops : ShardOps σ ω} {h h' : Behaviour σ ω} (differ : DifferInSends x h h')
    {m m' called mid : Machine σ ω} (powerless : Powerless x m) (powerless' : Powerless x m')
    (same : SameBut x m m') (top : m.stack = [.loop]) (action : Machine.step ops .turn m = some called)
    (handled : exec (Machine.step ops) (called.answers h) called = some mid) :
    Follows x ops h' m' mid (outputs (Machine.step ops) Input.recipients (called.answers h) called) := by
  have turned := action
  rw [turn_step top] at turned
  cases turned
  have after := powerless.step action
  have top' : m'.stack = [.loop] := by
    obtain ⟨frames', top', rest⟩ := loop_top same top
    rw [top', (powerless'.loop top').1]
  have stops : m.world.sb.stopRequested = m'.world.sb.stopRequested := congrArg View.stopRequested same.world
  cases stop : m.world.sb.stopRequested with
  | true =>
      have ends := turn_ends_same same (Or.inr stop) (Or.inr (stops.symm.trans stop))
      exact follow_called differ after powerless' top' rfl ends handled
  | false =>
      -- the other machine gets what `x` sent out of the way first
      obtain ⟨clear, flushed, powerlessC, topC, runsC, frontC, extend⟩ :=
        flush ops h' powerless' top' (stops.symm.trans stop)
      have sameC := same.trans flushed
      have listed : waiting x m.world.sb.queue = waiting x clear.world.sb.queue :=
        congrArg View.waiting sameC.world
      have prepend : ∀ {counts}, Follows x ops h' clear mid counts → Follows x ops h' m' mid counts := by
        rintro counts ⟨mid', counts', same', powerlessM, counted, rest⟩
        exact ⟨mid', counts', same', powerlessM, counted, fun calls later last driven =>
          extend calls _ last (rest calls later last driven)⟩
      cases queue : m.world.sb.queue with
      | nil =>
          have none : clear.world.sb.queue = [] := by
            cases front : clear.world.sb.queue with
            | nil => rfl
            | cons e rest =>
                rw [queue, front, waiting_kept (frontC e rest front)] at listed
                cases listed
          have ends := turn_ends_same sameC (Or.inl queue) (Or.inl none)
          exact prepend (follow_called differ after powerlessC topC rfl ends handled)
      | cons e rest =>
          cases sent : e.sentBy x with
          | true =>
              obtain ⟨unseen, stack, _⟩ := @turn_sent σ ω x m powerless e rest [] queue sent stop
              have silent : (m.turn []).answers h = [] := by rw [Machine.answers, stack, top]
              rw [silent] at handled ⊢
              cases handled
              exact ⟨m', [], unseen.symm.trans same, powerless', rfl, fun _ _ _ driven => driven⟩
          | false =>
              cases front : clear.world.sb.queue with
              | nil =>
                  rw [queue, front, waiting_kept sent] at listed
                  cases listed
              | cons e' rest' =>
                  have kept := turn_kept sameC queue front sent (frontC e' rest' front) stop
                  exact prepend (follow_called differ after powerlessC topC rfl kept handled)

theorem driven_follows {ops : ShardOps σ ω} {h h' : Behaviour σ ω} (differ : DifferInSends x h h')
    {m last : Machine σ ω} {calls : List (Input σ ω)} {counts : List (Option ShardId × Nat)}
    (driven : Driven ops h m calls counts last) {m' : Machine σ ω} (powerless : Powerless x m)
    (powerless' : Powerless x m') (same : SameBut x m m') :
    ∃ counts' last', Driven ops h' m' calls counts' last' ∧ SameBut x last last' ∧
      others x counts = others x counts' := by
  induction driven generalizing m' with
  | done m => exact ⟨[], m', .done m', same, rfl⟩
  | host idle isCall action rest ih =>
      rename_i m mid _ call calls counts
      have idle' : m'.stack = [] := by
        have stack := same.stack
        rw [idle] at stack
        exact List.map_eq_nil_iff.mp stack.symm
      have noTurn : call ≠ .turn := by
        rintro rfl
        cases isCall
      obtain ⟨⟨mid', action', same'⟩, recipients⟩ := step_alike same noTurn action
      obtain ⟨counts', last', driven', final, counted⟩ :=
        ih (powerless.step action) (powerless'.step action') same'
      refine ⟨_, last', .host idle' isCall action' driven', final, ?_⟩
      rw [others_append, others_append, recipients, counted]
  | turn top action handled rest ih =>
      have alone := top
      rw [(powerless.loop top).1] at alone
      obtain ⟨mid', first, same', powerlessM, counted, extend⟩ :=
        follow_turn differ powerless powerless' same alone action handled
      obtain ⟨later, last', driven', final, counted'⟩ :=
        ih ((powerless.step action).exec handled) powerlessM same'
      refine ⟨first ++ later, last', extend _ _ _ driven', final, ?_⟩
      rw [others_append, others_append, counted, counted']

theorem driven_unique {ops : ShardOps σ ω} {h : Behaviour σ ω} {m last last' : Machine σ ω}
    {calls : List (Input σ ω)} {counts counts' : List (Option ShardId × Nat)}
    (driven : Driven ops h m calls counts last) (driven' : Driven ops h m calls counts' last')
    (complete : last.stack = []) (complete' : last'.stack = []) : last = last' ∧ counts = counts' := by
  induction driven generalizing counts' with
  | done m =>
      cases driven' with
      | done => exact ⟨rfl, rfl⟩
      | turn top action handled rest =>
          rw [complete] at top
          cases top
  | host idle isCall action rest ih =>
      cases driven' with
      | host idle' isCall' action' rest' =>
          rw [action] at action'
          cases action'
          obtain ⟨same, counted⟩ := ih rest' complete
          exact ⟨same, by rw [counted]⟩
      | turn top action' handled rest' =>
          rw [idle] at top
          cases top
  | turn top action handled rest ih =>
      cases driven' with
      | done =>
          rw [complete'] at top
          cases top
      | host idle isCall action' rest' =>
          rw [idle] at top
          cases top
      | turn top' action' handled' rest' =>
          rw [action] at action'
          cases action'
          rw [handled] at handled'
          cases handled'
          obtain ⟨same, counted⟩ := ih rest' complete
          exact ⟨same, by rw [counted]⟩

/-! ## Noninterference -/

/-- The same handlers were called with the same messages, the Shards are in the same state, and each
publish of a Shard other than `x` had the same number of recipients. -/
structure Indistinct (x : ShardId) (counts counts' : List (Option ShardId × Nat)) (m m' : Machine σ ω) : Prop where
  handled : m.world.log.handled = m'.world.log.handled
  memory : m.world.env = m'.world.env
  records : m.world.sb.shards = m'.world.sb.shards
  published : others x counts = others x counts'

theorem SameBut.indistinct {counts counts' : List (Option ShardId × Nat)} {m m' : Machine σ ω}
    (h : SameBut x m m') (counted : others x counts = others x counts') : Indistinct x counts counts' m m' :=
  ⟨congrArg View.handled h.world, congrArg View.env h.world, congrArg View.shards h.world, counted⟩

theorem ungranted_noninterference {ops : ShardOps σ ω} {env : ω} {before : List (Input σ ω)} {m : Machine σ ω}
    (reached : Reaches ops (.start env) before m) (idle : m.stack = []) {rec : ShardRecord σ}
    (registered : m.world.sb.find x = some rec) (ungranted : rec.grant.rules = []) {h h' : Behaviour σ ω}
    (differ : DifferInSends x h h') :
    (∀ calls counts last, Driven ops h m calls counts last →
      ∃ counts' last', Driven ops h' m calls counts' last' ∧ Indistinct x counts counts' last last') ∧
    ∀ calls counts last counts' last', Driven ops h m calls counts last → Driven ops h' m calls counts' last' →
      last.stack = [] → last'.stack = [] → Indistinct x counts counts' last last' := by
  have ok := records_ok reached
  have powerless : Powerless x m := by
    refine ⟨ok, ok.below x rec registered, ?_, Or.inl idle⟩
    intro rec' found
    rw [registered] at found
    cases found
    exact ungranted
  constructor
  · intro calls counts last driven
    obtain ⟨counts', last', driven', same, counted⟩ := driven_follows differ driven powerless powerless (.refl m)
    exact ⟨counts', last', driven', same.indistinct counted⟩
  · intro calls counts last counts' last' driven driven' complete complete'
    obtain ⟨counts'', last'', followed, same, counted⟩ :=
      driven_follows differ driven powerless powerless (.refl m)
    have complete'' : last''.stack = [] := by
      have stack := same.stack
      rw [complete] at stack
      exact List.map_eq_nil_iff.mp stack.symm
    obtain ⟨rfl, rfl⟩ := driven_unique followed driven' complete'' complete'
    exact same.indistinct counted

theorem drive_driven {ops : ShardOps σ ω} {h : Behaviour σ ω} {fuel : Nat} {calls : List (Input σ ω)}
    {m last : Machine σ ω} {counts : List (Option ShardId × Nat)}
    (run : drive ops h fuel calls m = some (counts, last)) : Driven ops h m calls counts last ∧ last.stack = [] := by
  induction fuel generalizing calls m counts with
  | zero => cases run
  | succ fuel ih =>
      unfold drive at run
      split at run
      · rename_i idle
        cases calls with
        | nil =>
            cases run
            exact ⟨.done _, idle⟩
        | cons call calls =>
            simp only at run
            split at run
            · rename_i isCall
              obtain ⟨mid, action, run⟩ := Option.bind_eq_some_iff.mp run
              obtain ⟨⟨counts', last'⟩, rest, same⟩ := Option.map_eq_some_iff.mp run
              cases same
              obtain ⟨driven, complete⟩ := ih rest
              exact ⟨.host idle isCall action driven, complete⟩
            · cases run
      · rename_i frames top
        obtain ⟨called, action, run⟩ := Option.bind_eq_some_iff.mp run
        obtain ⟨mid, handled, run⟩ := Option.bind_eq_some_iff.mp run
        obtain ⟨⟨counts', last'⟩, rest, same⟩ := Option.map_eq_some_iff.mp run
        cases same
        obtain ⟨driven, complete⟩ := ih rest
        exact ⟨.turn top action handled driven, complete⟩
      · cases run

-- Shard 2, without a grant, answers each message with a send to Shard 1 and a publish, or not at all
def chatty (talks : Bool) : Behaviour Unit Unit := fun id _ msg _ =>
  if id = 2 ∧ talks = true then
    { calls := [.handlerSends 1 msg, .handlerPublishes msg], inside := by simp [Input.isCall] }
  else if id = 1 then
    { calls := [.handlerPublishes ⟨pingValue 2, 0, 0, 0⟩, .stop], inside := by simp [Input.isCall] }
  else { calls := [], inside := by simp }

def pingPair : List (Input Unit Unit) :=
  [.registerShard (some ()) {}, .registerShard (some ()) {}]

def pingCalls : List (Input Unit Unit) :=
  [.publish ⟨pingValue 1, 0, 0, 0⟩, .pump, .publish ⟨pingValue 3, 0, 0, 0⟩, .pump, .kill 1, .pump]

theorem ungranted_noninterference_ping : ∃ m counts last counts' last',
    Reaches pingOps (.start ()) pingPair m ∧ Driven pingOps (chatty true) m pingCalls counts last ∧
    Driven pingOps (chatty false) m pingCalls counts' last' ∧ Indistinct 2 counts counts' last last' ∧
    last.world.log.handled.length = 4 ∧ last.world.sb.nextSeq = 14 ∧ last'.world.sb.nextSeq = 9 := by
  have evaluated : (exec (Machine.step pingOps) pingPair (.start ())).map (fun m =>
      (m.stack.length, (m.world.sb.find 2).map fun rec => rec.grant.rules,
        (drive pingOps (chatty true) 60 pingCalls m).map fun r => (r.2.world.log.handled.length, r.2.world.sb.nextSeq),
        (drive pingOps (chatty false) 60 pingCalls m).map fun r => r.2.world.sb.nextSeq)) =
      some (0, some [], some (4, 14), some 9) := by
    decide +kernel
  obtain ⟨m, reached, seen⟩ := Option.map_eq_some_iff.mp evaluated
  simp only [Prod.mk.injEq, List.length_eq_zero_iff, Option.map_eq_some_iff] at seen
  obtain ⟨idle, ⟨rec, registered, ungranted⟩, ⟨talking, drives, handled, numbers⟩, ⟨silent, drives', numbers'⟩⟩ := seen
  have run := Run.of_exec reached
  obtain ⟨driven, complete⟩ := drive_driven drives
  obtain ⟨driven', complete'⟩ := drive_driven drives'
  have differ : DifferInSends 2 (chatty true) (chatty false) := by
    refine ⟨fun id other => ?_, fun _ _ _ => rfl, fun _ _ _ => rfl⟩
    funext shard msg env
    simp [chatty, other]
  have same := (ungranted_noninterference run idle registered ungranted differ).2 _ _ _ _ _ driven driven'
    complete complete'
  exact ⟨m, talking.1, talking.2, silent.1, silent.2, run, driven, driven', same, handled, numbers, numbers'⟩

end Zen.Sb
