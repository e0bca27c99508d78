import Zen.Proof.Switchboard.Fifo

/-!
# What an exception of a handler leaves behind

`pump` clears its flag only when its loop ends. An exception of a handler leaves `pump` with the
flag set and the ticket it was handling undecided; since a set flag makes every later `pump` return
at once, nothing is taken from the queue any more.
-/

namespace Zen.Sb
open Lib BusM

variable {σ ω : Type}

/-! ## One exception -/

def Bricked (n : Nat) (m : Machine σ ω) : Prop := Numbered m ∧ Ledger.Stuck m.ledger n

theorem Bricked.step {ops : ShardOps σ ω} {input : Input σ ω} {n : Nat} {m m' : Machine σ ω}
    (h : Bricked n m) (action : Machine.step ops input m = some m') :
    Bricked n m' ∧ Ledger.Frozen m.ledger m'.ledger := by
  obtain ⟨numbered, stuck⟩ := h
  obtain ⟨numbered', same | step | ⟨_, threw⟩⟩ := step_refines numbered action
  · rw [Bricked, same]
    exact ⟨⟨numbered', stuck⟩, .refl m.ledger⟩
  · obtain ⟨stuck', frozen⟩ := stuck.step step
    exact ⟨⟨numbered', stuck'⟩, frozen⟩
  · exact absurd threw stuck.no_throw

theorem bricked_run {ops : ShardOps σ ω} {inputs : List (Input σ ω)} {n : Nat} {m m' : Machine σ ω}
    (run : Reaches ops m inputs m') (h : Bricked n m) :
    Bricked n m' ∧ Ledger.Frozen m.ledger m'.ledger :=
  run.relates (R := fun m m' : Machine σ ω => Ledger.Frozen m.ledger m'.ledger) (fun m => .refl m.ledger)
    (fun first second => Ledger.Frozen.trans first second) (fun _ _ _ (_ : True) h action => h.step action)
    (fun _ _ => trivial) h

/-- In every run the dispatcher is in order until the first exception, and bricked after it. -/
theorem ordered_or_bricked {ops : ShardOps σ ω} {env : ω} {inputs : List (Input σ ω)} {m : Machine σ ω}
    (run : Reaches ops (.start env) inputs m) : Ordered m ∨ ∃ n, Bricked n m := by
  refine run.invariant (I := fun m => Ordered m ∨ ∃ n, Bricked n m) ?_ ?_
  case refine_2 => exact Or.inl (.start env)
  intro input m m' before action
  rcases before with ordered | ⟨n, bricked⟩
  · obtain ⟨numbered, done, next, order⟩ := ordered
    obtain ⟨numbered', same | step | ⟨_, threw⟩⟩ := step_refines numbered action
    · exact Or.inl ⟨numbered', done, next, same ▸ order⟩
    · exact Or.inl ⟨numbered', (order.step step).1⟩
    · exact Or.inr ⟨done + 1, numbered', order.throw threw⟩
  · exact Or.inr ⟨n, (bricked.step action).1⟩

theorem throw_bricks {ops : ShardOps σ ω} {env : ω} {inputs : List (Input σ ω)} {m m' : Machine σ ω}
    {e : Envelope} (run : Reaches ops (.start env) inputs m) (threw : Threw e m m') : Bricked e.seq m' := by
  have handling : m.ledger.stack = some e.seq :: none :: m'.stack.map Frame.ticket := by
    obtain ⟨trusted, top⟩ := threw.top
    simp [Machine.ledger, Mail.ledger, top, Frame.ticket]
  rcases ordered_or_bricked run with ⟨numbered, done, next, order⟩ | ⟨n, _, stuck⟩
  · obtain ⟨numbered', failed⟩ := threw.refines numbered
    obtain ⟨this, _⟩ := order.handling_of handling
    rw [this]
    exact ⟨numbered', order.throw failed⟩
  · rw [stuck.stack] at handling
    cases handling

theorem Bricked.pending {n : Nat} {m : Machine σ ω} (h : Bricked n m) : ¬ m.world.sb.finished n := by
  intro decided
  obtain ⟨positive, inside⟩ := decided_inside decided
  have slot := ledger_outcome m positive inside
  rw [h.2.pending, Option.some.injEq] at slot
  exact decided (final_eq_none.mp slot.symm)

theorem Bricked.pump_noop {n : Nat} {m : Machine σ ω} (h : Bricked n m) : m.pump = m := by
  have flag : m.world.sb.inDispatch = true := h.2.dispatching
  rw [Machine.pump, if_pos flag]

/-! ## No recovery -/

/-- After the handler of `e` has thrown: the flag is clear, a `pump` that is not stopped takes all that
was waiting in order, and the ticket of `e` is decided at some time. -/
structure Recovers (ops : ShardOps σ ω) (e : Envelope) (m : Machine σ ω) : Prop where
  clear : m.world.sb.inDispatch = false
  delivers : ∀ inputs m', Reaches ops m (.pump :: inputs) m' → m'.stack = [] →
    m'.world.sb.stopRequested = false →
    m.world.log.dequeued ++ m.world.sb.queue.map Envelope.seq <+: m'.world.log.dequeued
  settles : ∃ later m', Reaches ops m later m' ∧ m'.world.sb.finished e.seq

structure Dead (e : Envelope) (m m' : Machine σ ω) : Prop where
  flag : m'.world.sb.inDispatch = true
  pump : m'.pump = m'
  waiting : m.world.sb.queue.map Envelope.seq <+: m'.world.sb.queue.map Envelope.seq
  dequeued : m'.world.log.dequeued = m.world.log.dequeued
  pending : (m'.world.sb.outcome e.seq).disposition = .pending

theorem Bricked.dead {ops : ShardOps σ ω} {e : Envelope} {later : List (Input σ ω)} {m m' : Machine σ ω}
    (h : Bricked e.seq m) (run : Reaches ops m later m') : Dead e m m' := by
  obtain ⟨bricked, frozen⟩ := bricked_run run h
  exact ⟨bricked.2.dispatching, bricked.pump_noop, frozen.waiting, frozen.dequeued,
    Decidable.not_not.mp bricked.pending⟩

theorem handlerThrows_threw {ops : ShardOps σ ω} {m m' : Machine σ ω} {e : Envelope} {trusted : Message}
    {frames : List Frame} (top : m.stack = .handler e trusted :: frames)
    (throws : Machine.step ops .handlerThrows m = some m') : Threw e m m' := by
  rw [Machine.step] at throws
  split at throws
  · rename_i e' trusted' frames' stack
    cases throws
    rw [stack, List.cons.injEq] at top
    cases top.1
    exact ⟨⟨trusted, stack⟩, rfl⟩
  · cases throws

theorem throwing_handler_bricks_bus {ops : ShardOps σ ω} {env : ω} {inputs : List (Input σ ω)}
    {m m' : Machine σ ω} {e : Envelope} {trusted : Message} {frames : List Frame}
    (run : Reaches ops (.start env) inputs m) (top : m.stack = .handler e trusted :: frames)
    (throws : Machine.step ops .handlerThrows m = some m') :
    ¬ Recovers ops e m' ∧ ∀ later m'', Reaches ops m' later m'' → Dead e m' m'' := by
  have bricked := throw_bricks run (handlerThrows_threw top throws)
  refine ⟨?_, fun later m'' further => bricked.dead further⟩
  intro recovers
  have flag : m'.world.sb.inDispatch = true := bricked.2.dispatching
  rw [recovers.clear] at flag
  cases flag

-- `pingRun` up to the first handler, which then throws with two tickets waiting
def pingThrow : List (Input Unit Unit) := pingRun.take 6

theorem stack_of_tickets {stack : List Frame} {n : Nat} (h : stack.map Frame.ticket = [some n, none]) :
    ∃ e trusted, stack = [.handler e trusted, .loop] ∧ e.seq = n := by
  match stack, h with
  | [.handler e trusted, .loop], h =>
      rw [List.map_cons, List.cons.injEq] at h
      exact ⟨e, trusted, rfl, Option.some.inj h.1⟩
  | [.loop, _], h => cases h
  | [.handler _ _, .handler _ _], h => cases h

theorem pingThrow_reaches : ∃ m e trusted m', Reaches pingOps (.start ()) pingThrow m ∧
    m.stack = [.handler e trusted, .loop] ∧ e.seq = 1 ∧ m'.world.sb.queue.map Envelope.seq = [2, 3] ∧
    m'.world.log.dequeued = [1] ∧ m'.world.sb.stopRequested = false ∧ m'.stack = [] ∧
    Machine.step pingOps .handlerThrows m = some m' := by
  have evaluated : (exec (Machine.step pingOps) pingThrow (.start ())).map
      (fun m => (m.stack.map Frame.ticket, m.world.sb.queue.map Envelope.seq, m.world.log.dequeued,
        m.world.sb.stopRequested)) = some ([some 1, none], [2, 3], [1], false) := by
    decide +kernel
  obtain ⟨m, reached, seen⟩ := Option.map_eq_some_iff.mp evaluated
  simp only [Prod.mk.injEq] at seen
  obtain ⟨tickets, waiting, dequeued, stopRequested⟩ := seen
  obtain ⟨e, trusted, stack, seq⟩ := stack_of_tickets tickets
  refine ⟨m, e, trusted, { m with stack := [] }, Run.of_exec reached, stack, seq, waiting, dequeued,
    stopRequested, rfl, ?_⟩
  rw [Machine.step, stack]

theorem throwing_handler_bricks_bus_ping : ∃ m e trusted m', Reaches pingOps (.start ()) pingThrow m ∧
    m.stack = [.handler e trusted, .loop] ∧ Machine.step pingOps .handlerThrows m = some m' ∧
    ¬ Recovers pingOps e m' := by
  obtain ⟨m, e, trusted, m', run, top, _, _, _, _, _, throws⟩ := pingThrow_reaches
  exact ⟨m, e, trusted, m', run, top, throws, (throwing_handler_bricks_bus run top throws).1⟩

-- each of the three parts of a recovery fails
theorem throwing_ping_handler : ∃ m e trusted m', Reaches pingOps (.start ()) pingThrow m ∧
    m.stack = [.handler e trusted, .loop] ∧ Machine.step pingOps .handlerThrows m = some m' ∧
    ¬ m'.world.sb.inDispatch = false ∧
    ¬ (∀ inputs m'', Reaches pingOps m' (.pump :: inputs) m'' → m''.stack = [] →
      m''.world.sb.stopRequested = false →
      m'.world.log.dequeued ++ m'.world.sb.queue.map Envelope.seq <+: m''.world.log.dequeued) ∧
    ¬ ∃ later m'', Reaches pingOps m' later m'' ∧ m''.world.sb.finished e.seq := by
  obtain ⟨m, e, trusted, m', run, top, seq, waiting, dequeued, stopRequested, stack, throws⟩ :=
    pingThrow_reaches
  have bricked := throw_bricks run (handlerThrows_threw top throws)
  have flag : m'.world.sb.inDispatch = true := bricked.2.dispatching
  refine ⟨m, e, trusted, m', run, top, throws, by simp [flag], ?_, ?_⟩
  · intro delivers
    have pumped : Reaches pingOps m' [.pump] m' :=
      .cons (congrArg some bricked.pump_noop) (.nil m')
    have taken := delivers [] m' pumped stack stopRequested
    rw [waiting, dequeued] at taken
    exact absurd taken (by decide)
  · rintro ⟨later, m'', further, decided⟩
    exact decided (bricked.dead further).pending

end Zen.Sb
