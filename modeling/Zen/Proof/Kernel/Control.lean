import Zen.Kernel.Control
import Zen.Proof.Author.Shard
import Zen.Proof.Kernel.Custody
import Zen.Proof.Kernel.Operations

/-!
# Who operates the kernel

The bus calls the handler of the control Shard with messages that it has authorized, and calls no other
handler meanwhile. What the kernel does is then what these messages say, one at a time.
-/

namespace Zen.Kernel
open Lib Sb Author KernelM

variable {ν ς ρ ω α : Type}

def Order.input : Order → Input ν ς
  | .load name path => .load name path
  | .reloadFrom name newPath => .reloadFrom name newPath
  | .unload name => .unload name

theorem Order.own (o : Order) (call : Sb.Input ν ς) : (o.input : Input ν ς) ≠ .bus call := by
  cases o <;> simp [Order.input]

/-! ## One operation -/

@[simp] theorem wp_operating {x : KernelM ν ς α} {s : System ν ς} {Q : Except Failure α → System ν ς → Prop} :
    wp (operating x) s Q ↔ wp x s.kernel fun r kernel => Q (r.mapError .threw) { s with kernel } := by
  simp only [wp, operating, EStateM.run]
  cases x s.kernel <;> rfl

/-- An operation throws only where `reload_from` does. -/
def Fails (seam : Seam ς) (native : ShardOps ν ς) (o : Order) (k : Kernel ν ς) : Prop :=
  ∃ name newPath e k', o = .reloadFrom name newPath ∧ (reloadFrom seam native name newPath).run k = .error e k'

/-- The handler leaves what a call of the host would. -/
theorem carryOut_step (seam : Seam ς) (native : ShardOps ν ς) (o : Order) {s : System ν ς}
    (below : s.kernel.world.sb.Below) :
    wp (carryOut seam native o) s fun r s' => System.step seam native o.input s = some s' ∧
      match r with
      | .ok _ => True
      | .error e => (∃ e', e = .threw e') ∧ Fails seam native o s.kernel := by
  cases o with
  | load name path =>
      simp only [carryOut, wp_bind, wp_operating]
      have returns := load_tends seam native name path below
      refine wp_intro ?_ ?_
      · intro result k' run
        simp only [Order.input, System.step, run, Except.mapError, andThen_ok]
        split
        · rw [wp_modify]
          exact ⟨rfl, trivial⟩
        · exact ⟨rfl, trivial⟩
      · intro e k' run
        obtain ⟨_, impossible, _⟩ := wp_error returns run
        cases impossible
  | reloadFrom name newPath =>
      simp only [carryOut, wp_bind, wp_operating]
      refine wp_intro ?_ ?_
      · intro result k' run
        simp only [Order.input, System.step, System.ended, run]
        exact ⟨rfl, trivial⟩
      · intro e k' run
        simp only [Order.input, System.step, System.ended, run]
        exact ⟨rfl, ⟨e, rfl⟩, name, newPath, e, k', rfl, run⟩
  | unload name =>
      simp only [carryOut, wp_bind, wp_operating]
      refine wp_intro ?_ ?_
      · intro found k' run
        simp only [Order.input, System.step, System.ended, run]
        exact ⟨rfl, trivial⟩
      · intro e k' run
        obtain ⟨_, impossible, _⟩ := wp_error (unload_tends seam name s.kernel) run
        cases impossible

def System.withEnv (s : System ν ς) (env : Foreign ς) : System ν ς :=
  { s with kernel := { s.kernel with world := { s.kernel.world with env } } }

theorem withEnv_ok {s : System ν ς} (ok : SystemOk s) (env : Foreign ς) : SystemOk (s.withEnv env) where
  kernel := ⟨ok.kernel.below, ok.kernel.adapters, ok.kernel.known, ok.kernel.loaded, ok.kernel.used⟩
  numbered := ⟨ok.numbered.slots, ok.numbered.origins⟩
  stamped := ok.stamped
  granted := ok.granted
  staged := ok.staged

theorem remembering_ok {s : System ν ς} (ok : SystemOk s) (change : ς → ς) : SystemOk (s.remembering change) :=
  withEnv_ok ok _

/-! ## Handlers -/

section
variable {τ : Type} {R : τ → τ → Prop}

theorem wp_of {x : Except Exn α} {t : τ} {Q : Except Failure α → τ → Prop}
    (ok : ∀ a, x = .ok a → Q (.ok a) t) (error : ∀ e, Q (.error (.threw e)) t) : wp (Handler.of x) t Q := by
  cases x with
  | ok a => exact ok a rfl
  | error e => exact error e

theorem wp_unchecked {x : Except Fault α} {t : τ} {Q : Except Failure α → τ → Prop}
    (ok : ∀ a, x = .ok a → Q (.ok a) t) (fault : ∀ f, Q (.error (.fault f)) t) : wp (Handler.unchecked x) t Q := by
  cases x with
  | ok a => exact ok a rfl
  | error f => exact fault f

/-- At most one of the overloads is called, so `R` need not compose. -/
theorem dispatchAny_leaves {on : On τ} {mail : Author.Mail} (refl : ∀ t, R t t)
    (each : ∀ s obj t, wp (on s obj mail) t fun _ t' => R t t') (shapes : List Shape) (t : τ) :
    wp (dispatchAny on mail shapes) t fun _ t' => R t t' := by
  induction shapes with
  | nil => exact refl t
  | cons s shapes ih =>
      rw [dispatchAny, dispatchTo, wp_bind, wp_bind]
      apply wp_of
      · intro schema _
        simp only [andThen_ok]
        split
        · exact ih
        · rw [wp_bind]
          apply wp_unchecked
          · intro obj _
            rw [andThen_ok, wp_bind]
            apply wp_mono (each s obj t)
            rintro (e | _) t' left
            · exact left
            · exact left
          · intro f
            exact refl t
      · intro e
        exact refl t

theorem handle_leaves {c : ShardClass} {on : On τ} (refl : ∀ t, R t t)
    (each : ∀ s obj mail t, wp (on s obj mail) t fun _ t' => R t t') (self : ShardId) (inbound : Message) (t : τ) :
    wp (c.handle on self inbound) t fun _ t' => R t t' := by
  rw [ShardClass.handle, wp_bind]
  apply wp_mono (dispatchAny_leaves refl (fun s obj t => each s obj ⟨inbound, self⟩ t) c.accept t)
  rintro (e | routed) t' left
  · exact left
  · rw [andThen_ok]
    split <;> exact left

end

/-- What the handler of a control Shard can leave, even where its message is not what it takes it for. -/
def Heeded (seam : Seam (ControlMemory ω)) (native : ShardOps ν (ControlMemory ω))
    (s s' : System ν (ControlMemory ω)) : Prop :=
  s' = s ∨ ∃ o : Order, System.step seam native o.input (s.remembering counted) = some s'

theorem controlOn_answers (seam : Seam (ControlMemory ω)) (native : ShardOps ν (ControlMemory ω)) (shape : Shape)
    (obj : shape.Object) (mail : Author.Mail) {s : System ν (ControlMemory ω)} (below : s.kernel.world.sb.Below) :
    wp (controlOn seam native shape obj mail) s fun _ s' => Heeded seam native s s' := by
  unfold controlOn
  cases order shape obj with
  | none => exact Or.inl rfl
  | some o =>
      rw [wp_bind, wp_modify, andThen_ok]
      apply wp_mono (carryOut_step seam native o (s := s.remembering counted) below)
      rintro r s' ⟨action, _⟩
      exact Or.inr ⟨o, action⟩

theorem control_answers (seam : Seam (ControlMemory ω)) (native : ShardOps ν (ControlMemory ω)) (self : ShardId)
    (inbound : Message) {s : System ν (ControlMemory ω)} (below : s.kernel.world.sb.Below) :
    wp (controlShard.handle (controlOn seam native) self inbound) s fun _ s' => Heeded seam native s s' := by
  have either : wp (controlShard.handle (controlOn seam native) self inbound) s fun _ s' =>
      s.kernel.world.sb.Below → Heeded seam native s s' := by
    apply handle_leaves (R := fun s s' => s.kernel.world.sb.Below → Heeded seam native s s') ?_ ?_ self inbound s
    · intro s _
      exact Or.inl rfl
    · intro shape obj mail s
      by_cases below : s.kernel.world.sb.Below
      · exact wp_mono (controlOn_answers seam native shape obj mail below) fun _ _ heeded _ => heeded
      · exact wp_intro (fun _ _ _ holds => absurd holds below) (fun _ _ _ holds => absurd holds below)
  exact wp_mono either fun _ _ heeded => heeded below

/-! ## Between the steps of a governed host -/

namespace Governed
variable {g : Governed ρ ω} {s s' : Host ρ ω}

theorem compiledIn_eq_some {shard : Shard ν} {n : ν} : compiledIn shard = some n ↔ shard = .native n := by
  cases shard <;> simp [compiledIn]

theorem controls_iff {id : ShardId} : controls s id = true ↔
    ∃ rec, s.kernel.world.sb.find id = some rec ∧ compiledIn rec.shard = some (.inl ()) := by
  unfold controls
  cases s.kernel.world.sb.find id with
  | none => simp
  | some rec =>
      obtain ⟨id, shard, accept, stateSchema, lastKnownGood, grant, reloadsUsed, alive⟩ := rec
      rcases shard with (_ | _) | _ <;> simp [compiledIn]

theorem commanded_iff {e : Envelope} {trusted : Message} : commanded s = some (e, trusted) ↔
    ∃ frames, s.stack = .handler e trusted :: frames ∧ controls s e.target = true := by
  unfold commanded
  split
  · rename_i e' trusted' frames top
    rw [top]
    split
    · rename_i controls
      constructor
      · rintro ⟨⟩
        exact ⟨frames, rfl, controls⟩
      · rintro ⟨_, same, _⟩
        cases same
        rfl
    · rename_i other
      constructor
      · rintro ⟨⟩
      · rintro ⟨_, same, controls⟩
        cases same
        exact absurd controls other
  · rename_i other
    constructor
    · rintro ⟨⟩
    · rintro ⟨frames, top, _⟩
      exact absurd top (other e trusted frames)

/-- The host destroys the instance of an adapter that it takes off the bus. -/
def Drops (s : Host ρ ω) (input : Sb.Input (Unit ⊕ ρ) (ControlMemory ω)) (c : Call) : Prop :=
  ∃ id adapter, input = .unregisterShard id ∧ adapterOf s.kernel.world.sb id = some adapter ∧
    c = .destroy adapter.abi adapter.inst

theorem dropped_eq {input : Sb.Input (Unit ⊕ ρ) (ControlMemory ω)} :
    ∃ env, g.dropped input s s' = s'.withEnv env ∧ Grown (Drops s input) s'.kernel.world.env env := by
  have kept : ∃ env, s' = s'.withEnv env ∧ Grown (Drops s input) s'.kernel.world.env env := ⟨_, rfl, .refl _⟩
  cases input with
  | unregisterShard id =>
      cases adapts : adapterOf s.kernel.world.sb id with
      | none =>
          simp only [dropped, adapts]
          exact kept
      | some adapter =>
          simp only [dropped, adapts]
          exact ⟨_, rfl, .one _ ⟨id, adapter, rfl, adapts, rfl⟩⟩
  | _ => exact kept

theorem onBus_some {input : Sb.Input (Unit ⊕ ρ) (ControlMemory ω)} (action : g.onBus input s = some s') :
    ∃ m env, Machine.step (hostOps g.seam g.native) (hosted input) s.machine = some m ∧
      s' = (s.withMachine m).withEnv env ∧ Grown (Drops s input) m.world.env env := by
  obtain ⟨t, stepped, rfl⟩ := Option.map_eq_some_iff.mp action
  obtain ⟨m, moved, rfl⟩ := Option.map_eq_some_iff.mp stepped
  obtain ⟨env, state, grown⟩ := @dropped_eq _ _ g s (s.withMachine m) input
  exact ⟨m, env, moved, state, grown⟩

theorem onBus_ok {input : Sb.Input (Unit ⊕ ρ) (ControlMemory ω)} (ok : SystemOk s) (action : g.onBus input s = some s') :
    SystemOk s' := by
  obtain ⟨m, env, moved, rfl, _⟩ := onBus_some action
  have stepped : System.step g.seam g.native (.bus input) s = some (s.withMachine m) := by
    rw [System.step, moved]
    rfl
  exact withEnv_ok (ok.bus stepped) env

/-- A handler of the control Shard runs for a message that the bus has authorized. -/
structure Commanded (s : Host ρ ω) (e : Envelope) (trusted : Message) : Prop where
  trusted : trusted = e.msg
  authorized : AuthorizedBy s.machine e.seq e.target e.msg
  routed : ∃ rec door, s.kernel.world.sb.find e.target = some rec ∧
    acceptMatch rec e.msg.name e.msg.version = some door ∧
    admitLive e.msg.payload door .firstError = .accept e.msg.payload

/-- Every control Shard has the doors that its class declares. -/
def ControlDoors (s : Host ρ ω) : Prop := ∀ id rec, s.kernel.world.sb.find id = some rec →
  compiledIn rec.shard = some (.inl ()) → DoorsOf controlShard rec.accept

structure Watched (s : Host ρ ω) : Prop where
  ok : SystemOk s
  doors : ControlDoors s
  known : ∀ e trusted frames, s.stack = .handler e trusted :: frames → e.target < s.kernel.world.sb.nextShardId
  called : ∀ e trusted, commanded s = some (e, trusted) → Commanded s e trusted

theorem Watched.start (memory : ControlMemory ω) : Watched (System.start memory : Host ρ ω) where
  ok := .start memory
  doors := by intro id rec found; cases found
  known := by intro e trusted frames top; cases top
  called := by intro e trusted handling; cases handling

theorem fresh_control {w : World (Shard (Unit ⊕ ρ)) (Foreign (ControlMemory ω))}
    {incoming : Option (Shard (Unit ⊕ ρ))} {id : ShardId} {grant : Grant} {rec : ShardRecord (Shard (Unit ⊕ ρ))}
    (fresh : Fresh (hostOps g.seam g.native) w incoming id grant rec) (control : compiledIn rec.shard = some (.inl ())) :
    DoorsOf controlShard rec.accept := by
  obtain ⟨declared, env, asked, same⟩ := fresh.accept
  rw [compiledIn_eq_some.mp control] at asked
  have declares : wp ((hostOps g.seam g.native).acceptedSchemas (.native (.inl ()))) w.env fun r _ =>
      ∀ declared, r = .ok declared → ∃ schemas, controlShard.acceptedSchemas = .ok schemas ∧ declared = schemas.map some := by
    simp only [hostOps, wp_onMemory]
    refine wp_intro ?_ (by simp)
    rintro declared memory heeded _ ⟨⟩
    have asked : ((authorOps (fun _ : Unit => controlShard) g.others g.undefined).acceptedSchemas (.inl ())).run
        w.env.memory = .ok declared memory := heeded
    obtain ⟨schemas, known, same⟩ := authored_schemas asked
    exact ⟨schemas, known, same⟩
  obtain ⟨schemas, known, rfl⟩ := wp_ok declares asked declared rfl
  refine ⟨schemas, known, ?_⟩
  apply List.map_injective_iff.mpr (Option.some_injective _)
  simpa [Function.comp_def] using same

theorem bus_doors {input : Sb.Input (Unit ⊕ ρ) (ControlMemory ω)} (ok : SystemOk s) (doors : ControlDoors s)
    (action : g.onBus input s = some s') : ControlDoors s' := by
  obtain ⟨m, env, moved, rfl, _⟩ := onBus_some action
  intro id rec found control
  rcases step_joined moved with ⟨grant, new, w, registered, state⟩ | reshaped
  · obtain ⟨_, _, rfl, _, added, shards, fresh⟩ := registered
    subst state
    have found' : w.sb.find id = some rec := found
    rw [ok.kernel.below.find_added shards] at found'
    split at found'
    · cases found'
      exact fresh_control fresh control
    · exact doors id rec found' control
  · rcases (reshaped none).origin ok.kernel.below found with ⟨old, before, kept, _⟩ | ⟨_, _, _, _, joins⟩
    · rw [kept.accept]
      exact doors id old before (by rw [← kept.shard]; exact control)
    · cases joins

/-- A record of the control Shard is an old one, or the one just made. -/
theorem bus_controls {input : Sb.Input (Unit ⊕ ρ) (ControlMemory ω)} (ok : SystemOk s)
    (action : g.onBus input s = some s') {id : ShardId} (known : id < s.kernel.world.sb.nextShardId)
    (control : controls s' id = true) : controls s id = true := by
  obtain ⟨m, env, moved, rfl, _⟩ := onBus_some action
  obtain ⟨rec', found, native⟩ := controls_iff.mp control
  rcases (step_reshaped moved).origin ok.kernel.below found with ⟨rec, before, kept, _⟩ | ⟨new, _⟩
  · exact controls_iff.mpr ⟨rec, before, by rw [← kept.shard]; exact native⟩
  · exact absurd new (Nat.ne_of_lt known)

theorem called_commanded {e : Envelope} {queue : List Envelope} {trusted : Message}
    {w : World (Shard (Unit ⊕ ρ)) (Foreign (ControlMemory ω))} (env : Foreign (ControlMemory ω)) (ok : SystemOk s)
    (front : s.kernel.world.sb.queue = e :: queue) (turn : CalledTurn (s.machine.popped e queue) e trusted w) :
    Commanded { s with kernel := { s.kernel with world := { w with env } }, stack := .handler e trusted :: s.stack }
      e trusted := by
  obtain ⟨rec, door, found, _, matched, admitted⟩ := turn.routed
  have bus : w.sb = (s.machine.popped e queue).sb := turn.bus
  refine ⟨turn.trusted, ?_, rec, door, ?_, matched, admitted⟩
  · intro a sent
    have waiting : e ∈ s.machine.world.sb.queue := by
      change e ∈ s.kernel.world.sb.queue
      rw [front]
      exact List.mem_cons_self
    obtain ⟨gated, rfl⟩ := (ok.stamped e waiting).gated sent
    obtain ⟨sender, known, permits⟩ := permitted_eq_true.mp (turn.authorized gated)
    have before : s.kernel.world.sb.find e.msg.sender = some sender := known
    refine ⟨rfl, ?_, sender.grant, ok.granted _ sender before, permits⟩
    change (w.sb.find e.msg.sender).isSome = true
    rw [bus]
    exact Option.isSome_iff_exists.mpr ⟨sender, before⟩
  · change w.sb.find e.target = some rec
    rw [bus]
    exact found

/-- A handler is on top because it was, or because the last turn has called it. -/
theorem bus_top {input : Sb.Input (Unit ⊕ ρ) (ControlMemory ω)} {m : Machine (Shard (Unit ⊕ ρ)) (Foreign (ControlMemory ω))}
    (ok : SystemOk s) (moved : Machine.step (hostOps g.seam g.native) (hosted input) s.machine = some m) {e : Envelope}
    {trusted : Message} {frames : List Frame} (top : m.stack = .handler e trusted :: frames) :
    s.stack = .handler e trusted :: frames ∨ ∃ queue w, s.kernel.world.sb.queue = e :: queue ∧
      CalledTurn (s.machine.popped e queue) e trusted w ∧
      m = { s.machine with world := w, stack := .handler e trusted :: s.stack } := by
  rcases step_effect moved with effect | ⟨⟨e', threw⟩, _⟩
  · cases effect with
    | quiet quiet origins => exact Or.inl (quiet.2.symm.trans top)
    | enqueued es origin numbers stamped state =>
        subst state
        exact Or.inl top
    | began idle state =>
        subst state
        cases top
    | turned frames' looping turned =>
        obtain ⟨_, ⟨_, rfl⟩ | ⟨_, _, impossible, _⟩⟩ := ok.frames looping
        · cases turned with
          | ended => cases top
          | refused e' queue w front refusal =>
              have same : s.stack = .handler e trusted :: frames := top
              exact Or.inl same
          | called e' queue trusted' w front call =>
              cases top
              exact Or.inr ⟨queue, w, front, call, rfl⟩
        · cases impossible
    | returned e' trusted' frames' handling state =>
        subst state
        obtain ⟨_, ⟨impossible, _⟩ | ⟨_, _, _, rfl⟩⟩ := ok.frames handling
        · cases impossible
        · cases top
  · obtain ⟨trusted', handling⟩ := threw.top
    obtain ⟨_, ⟨impossible, _⟩ | ⟨_, _, _, below⟩⟩ := ok.frames handling
    · cases impossible
    · rw [(List.cons.inj below).2] at top
      cases top

theorem Watched.bus {input : Sb.Input (Unit ⊕ ρ) (ControlMemory ω)} (watched : Watched s) (other : commanded s = none)
    (action : g.onBus input s = some s') : Watched s' := by
  have ok := onBus_ok watched.ok action
  have doors := bus_doors watched.ok watched.doors action
  obtain ⟨m, env, moved, state, _⟩ := onBus_some action
  have grown : s.kernel.world.sb.nextShardId ≤ s'.kernel.world.sb.nextShardId := by
    rw [state]
    rcases (step_reshaped moved).ids with ids | ⟨next, _⟩
    · exact Nat.le_of_eq ids.nextShardId.symm
    · exact (Nat.le_succ _).trans (Nat.le_of_eq next.symm)
  have stack : s'.stack = m.stack := congrArg System.stack state
  refine ⟨ok, doors, ?_, ?_⟩
  · intro e trusted frames top
    rw [stack] at top
    rcases bus_top watched.ok moved top with before | ⟨queue, w, front, call, rfl⟩
    · exact Nat.lt_of_lt_of_le (watched.known e trusted frames before) grown
    · obtain ⟨rec, door, found, _⟩ := call.routed
      exact Nat.lt_of_lt_of_le (watched.ok.kernel.below e.target rec found) grown
  · intro e trusted commands
    obtain ⟨frames, top, controls⟩ := commanded_iff.mp commands
    have top' := top
    rw [stack] at top'
    rcases bus_top watched.ok moved top' with before | ⟨queue, w, front, call, rfl⟩
    · have known := watched.known e trusted frames before
      have already := commanded_iff.mpr ⟨frames, before, bus_controls watched.ok action known controls⟩
      rw [other] at already
      cases already
    · subst state
      exact called_commanded env watched.ok front call

/-- Once no handler runs, there is nothing left to know of one. -/
theorem Watched.of_loop (ok : SystemOk s) (doors : ControlDoors s) (loops : s.stack = [.loop] ∨ s.stack = []) :
    Watched s := by
  have unhandled : ∀ e trusted frames, s.stack ≠ .handler e trusted :: frames := by
    intro e trusted frames top
    rcases loops with loop | empty
    · rw [loop] at top
      cases top
    · rw [empty] at top
      cases top
  refine ⟨ok, doors, ?_, ?_⟩
  · intro e trusted frames top
    exact absurd top (unhandled e trusted frames)
  · intro e trusted commands
    obtain ⟨frames, top, _⟩ := commanded_iff.mp commands
    exact absurd top (unhandled e trusted frames)

/-! ## A step of the control Shard -/

-- how a handler ends
inductive Ends : Sb.Input (Unit ⊕ ρ) (ControlMemory ω) → Prop where
  | returns : Ends .handlerReturns
  | throws : Ends .handlerThrows

theorem ended_ends {r : EStateM.Result Failure (Host ρ ω) Unit} (ended : g.ended r = some s') :
    ∃ change call, Ends call ∧ g.onBus call ((leaves r).remembering change) = some s' := by
  cases r with
  | ok u t => exact ⟨id, _, .returns, ended⟩
  | error e t =>
      cases e with
      | threw e => exact ⟨id, _, .throws, ended⟩
      | logicError what => exact ⟨id, _, .throws, ended⟩
      | fault f =>
          simp only [Governed.ended] at ended
          cases run : (g.undefined f).run t.kernel.world.env.memory with
          | ok u memory =>
              rw [run] at ended
              exact ⟨_, _, .returns, ended⟩
          | error e memory =>
              rw [run] at ended
              exact ⟨_, _, .throws, ended⟩

theorem Ends.stack {call : Sb.Input (Unit ⊕ ρ) (ControlMemory ω)} (ends : Ends call) (ok : SystemOk s)
    (action : g.onBus call s = some s') : s'.stack = [.loop] ∨ s'.stack = [] := by
  obtain ⟨m, _, moved, rfl, _⟩ := onBus_some action
  cases ends with
  | returns =>
      rw [hosted, Machine.step] at moved
      split at moved
      · rename_i e trusted frames top
        cases moved
        obtain ⟨_, ⟨impossible, _⟩ | ⟨_, _, _, rfl⟩⟩ := ok.frames top
        · cases impossible
        · exact Or.inl rfl
      · cases moved
  | throws =>
      rw [hosted, Machine.step] at moved
      split at moved
      · rename_i e trusted frames top
        cases moved
        obtain ⟨_, ⟨impossible, _⟩ | ⟨_, _, _, below⟩⟩ := ok.frames top
        · cases impossible
        · exact Or.inr (List.cons.inj below).2
      · cases moved

theorem operated_doors (operated : Operated s s') (doors : ControlDoors s) : ControlDoors s' := by
  obtain ⟨joined, tends, _⟩ := operated.tends
  intro id rec found control
  rcases tends.records id rec found with ⟨old, before, same⟩ | ⟨_, _, library⟩
  · rw [same.accept]
    exact doors id old before (by rw [← same.compiledIn]; exact control)
  · rw [library] at control
    cases control

theorem Heeded.keeps {t : Host ρ ω} (heeded : Heeded g.seam g.native s t) (ok : SystemOk s)
    (doors : ControlDoors s) : SystemOk t ∧ ControlDoors t ∧ t.stack = s.stack := by
  rcases heeded with rfl | ⟨o, action⟩
  · exact ⟨ok, doors, rfl⟩
  · have counting := remembering_ok ok counted
    have operated := step_operated counting.kernel.below (Order.own o) action
    exact ⟨counting.step action, operated_doors operated doors, operated.stack⟩

theorem Watched.control (watched : Watched s) (action : g.step .control s = some s') : Watched s' := by
  rw [Governed.step] at action
  cases commands : commanded s with
  | none =>
      rw [commands] at action
      cases action
  | some handling =>
      obtain ⟨e, trusted⟩ := handling
      rw [commands] at action
      have answers := wp_leaves (control_answers g.seam g.native e.target trusted watched.ok.kernel.below)
      obtain ⟨ok, doors, stack⟩ := Heeded.keeps answers watched.ok watched.doors
      obtain ⟨change, call, ends, closing⟩ := ended_ends action
      have ok' := remembering_ok ok change
      exact .of_loop (onBus_ok ok' closing) (bus_doors ok' doors closing) (ends.stack ok' closing)

theorem Watched.step {input : Governed.Input ρ ω} (watched : Watched s) (action : g.step input s = some s') :
    Watched s' := by
  cases input with
  | control => exact watched.control action
  | bus call =>
      rw [Governed.step] at action
      cases commands : commanded s with
      | none =>
          rw [commands] at action
          exact watched.bus commands action
      | some handling =>
          rw [commands] at action
          cases action

theorem watched_run {memory : ControlMemory ω} {inputs : List (Governed.Input ρ ω)}
    (run : g.Reaches (System.start memory) inputs s) : Watched s :=
  run.invariant (I := Watched) (fun _ _ _ watched action => watched.step action) (.start memory)

/-! ## What a message orders -/

/-- The order in a message, read as the handler reads it. -/
def Demands (msg : Message) (o : Order) : Prop :=
  ∃ shape ∈ controlShard.accept, shape.key = (msg.name, msg.version) ∧
    ∃ obj, fromValue shape msg.payload.raw = .ok obj ∧ order shape obj = some o

/-- No door of the control Shard belongs to another schema with the content id of one of its own. -/
def Unforged (s : Host ρ ω) (id : ShardId) : Prop := ∀ rec, s.kernel.world.sb.find id = some rec →
  ∀ door ∈ rec.accept, ∀ shape ∈ controlShard.accept, ∀ schema, shape.schemaOf = .ok schema →
    door.contentId = schema.contentId → door = schema

theorem order_some {shape : Shape} (listed : shape ∈ controlShard.accept) (obj : shape.Object) :
    ∃ o, order shape obj = some o := by
  have cases : shape = loadLibrary ∨ shape = reloadLibrary ∨ shape = unloadLibrary := by
    simpa [controlShard] using listed
  rcases cases with rfl | rfl | rfl
  · exact ⟨.load obj.1 obj.2.1, rfl⟩
  · exact ⟨.reloadFrom obj.1 obj.2.1, rfl⟩
  · exact ⟨.unload obj.1, rfl⟩

theorem doors_route {c : ShardClass} {doors : List Schema} (h : DoorsOf c doors) (distinct : (c.accept.map Shape.key).Nodup)
    (apart : ∀ door ∈ doors, ∀ shape ∈ c.accept, ∀ schema, shape.schemaOf = .ok schema →
      door.contentId = schema.contentId → door = schema)
    {msg : Message} {door : Schema} (listed : door ∈ doors) (named : (door.name, door.version) = (msg.name, msg.version))
    (admitted : admitLive msg.payload door .firstError = .accept msg.payload) :
    ∃ shape ∈ c.accept, shape.key = (msg.name, msg.version) ∧ ∃ obj, fromValue shape msg.payload.raw = .ok obj ∧
      ∀ (τ : Type) (on : On τ) (self : ShardId), c.handle on self msg = on shape obj ⟨msg, self⟩ := by
  obtain ⟨shape, accepted, schema, derived, identity⟩ := h.shape listed
  have same := apart door listed shape accepted schema derived (congrArg (fun i => i.2.2) identity).symm
  subst same
  have key : shape.key = (msg.name, msg.version) := (schemaOf_key derived).trans named
  obtain ⟨content, conforms⟩ := Proof.admitLive_ok.mp (accepted_of_live admitted)
  obtain ⟨obj, read⟩ := fromValue_reads shape derived msg.payload.raw conforms
  refine ⟨shape, accepted, key, obj, read, ?_⟩
  intro τ on self
  apply handle_calls c on self msg h.typed accepted read
  intro other among schema' derived'
  rw [sameIdentity_iff]
  constructor
  · intro claimed
    refine List.inj_on_of_nodup_map distinct among accepted (Eq.trans ?_ key.symm)
    rw [schemaOf_key derived']
    exact congrArg (fun i => (i.1, i.2.1)) claimed
  · rintro rfl
    rw [derived] at derived'
    cases derived'
    obtain ⟨name, version⟩ := Prod.mk.inj named
    exact Prod.ext name (Prod.ext version content.symm)

def obey (g : Governed ρ ω) (o : Order) : Handler (Host ρ ω) Unit := do
  modify fun s => s.remembering counted
  carryOut g.seam g.native o

theorem Commanded.obeys {e : Envelope} {trusted : Message} (commanded : Commanded s e trusted) (doors : ControlDoors s)
    (controls : controls s e.target = true) (unforged : Unforged s e.target) : ∃ o, Demands e.msg o ∧
      controlShard.handle (controlOn g.seam g.native) e.target trusted = g.obey o := by
  obtain ⟨rec, door, found, matched, admitted⟩ := commanded.routed
  obtain ⟨rec', found', control⟩ := controls_iff.mp controls
  rw [found] at found'
  cases found'
  obtain ⟨listed, name, version⟩ := acceptMatch_eq_some matched
  obtain ⟨shape, accepted, key, obj, read, called⟩ :=
    doors_route (doors _ rec found control) (by decide) (unforged rec found) listed (Prod.ext name version) admitted
  obtain ⟨o, ordered⟩ := order_some accepted obj
  refine ⟨o, ⟨shape, accepted, key, obj, read, ordered⟩, ?_⟩
  rw [commanded.trusted, called]
  unfold controlOn
  rw [ordered]
  rfl

/-! ## Everything else -/

-- the calls that the bus makes on an instance
def Asking : Call → Prop
  | .snapshot .. | .policy .. | .revive .. => True
  | _ => False

/-- The kernel is as it was, and the calls on libraries are such calls. -/
structure SameKernel (P : Call → Prop) (s s' : System ν ς) : Prop where
  libs : s'.kernel.libs = s.kernel.libs
  bound : s'.kernel.bound = s.kernel.bound
  registry : s'.kernel.registry = s.kernel.registry
  calls : Grown P s.kernel.world.env s'.kernel.world.env

theorem adapter_asking {seam : Seam ς} {native : ShardOps ν ς} {P : Call → Prop} (asks : ∀ c, Asking c → P c)
    (adapter : HostAdapter) : Within (hostOps seam native) (Grown P) (.library adapter) := by
  refine ⟨fun env => .refl env, fun env => ?_, fun env => ?_, fun state env => ?_⟩
  · simp only [hostOps, HostAdapter.snapshot, wp_bind, SeamM.snapshot, wp_perform, andThen_ok]
    split
    · exact .one _ (asks _ trivial)
    · rw [wp_admitBytes]
      split <;> exact .one _ (asks _ trivial)
  · simp only [hostOps, HostAdapter.policy, wp_bind, SeamM.policy, wp_perform, andThen_ok]
    split
    · exact .one _ (asks _ trivial)
    · rw [wp_admitBytes]
      split <;> exact .one _ (asks _ trivial)
  · simp only [hostOps, HostAdapter.revive]
    cases serialize state with
    | error e => exact .refl env
    | ok bytes =>
        simp only [wp_bind, SeamM.revive, wp_perform, andThen_ok]
        split <;> exact .one _ (asks _ trivial)

theorem outside_grown {P : Call → Prop} {input : Sb.Input ν ς} {m : Machine (Shard ν) (Foreign ς)}
    (change : Foreign ς → Foreign ς) (outside : hosted input = .outside change) :
    Grown P m.world.env (change m.world.env) := by
  cases input with
  | outside change' =>
      cases outside
      exact ⟨[], by simp⟩
  | _ => cases outside

theorem bus_sameKernel {input : Sb.Input (Unit ⊕ ρ) (ControlMemory ω)} (action : g.onBus input s = some s') :
    SameKernel (fun c => Asking c ∨ Drops s input c) s s' := by
  obtain ⟨m, env, moved, rfl, drops⟩ := onBus_some action
  refine ⟨rfl, rfl, rfl, ?_⟩
  have called : Grown (fun c => Asking c ∨ Drops s input c) s.kernel.world.env m.world.env := by
    refine step_within (R := Grown fun c => Asking c ∨ Drops s input c) .refl .trans ?_ outside_grown moved
    intro shard _
    cases shard with
    | native n => exact native_within n
    | library adapter => exact adapter_asking (fun _ => Or.inl) adapter
  obtain ⟨calls, grown, each⟩ := drops
  exact called.trans _ _ _ ⟨calls, grown, fun c there => Or.inr (each c there)⟩

/-- The kernel has done nothing yet, and no library has been asked for anything. -/
structure Untouched (s : System ν ς) : Prop where
  libs : s.kernel.libs = []
  bound : s.kernel.bound = []
  registry : s.kernel.registry = {}
  calls : s.kernel.world.env.calls = []
  adapters : ∀ id, adapterOf s.kernel.world.sb id = none

theorem Untouched.bus {input : Sb.Input (Unit ⊕ ρ) (ControlMemory ω)} (untouched : Untouched s) (ok : SystemOk s)
    (action : g.onBus input s = some s') : Untouched s' := by
  obtain ⟨m, env, moved, rfl, drops⟩ := onBus_some action
  have nothing : Grown (fun _ => False) s.kernel.world.env m.world.env := by
    refine step_within (R := Grown fun _ => False) .refl .trans ?_ outside_grown moved
    intro shard touches
    cases shard with
    | native n => exact native_within n
    | library adapter =>
        have absent : ∀ id, (s.kernel.world.sb.find id).map ShardRecord.shard ≠ some (.library adapter) := by
          intro id there
          obtain ⟨rec, found, library⟩ := Option.map_eq_some_iff.mp there
          have known := adapterOf_eq_some.mpr ⟨rec, found, library⟩
          rw [untouched.adapters] at known
          cases known
        cases input with
        | registerShard incoming grant =>
            obtain ⟨n, _, other⟩ := Option.map_eq_some_iff.mp touches
            cases other
        | reload id bytes => exact absurd touches (absent id)
        | swapState id bytes => exact absurd touches (absent id)
        | _ => cases touches
  refine ⟨untouched.libs, untouched.bound, untouched.registry, ?_, ?_⟩
  · have none : ∀ c, ¬ Drops s input c := by
      rintro c ⟨id, adapter, _, adapts, _⟩
      rw [untouched.adapters] at adapts
      cases adapts
    obtain ⟨calls, dropped, each⟩ := drops
    obtain ⟨calls', grown, each'⟩ := nothing.trans _ _ _ ⟨calls, dropped, fun c there => none c (each c there)⟩
    have empty : calls' = [] := List.eq_nil_iff_forall_not_mem.mpr each'
    change env.calls = []
    rw [grown, untouched.calls, empty]
    rfl
  · intro id
    have kept := bus_adapters ok.kernel.below (fun id _ => untouched.adapters id) moved id
    exact kept.trans (untouched.adapters id)

/-! ## The authority over the kernel -/

/-- The handler that runs is the control Shard's and no other, and its message was sent by the host itself
or as a Shard that may send it there. -/
def Authorized (s : Host ρ ω) (e : Envelope) : Prop :=
  s.stack = [.handler e e.msg, .loop] ∧ controls s e.target = true ∧ AuthorizedBy s.machine e.seq e.target e.msg

/-- One order is carried out as the host would, and then the handler ends. -/
def Obeyed (g : Governed ρ ω) (s : Host ρ ω) (e : Envelope) (s' : Host ρ ω) : Prop :=
  ∃ o t, Demands e.msg o ∧ System.step g.seam g.native o.input (s.remembering counted) = some t ∧
    (g.onBus .handlerReturns t = some s' ∨
      g.onBus .handlerThrows t = some s' ∧ Fails g.seam g.native o (s.remembering counted).kernel)

theorem step_authorized (watched : Watched s) (action : g.step .control s = some s') :
    ∃ e, Authorized s e ∧ (Unforged s e.target → Obeyed g s e s') := by
  rw [Governed.step] at action
  cases commands : commanded s with
  | none =>
      rw [commands] at action
      cases action
  | some handling =>
      obtain ⟨e, trusted⟩ := handling
      rw [commands] at action
      have commanded := watched.called e trusted commands
      obtain ⟨frames, top, controls⟩ := commanded_iff.mp commands
      obtain ⟨_, ⟨impossible, _⟩ | ⟨_, _, _, rfl⟩⟩ := watched.ok.frames top
      · cases impossible
      · rw [commanded.trusted] at top
        refine ⟨e, ⟨top, controls, commanded.authorized⟩, ?_⟩
        intro unforged
        obtain ⟨o, demands, obeys⟩ := commanded.obeys (g := g) watched.doors controls unforged
        have ended : g.ended ((controlShard.handle (controlOn g.seam g.native) e.target trusted).run s) = some s' := action
        rw [obeys] at ended
        have below : (s.remembering counted).kernel.world.sb.Below := watched.ok.kernel.below
        have spec := carryOut_step g.seam g.native o below
        have begun : (g.obey o).run s = (carryOut g.seam g.native o).run (s.remembering counted) := rfl
        rw [begun] at ended
        cases run : (carryOut g.seam g.native o).run (s.remembering counted) with
        | ok u t =>
            rw [run] at ended
            exact ⟨o, t, demands, (wp_ok spec run).1, Or.inl ended⟩
        | error f t =>
            obtain ⟨moved, ⟨e', rfl⟩, fails⟩ := wp_error spec run
            rw [run] at ended
            exact ⟨o, t, demands, moved, Or.inr ⟨ended, fails⟩⟩

theorem untouched_or_authorized {memory : ControlMemory ω} {inputs : List (Governed.Input ρ ω)}
    (run : g.Reaches (System.start memory) inputs s) : Untouched s ∨
      Passes g.step (fun mid input _ => input = .control ∧ ∃ e, Authorized mid e) (System.start memory) inputs s := by
  induction run with
  | nil => exact Or.inl ⟨rfl, rfl, rfl, rfl, fun _ => rfl⟩
  | @snoc mid s' inputs input run action ih =>
      have watched := watched_run run
      rcases ih with untouched | passes
      · cases input with
        | control =>
            obtain ⟨e, authorized, _⟩ := step_authorized watched action
            exact Or.inr (.now run action ⟨rfl, e, authorized⟩)
        | bus call =>
            rw [Governed.step] at action
            split at action
            · exact Or.inl (untouched.bus watched.ok action)
            · cases action
      · exact Or.inr (passes.later action fun _ _ _ holds => holds)

theorem kernel_answers_to_authority {memory : ControlMemory ω} {inputs : List (Governed.Input ρ ω)}
    (run : g.Reaches (System.start memory) inputs s) :
    (Untouched s ∨
      Passes g.step (fun mid input _ => input = .control ∧ ∃ e, Authorized mid e) (System.start memory) inputs s) ∧
    ∀ input s', g.step input s = some s' →
      match input with
      | .control => ∃ e, Authorized s e ∧ (Unforged s e.target → Obeyed g s e s')
      | .bus call => SameKernel (fun c => Asking c ∨ Drops s call c) s s' := by
  refine ⟨untouched_or_authorized run, ?_⟩
  intro input s' action
  cases input with
  | control => exact step_authorized (watched_run run) action
  | bus call =>
      rw [Governed.step] at action
      split at action
      · exact bus_sameKernel action
      · cases action

end Governed
end Zen.Kernel
