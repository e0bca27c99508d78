import Zen.Proof.Isolation.Mounting

/-!
# What an input does to the links

The links of a host, and what the bus knows of them, are in order in every state that is reached.
-/

namespace Zen.Isolation
open Lib Sb BusM

variable {ν ς : Type}

/-! ## Links and records in order -/

structure HostOk (m : Machine (Shard ν) (Host ς)) : Prop where
  records : RecordsOk m
  below : ∀ p link, m.world.env.heap p = some link → p < m.world.env.nextLink
  tried : ∀ p ∈ m.world.env.respawns, p < m.world.env.nextLink
  sound : ∀ p link, m.world.env.heap p = some link → link.Sound
  cached : ∀ p link, m.world.env.heap p = some link → ∃ door v policy, Cached link door v policy
  known : ∀ p link, m.world.env.heap p = some link → link.id < m.world.sb.nextShardId
  bound : ∀ p link rec, m.world.env.heap p = some link → m.world.sb.find link.id = some rec →
    rec.shard = .proxy p ∧ link.stateSchema = some rec.stateSchema
  owned : ∀ id rec p, m.world.sb.find id = some rec → rec.shard = .proxy p →
    ∃ link, m.world.env.heap p = some link ∧ link.id = id
  listed : ∀ entry ∈ m.world.env.links, ∃ link, m.world.env.heap entry.2 = some link
  apart : (m.world.env.links.map Prod.snd).Nodup

theorem HostOk.start (host : Host ς) : HostOk (System.start host : System ν ς).machine where
  records := RecordsOk.start _
  below := by intro p link found; cases found
  tried := by intro p hp; cases hp
  sound := by intro p link found; cases found
  cached := by intro p link found; cases found
  known := by intro p link found; cases found
  bound := by intro p link rec found; cases found
  owned := by intro id rec p found; cases found
  listed := by intro entry he; cases he
  apart := List.nodup_nil

theorem HostOk.unused {m : Machine (Shard ν) (Host ς)} (ok : HostOk m) :
    m.world.env.heap m.world.env.nextLink = none := by
  cases found : m.world.env.heap m.world.env.nextLink with
  | none => rfl
  | some link => exact absurd (ok.below _ link found) (Nat.lt_irrefl _)

theorem HostOk.boundTo {m : Machine (Shard ν) (Host ς)} (ok : HostOk m) {p : Pointer} {link : Link}
    (mounted : m.world.env.heap p = some link) {door : Schema} (schema : link.stateSchema = some door) :
    Bound p link door m.world := by
  refine ⟨mounted, ?_⟩
  intro rec found
  obtain ⟨proxy, same⟩ := ok.bound p link rec mounted found
  rw [schema] at same
  cases same
  exact ⟨proxy, rfl⟩

/-! ## The code behind an input -/

inductive Ran (native : ShardOps ν ς) (s : System ν ς) : Input ν ς → System ν ς → Prop where
  | configured {enforcement : Capability → Bool} {devMode forceEntryFailure : Bool} :
      Ran native s (.configure enforcement devMode forceEntryFailure)
        (s.withHost { s.host with enforcement, devMode, forceEntryFailure })
  | mounted {name soPath : ByteString} {grant : HostGrant} {answers : MountAnswers} :
      Ran native s (.mount name soPath grant answers)
        (s.mounted grant.sends ((mount native name soPath grant answers).run s.world))
  | unmounted {name : ByteString} : Ran native s (.unmount name) (s.withWorld (leaves ((unmount name).run s.world)))
  | began : Ran native s .step { s with phase := .io s.todo }
  | drained {sends : List SendResult} {recvs : List RecvResult} {p : Pointer} {todo : List Pointer}
      (phase : s.phase = .io (p :: todo)) :
      Ran native s (.drain sends recvs) { s.drain p sends recvs with phase := .io todo }
  | pumped : Ran native s .pump ({ s with phase := .pumping }.after (s.machine.pump, false))
  | supervised {answers : SpawnAnswers} {p : Pointer} {todo : List Pointer} {next : Phase}
      (phase : s.phase = .supervising (p :: todo)) : Ran native s (.supervise answers)
        { s.withWorld (leaves ((supervise native p).run (s.withHost { s.host with answers }).world)) with phase := next }
  | finished : Ran native s .finish { s with phase := .idle }
  | turned {answers : SpawnAnswers} {m : Machine (Shard ν) (Host ς)}
      (machine : Machine.step (proxyOps native) (hosted (.turn : Sb.Input ν ς))
        (s.withHost { s.host with answers }).machine = some m) :
      Ran native s (.bus .turn answers) ((s.withHost { s.host with answers }).after (System.dispatched s.machine.stack m))
  | called {input : Sb.Input ν ς} {answers : SpawnAnswers} {m : Machine (Shard ν) (Host ς)} (plain : input ≠ .turn)
      (machine : Machine.step (proxyOps native) (hosted input) (s.withHost { s.host with answers }).machine = some m) :
      Ran native s (.bus input answers) ((s.withHost { s.host with answers }).after (m, input.throws))

theorem step_ran {native : ShardOps ν ς} {input : Input ν ς} {s s' : System ν ς}
    (action : System.step native input s = some s') : Ran native s input s' := by
  rw [System.step.eq_def] at action
  cases input with
  | configure enforcement devMode forceEntryFailure =>
      cases action
      exact .configured
  | mount name soPath grant answers =>
      simp only at action
      split at action
      case h_3 => cases action
      all_goals
        cases action
        exact .mounted
  | unmount name =>
      have ended : s.withWorld (leaves ((unmount name).run s.world)) = s' → Ran native s (.unmount name) s' := by
        rintro rfl
        exact .unmounted
      simp only at action
      split at action
      case h_3 => cases action
      all_goals
        apply ended
        cases run : (unmount name).run s.world with
        | ok _ w =>
            rw [run] at action
            exact Option.some.inj action
        | error e w =>
            rw [run] at action
            exact Option.some.inj action
  | step =>
      simp only at action
      split at action
      · cases action
        exact .began
      · cases action
  | drain sends recvs =>
      simp only at action
      split at action
      · rename_i p todo phase
        cases action
        exact .drained phase
      · cases action
  | pump =>
      simp only at action
      split at action
      · cases action
        exact .pumped
      · cases action
  | supervise answers =>
      simp only at action
      split at action
      · rename_i p todo phase stack
        have ended : ∀ next, { s.withWorld (leaves ((supervise native p).run (s.withHost { s.host with answers }).world))
            with phase := next } = s' → Ran native s (.supervise answers) s' := by
          rintro next rfl
          exact .supervised phase
        cases run : (supervise native p).run (s.withHost { s.host with answers }).world with
        | ok _ w =>
            simp only [run] at action
            rw [run] at ended
            exact ended (.supervising todo) (Option.some.inj action)
        | error e w =>
            simp only [run] at action
            rw [run] at ended
            exact ended .idle (Option.some.inj action)
      · cases action
  | finish =>
      simp only at action
      split at action
      · cases action
        exact .finished
      · cases action
  | bus input answers =>
      have onBus : System.onBus native input (s.withHost { s.host with answers }) = some s' := by
        simp only at action
        split at action
        · cases action
        · exact action
      obtain ⟨m, machine, rfl⟩ := Option.map_eq_some_iff.mp onBus
      split
      · exact .turned machine
      · rename_i plain
        exact .called plain machine

/-! ## What an input does -/

/-- What the proxy makes of a message. -/
def shipped (link : Link) (msg : Message) : Link :=
  match link.channel, serialize msg.payload with
  | some ch, .ok bytes =>
      { link with channel := some (ch.queue .deliver (deliverPayload (deliverHeader msg) bytes)) }
  | _, _ => link

theorem shipDeliver_spec {h : Host ς} {p : Pointer} {link : Link} (mounted : h.heap p = some link) (msg : Message) :
    wp (shipDeliver p msg) h fun r h' => h' = h.put p (shipped link msg) ∧
      ∀ e, r = .error e → link.channel.isSome ∧ serialize msg.payload = .error e := by
  unfold shipDeliver shipped
  rw [wp_onLink mounted]
  split
  · rename_i none
    rw [wp_pure]
    exact ⟨by simp only [none]; exact (put_self mounted).symm, nofun⟩
  · rename_i ch live
    split
    · rename_i e written
      rw [wp_throw]
      refine ⟨by simp only [live, written]; exact (put_self mounted).symm, ?_⟩
      rintro _ ⟨⟩
      exact ⟨by rw [live]; rfl, written⟩
    · rename_i bytes written
      rw [wp_modify]
      exact ⟨by simp only [live, written], nofun⟩

structure Aside (s s' : System ν ς) : Prop where
  shards : s'.bus.shards = s.bus.shards
  ids : SameIds s.machine s'.machine
  heap : s'.host.heap = s.host.heap
  links : s'.host.links = s.host.links
  nextLink : s.host.nextLink ≤ s'.host.nextLink
  respawns : s'.host.respawns = s.host.respawns

/-- The bus has called the `handle` of a proxy. -/
structure Handled (s : System ν ς) (e : Envelope) (trusted : Message) (p : Pointer) (link : Link)
    (s' : System ν ς) : Prop where
  front : ∃ queue, s.bus.queue = e :: queue
  proxy : proxyOf s.bus e.target = some p
  mounted : s.host.heap p = some link
  alive : ∃ rec, s.bus.find e.target = some rec ∧ rec.alive = true
  handled : s'.world.log.handled = s.world.log.handled ++ [(e.target, trusted)]
  shards : s'.bus.shards = s.bus.shards
  ids : SameIds s.machine s'.machine
  host : ∃ answers, s'.host = { s.host.put p (shipped link trusted) with answers }
  trusted : trusted = e.msg

inductive Stepped (s : System ν ς) : Input ν ς → System ν ς → Prop where
  | aside {input : Input ν ς} {s' : System ν ς} (h : Aside s s') : Stepped s input s'
  | mounted {name soPath : ByteString} {grant : HostGrant} {answers : MountAnswers} {s' : System ν ς} (id : ShardId)
      (link : Link) (rec : ShardRecord (Shard ν)) (taken : Taken name grant.sends s.world s'.world id link rec)
      (registered : s'.machine.registered = s.machine.registered ++ [(id, grant.sends)]) :
      Stepped s (.mount name soPath grant answers) s'
  | unmounted {name : ByteString} {s' : System ν ς} (p : Pointer) (link : Link)
      (released : Released name p link s.world s'.world) (registered : s'.machine.registered = s.machine.registered) :
      Stepped s (.unmount name) s'
  | drained {sends : List SendResult} {recvs : List RecvResult} {s' : System ν ς} (p : Pointer)
      (todo : List Pointer) (link : Link) (ch : Channel) (phase : s.phase = .io (p :: todo))
      (mounted : s.host.heap p = some link) (live : link.channel = some ch)
      (registered : s'.machine.registered = s.machine.registered)
      (world : s'.world = drainChild p sends recvs s.world) : Stepped s (.drain sends recvs) s'
  | supervised {answers : SpawnAnswers} {s' : System ν ς} (p : Pointer) (todo : List Pointer) (link : Link)
      (door : Schema) (v policy : Value) (phase : s.phase = .supervising (p :: todo))
      (mounted : s.host.heap p = some link) (cached : Cached link door v policy) (needy : link.needy = true)
      (recovered : Recovered p link.mourned door v policy
        (stricken p link { s.world with env := { s.host with answers } }) s'.world)
      (registered : s'.machine.registered = s.machine.registered) : Stepped s (.supervise answers) s'
  | called {input : Sb.Input ν ς} {answers : SpawnAnswers} {s' : System ν ς}
      (tended : Tended (comesTo s.bus input) s.host s'.host)
      (reshaped : Reshaped (hosted input).joining s.machine s'.machine)
      (faded : ∀ id < s.bus.nextShardId, input.revives ≠ some id → Faded id s.bus s'.bus) :
      Stepped s (.bus input answers) s'
  | handled {answers : SpawnAnswers} {s' : System ν ς} (e : Envelope) (trusted : Message) (p : Pointer) (link : Link)
      (h : Handled s e trusted p link s') : Stepped s (.bus .turn answers) s'

theorem Reshaped.of_host {joining : Option (Shard ν)} {s : System ν ς} {host : Host ς}
    {m' : Machine (Shard ν) (Host ς)} (h : Reshaped joining (s.withHost host).machine m') :
    Reshaped joining s.machine m' := by
  cases h with
  | same shards ids => exact .same shards ⟨ids.nextShardId, ids.registered⟩
  | updated id f shards ids kept spent saved =>
      exact .updated id f shards ⟨ids.nextShardId, ids.registered⟩ kept spent saved
  | removed id shards ids => exact .removed id shards ⟨ids.nextShardId, ids.registered⟩
  | added rec grant shards nextShardId registered id grants seeded joins =>
      exact .added rec grant shards nextShardId registered id grants seeded joins

theorem Tended.of_answers {target : Option Pointer} {h h' : Host ς} {answers : SpawnAnswers}
    (tended : Tended target { h with answers } h') : Tended target h h' :=
  ⟨tended.links, tended.nextLink, tended.respawned, tended.others, tended.gone, tended.kept, tended.steady⟩

@[simp] theorem after_machine (s : System ν ς) (r : Machine (Shard ν) (Host ς) × Bool) :
    (s.after r).machine = r.1 := by
  unfold System.after
  simp only
  split
  · rfl
  · split
    · rfl
    · split <;> rfl

theorem pump_aside (s : System ν ς) : Aside s ({ s with phase := .pumping }.after (s.machine.pump, false)) := by
  have same : ∀ {m : Machine (Shard ν) (Host ς)} {s' : System ν ς}, s'.machine = m →
      m.world.sb.shards = s.machine.world.sb.shards → SameIds s.machine m → m.world.env = s.machine.world.env →
      Aside s s' := by
    rintro m s' rfl shards ids env
    exact ⟨shards, ids, by rw [System.host, env]; rfl, by rw [System.host, env]; rfl,
      by rw [System.host, System.host, env], by rw [System.host, env]; rfl⟩
  refine same (after_machine _ _) ?_ ?_ ?_
  · unfold Machine.pump
    split <;> rfl
  · unfold Machine.pump
    split <;> exact ⟨rfl, rfl⟩
  · unfold Machine.pump
    split <;> rfl

theorem mount_stepped {native : ShardOps ν ς} {name soPath : ByteString} {grant : HostGrant}
    {answers : MountAnswers} {s : System ν ς} (ok : HostOk s.machine) :
    Stepped s (.mount name soPath grant answers)
      (s.mounted grant.sends ((mount native name soPath grant answers).run s.world)) := by
  have spec := mount_spec native name soPath grant answers ok.unused
  cases run : (mount native name soPath grant answers).run s.world with
  | error e w =>
      obtain ⟨_, impossible, _⟩ := wp_error spec run
      cases impossible
  | ok result w =>
      obtain ⟨_, ⟨⟩, outcome⟩ := wp_ok spec run
      split at outcome
      · rename_i mounted
        obtain ⟨link, rec, taken⟩ := outcome
        refine .mounted result.id link rec taken ?_
        simp only [System.mounted, mounted, if_true]
      · rename_i refused
        refine .aside ⟨outcome.shards, ⟨outcome.nextShardId, ?_⟩, outcome.heap, outcome.links, outcome.nextLink,
          outcome.respawns⟩
        simp only [System.mounted, refused, Bool.false_eq_true, if_false, List.append_nil]

theorem supervise_turn {native : ShardOps ν ς} {s s' : System ν ς} {answers : SpawnAnswers} {p : Pointer}
    {todo : List Pointer} {link : Link} {door : Schema} {v policy : Value} (ok : HostOk s.machine)
    (action : System.step native (.supervise answers) s = some s') (phase : s.phase = .supervising (p :: todo))
    (mounted : s.host.heap p = some link) (cached : Cached link door v policy) :
    s'.machine.registered = s.machine.registered ∧ s'.phase = .supervising todo ∧
      if link.needy then Recovered p link.mourned door v policy
        (stricken p link { s.world with env := { s.host with answers } }) s'.world
      else s'.world = { s.world with env := { s.host with answers } } := by
  have bound := ok.boundTo mounted cached.stateSchema
  have spec := supervise_spec native (w := (s.withHost { s.host with answers }).world) ⟨mounted, bound.proxy⟩ cached
  rw [System.step] at action
  split at action
  · rename_i p' todo' phase' stack
    cases phase.symm.trans phase'
    cases run : (supervise native p).run (s.withHost { s.host with answers }).world with
    | error e w =>
        obtain ⟨impossible, _⟩ := wp_error spec run
        cases impossible
    | ok _ w =>
        simp only [run] at action
        cases action
        exact ⟨rfl, rfl, (wp_ok spec run).2⟩
  · cases action

theorem supervise_skips (native : ShardOps ν ς) {p : Pointer} {w : World (Shard ν) (Host ς)}
    (gone : w.env.heap p = none) : (supervise native p).run w = .ok () w := by
  unfold supervise
  rw [EStateM.run_bind]
  simp only [EStateM.run_get]
  rw [gone]
  rfl

theorem supervise_stepped {native : ShardOps ν ς} {s s' : System ν ς} {answers : SpawnAnswers} (ok : HostOk s.machine)
    (action : System.step native (.supervise answers) s = some s') : Stepped s (.supervise answers) s' := by
  have start := action
  rw [System.step] at start
  split at start
  · rename_i p todo phase stack
    cases mounted : s.host.heap p with
    | none =>
        have gone : (s.withHost { s.host with answers }).world.env.heap p = none := mounted
        simp only [supervise_skips native gone] at start
        cases start
        exact .aside ⟨rfl, ⟨rfl, rfl⟩, rfl, rfl, Nat.le_refl _, rfl⟩
    | some link =>
        obtain ⟨door, v, policy, cached⟩ := ok.cached p link mounted
        obtain ⟨registered, _, outcome⟩ := supervise_turn ok action phase mounted cached
        split at outcome
        · rename_i needy
          exact .supervised p todo link door v policy phase mounted cached needy outcome registered
        · have host : s'.host = { s.host with answers } := congrArg World.env outcome
          have bus : s'.world.sb = s.world.sb := by rw [outcome]
          have bus : s'.bus = s.bus := bus
          exact .aside ⟨by rw [bus], ⟨congrArg Switchboard.nextShardId bus, registered⟩, by rw [host], by rw [host],
            by rw [host], by rw [host]⟩
  · cases start

theorem drain_stepped {native : ShardOps ν ς} {s s' : System ν ς} {sends : List SendResult} {recvs : List RecvResult}
    (action : System.step native (.drain sends recvs) s = some s') : Stepped s (.drain sends recvs) s' := by
  cases step_ran action with
  | @drained _ _ p todo phase =>
      cases mounted : s.host.heap p with
      | none =>
          simp only [System.drain, mounted]
          exact .aside ⟨rfl, ⟨rfl, rfl⟩, rfl, rfl, Nat.le_refl _, rfl⟩
      | some link =>
          simp only [System.drain, mounted]
          cases live : link.channel with
          | some ch => exact .drained p todo link ch phase mounted live rfl rfl
          | none =>
              have found : s.world.env.heap p = some link := mounted
              simp only [drainChild_asleep found live]
              exact .aside ⟨rfl, ⟨rfl, rfl⟩, rfl, rfl, Nat.le_refl _, rfl⟩

theorem called_stepped {native : ShardOps ν ς} {s s' : System ν ς} {answers : SpawnAnswers} {input : Sb.Input ν ς}
    (ok : HostOk s.machine) (action : Machine.step (proxyOps native) (hosted input)
      (s.withHost { s.host with answers }).machine = some s'.machine) : Stepped s (.bus input answers) s' := by
  refine .called (hosted_tended action).of_answers (Reshaped.of_host (step_reshaped action)) ?_
  intro id known other
  have below : (s.withHost { s.host with answers }).machine.world.sb.Below := ok.records.below
  have different : (hosted input).revives ≠ some id := by
    rw [hosted_revives]
    exact other
  have faded := step_faded action below known different
  exact faded

structure Shipped (p : Pointer) (link : Link) (trusted : Message) (m m' : Machine (Shard ν) (Host ς)) : Prop where
  shards : m'.world.sb.shards = m.world.sb.shards
  ids : SameIds m m'
  handled : m'.world.log.handled = m.world.log.handled
  host : m'.world.env = m.world.env.put p (shipped link trusted)

theorem proxyHandles_spec {p : Pointer} {link : Link} (e : Envelope) (trusted : Message) (frames : List Frame)
    {m : Machine (Shard ν) (Host ς)} (mounted : m.world.env.heap p = some link) :
    Shipped p link trusted m (System.proxyHandles p e trusted frames m).1 := by
  have spec := shipDeliver_spec mounted trusted
  unfold System.proxyHandles
  cases run : (shipDeliver p trusted).run m.world.env with
  | ok _ h =>
      obtain ⟨rfl, _⟩ := wp_ok spec run
      exact ⟨rfl, ⟨rfl, rfl⟩, rfl, rfl⟩
  | error e' h =>
      obtain ⟨rfl, _⟩ := wp_error spec run
      exact ⟨rfl, ⟨rfl, rfl⟩, rfl, rfl⟩

theorem handles_handled {s s' : System ν ς} {answers : SpawnAnswers} {e : Envelope} {queue : List Envelope}
    {trusted : Message} {w : World (Shard ν) (Host ς)} {p : Pointer} (ok : HostOk s.machine)
    (front : s.bus.queue = e :: queue)
    (call : CalledTurn ((s.withHost { s.host with answers }).machine.popped e queue) e trusted w)
    (env : w.env = { s.host with answers }) (proxy : proxyOf w.sb e.target = some p)
    (result : s'.machine = (System.proxyHandles p e trusted s.machine.stack
      { s.machine with world := w, stack := .handler e trusted :: s.machine.stack }).1) :
    ∃ link, Handled s e trusted p link s' := by
  have bus : w.sb = { s.bus with queue } := call.bus
  obtain ⟨rec, _, found, alive, _⟩ := call.routed
  have found : s.bus.find e.target = some rec := found
  have proxy' : proxyOf s.bus e.target = some p := by
    rw [bus] at proxy
    exact proxy
  obtain ⟨rec', found', shard⟩ := proxyOf_eq_some.mp proxy'
  obtain ⟨link, mounted, _⟩ := ok.owned e.target rec' p found' shard
  have mounted' : w.env.heap p = some link := by rw [env]; exact mounted
  have spec := proxyHandles_spec e trusted s.machine.stack
    (m := { s.machine with world := w, stack := .handler e trusted :: s.machine.stack }) mounted'
  rw [← result] at spec
  refine ⟨link, ⟨queue, front⟩, proxy', mounted, ⟨rec, found, alive⟩, ?_, ?_, ⟨?_, ?_⟩, ⟨answers, ?_⟩, call.trusted⟩
  · exact spec.handled.trans call.handled
  · refine spec.shards.trans ?_
    rw [bus]
  · refine spec.ids.nextShardId.trans ?_
    rw [bus]
    rfl
  · exact spec.ids.registered
  · refine spec.host.trans ?_
    rw [env]
    rfl

/-- A turn of the pump calls a proxy, or is one of the bus alone. -/
inductive TurnTaken (s : System ν ς) (m : Machine (Shard ν) (Host ς)) (s' : System ν ς) : Prop where
  | proxy (e : Envelope) (trusted : Message) (p : Pointer) (link : Link) (h : Handled s e trusted p link s')
  | plain (machine : s'.machine = m) (handled : m.world.log.handled = s.world.log.handled ∨
      ∃ e trusted, m.world.log.handled = s.world.log.handled ++ [(e, trusted)] ∧ proxyOf s.bus e = none)

theorem turn_taken {native : ShardOps ν ς} {s s' : System ν ς} {answers : SpawnAnswers} (ok : HostOk s.machine)
    {m : Machine (Shard ν) (Host ς)} (action : Machine.step (proxyOps native) (hosted (.turn : Sb.Input ν ς))
      (s.withHost { s.host with answers }).machine = some m)
    (result : s'.machine = (System.dispatched s.machine.stack m).1) : TurnTaken s m s' := by
  have step := action
  rw [hosted, Machine.step] at step
  split at step
  · rename_i frames top
    have env := turn_env (s.withHost { s.host with answers }).machine frames
    have turned := turn_turned (s.withHost { s.host with answers }).machine frames
    have stack : s.machine.stack = .loop :: frames := top
    cases step
    generalize (s.withHost { s.host with answers }).machine.turn frames = m at *
    cases turned with
    | ended =>
        refine .plain ?_ (Or.inl rfl)
        rw [result]
        unfold System.dispatched
        split
        · rename_i e trusted rest top'
          have shorter : rest.length < s.machine.stack.length := by
            have all : frames = .handler e trusted :: rest := top'
            rw [stack, all, List.length_cons, List.length_cons]
            omega
          rw [if_pos shorter]
        · rfl
    | refused e queue w front turn =>
        refine .plain ?_ (Or.inl turn.handled)
        rw [result]
        unfold System.dispatched
        split
        · rename_i e trusted rest top'
          have same : s.machine.stack = .handler e trusted :: rest := top'
          rw [stack] at same
          cases same
        · rfl
    | called e queue trusted w front turn =>
        have pushed : ¬ s.machine.stack.length < s.machine.stack.length := Nat.lt_irrefl _
        cases proxy : proxyOf w.sb e.target with
        | none =>
            have unproxied : proxyOf s.bus e.target = none := by
              rw [show w.sb = { s.bus with queue } from turn.bus] at proxy
              exact proxy
            refine .plain ?_ (Or.inr ⟨e.target, trusted, turn.handled, unproxied⟩)
            rw [result]
            unfold System.dispatched
            simp only [proxy]
            rw [if_neg (by exact pushed)]
        | some p =>
            have handles : ∃ link, Handled s e trusted p link s' := by
              refine handles_handled ok front turn env proxy ?_
              rw [result]
              unfold System.dispatched
              simp only [proxy]
              rw [if_neg (by exact pushed)]
              rfl
            obtain ⟨link, h⟩ := handles
            exact .proxy e trusted p link h
  · cases step

theorem turn_stepped {native : ShardOps ν ς} {s s' : System ν ς} {answers : SpawnAnswers} (ok : HostOk s.machine)
    {m : Machine (Shard ν) (Host ς)} (action : Machine.step (proxyOps native) (hosted (.turn : Sb.Input ν ς))
      (s.withHost { s.host with answers }).machine = some m)
    (result : s'.machine = (System.dispatched s.machine.stack m).1) : Stepped s (.bus .turn answers) s' := by
  cases turn_taken ok action result with
  | proxy e trusted p link h => exact .handled e trusted p link h
  | plain machine handled => exact called_stepped ok (by rw [machine]; exact action)

theorem step_stepped {native : ShardOps ν ς} {input : Input ν ς} {s s' : System ν ς} (ok : HostOk s.machine)
    (action : System.step native input s = some s') : Stepped s input s' := by
  cases step_ran action with
  | configured | began | finished => exact .aside ⟨rfl, ⟨rfl, rfl⟩, rfl, rfl, Nat.le_refl _, rfl⟩
  | mounted => exact mount_stepped ok
  | unmounted =>
      rename_i name
      rcases wp_leaves (wp_mono (unmount_spec name s.world) fun _ _ spec => spec.2) with same | ⟨p, link, released⟩
      · rw [same]
        exact .aside ⟨rfl, ⟨rfl, rfl⟩, rfl, rfl, Nat.le_refl _, rfl⟩
      · exact .unmounted p link released rfl
  | drained phase => exact drain_stepped action
  | pumped => exact .aside (pump_aside s)
  | supervised phase => exact supervise_stepped ok action
  | turned machine => exact turn_stepped ok machine (after_machine _ _)
  | called plain machine => exact called_stepped ok (by rw [after_machine]; exact machine)

end Zen.Isolation
