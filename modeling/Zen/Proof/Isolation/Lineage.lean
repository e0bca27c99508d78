import Zen.Proof.Isolation.Child
import Zen.Proof.Isolation.Snapshot

/-!
# Recovery across the two processes

The host and its children together. As long as every Revive is taken by the library that it is read
for, what the host caches of a respawned child is what it had before, or a state of the line of the
one that it sent.
-/

namespace Zen.Isolation
open Lib Kernel Sb BusM

variable {ν ς τ : Type}

/-! ## What the host does to its end -/

theorem Stage.fails {state : ByteString} {ch ch' : Channel} {c : Child τ} {pending : List Incoming}
    (h : Stage state ch c pending) (failed : ch.failed = true → ch'.failed = true) : Stage state ch' c pending := by
  cases h with
  | unrevived young delivers => exact .unrevived young delivers
  | unheard broken => exact .unheard (failed broken)
  | revived took delivers => exact .revived took delivers

theorem queue_keeps_failed (ch : Channel) (op : Op) (payload : ByteString) (failed : ch.failed = true) :
    (ch.queue op payload).failed = true := by
  unfold Channel.queue
  rw [if_pos failed]
  exact failed

theorem queue_small {ch : Channel} {f : Incoming} (h : (ch.queue f.op f.payload).failed = false) : Small f := by
  have working := queue_failed h
  unfold Channel.queue at h
  rw [working] at h
  simp only [Bool.false_eq_true, if_false] at h
  split at h
  · cases h
  · rename_i fits
    exact Nat.not_lt.mp fits

theorem words_snoc (pending : List Incoming) (f : Incoming) :
    words frameBytes (pending ++ [f]) = words frameBytes pending ++ frameBytes f := by
  rw [words_append, words_cons]
  simp [words]

theorem queue_linked {state : ByteString} {ch : Channel} {c : Child τ} (linked : Linked state ch c)
    (payload : ByteString) : Linked state (ch.queue .deliver payload) c := by
  have keeps := queue_keeps_failed ch .deliver payload
  refine ⟨?_, ?_⟩
  · intro working
    obtain ⟨pending, later, before⟩ := linked.upward (queue_failed working)
    refine ⟨pending, later, ?_, before.whole, before.fits, before.lineal⟩
    have inbox : (ch.queue .deliver payload).inbox = ch.inbox := by
      unfold Channel.queue
      split
      · rfl
      · split
        · rfl
        · simp only
          split <;> rfl
    rw [inbox]
    exact before.stream
  · intro running
    obtain ⟨pending, later, before⟩ := linked.downward running
    cases failed : (ch.queue .deliver payload).failed with
    | true =>
        refine ⟨pending, later, before.stream, ?_, before.small, before.stage.fails fun _ => failed⟩
        intro working
        rw [failed] at working
        cases working
    | false =>
        have working := queue_failed failed
        obtain ⟨rfl, bound⟩ := before.unsent working
        obtain ⟨unsent, inside, _⟩ := @queue_unsent ch ⟨.deliver, payload⟩ bound failed
        refine ⟨pending ++ [⟨.deliver, payload⟩], _, ?_, fun _ => ⟨rfl, inside⟩, ?_, ?_⟩
        · rw [words_snoc, before.stream, unsent]
          simp only [List.append_assoc]
        · exact small_snoc before.small (queue_small failed)
        · have delivers : ∀ {frames : List Incoming}, (∀ f ∈ frames, f.op = .deliver) →
              ∀ f ∈ frames ++ [⟨.deliver, payload⟩], f.op = .deliver := by
            intro frames all f hf
            rcases List.mem_append.mp hf with old | new
            · exact all f old
            · rw [List.mem_singleton.mp new]
          cases before.stage with
          | unrevived young rest => exact .unrevived young (delivers rest)
          | unheard broken =>
              rw [working] at broken
              cases broken
          | revived took rest => exact .revived took (delivers rest)

theorem flush_inbox (ch : Channel) (results : List SendResult) :
    (ch.flush results).1.inbox = ch.inbox ∧ ((ch.flush results).1.failed = false → ch.failed = false) := by
  obtain ⟨inbox, failed⟩ := flushLoop_keeps results ch
  unfold Channel.flush
  split
  · exact ⟨rfl, id⟩
  · simp only
    split
    · exact ⟨inbox, failed⟩
    · split <;> exact ⟨inbox, failed⟩

theorem drained_stream {state : ByteString} {ch : Channel} {c : Child τ} (linked : Linked state ch c)
    (sends : List SendResult) (recvs : List RecvResult) (sent : pollTaken recvs (ch.flush sends).1 <+: c.up)
    (working : (ch.flush sends).1.failed = false) :
    ∃ pending later, Upward state ch c pending later ∧ words frameBytes pending =
      (ch.flush sends).1.inbox ++ (pollTaken recvs (ch.flush sends).1 ++
        (c.up.drop (pollTaken recvs (ch.flush sends).1).length ++ (c.out ++ later))) := by
  obtain ⟨inbox, failed⟩ := flush_inbox ch sends
  obtain ⟨pending, later, before⟩ := linked.upward (failed working)
  refine ⟨pending, later, before, ?_⟩
  rw [before.stream, inbox]
  obtain ⟨rest, whole⟩ := sent
  rw [← whole, List.drop_left]
  simp only [List.append_assoc]

theorem drained_lineal {state : ByteString} {ch : Channel} {c : Child τ} (linked : Linked state ch c)
    (sends : List SendResult) (recvs : List RecvResult) (sent : pollTaken recvs (ch.flush sends).1 <+: c.up) :
    ∀ f ∈ (received ch sends recvs).2, f.op = .snapshot → c.took = some state ∧ f.payload ∈ c.line := by
  intro f hf snapshot
  cases failed : (ch.flush sends).1.failed with
  | true =>
      have none : (received ch sends recvs).2 = [] := by simp [received, Channel.poll, failed]
      rw [none] at hf
      cases hf
  | false =>
      obtain ⟨pending, later, before, stream⟩ := drained_stream linked sends recvs sent failed
      obtain ⟨left, rfl, _⟩ := poll_pending before.fits stream
      exact before.lineal f (List.mem_append_left _ hf) snapshot

theorem drained_linked {state : ByteString} {ch : Channel} {c c' : Child τ} {sends : List SendResult}
    {recvs : List RecvResult} (linked : Linked state ch c) (drained : c.drained ch sends recvs = some c') :
    Linked state (received ch sends recvs).1 c' := by
  unfold Child.drained at drained
  simp only at drained
  split at drained
  · rename_i sent
    cases drained
    have polled := poll_spec (ch.flush sends).1 recvs
    refine ⟨?_, ?_⟩
    · intro working
      obtain ⟨pending, later, before, stream⟩ := drained_stream linked sends recvs sent (poll_failed working).1
      obtain ⟨left, rfl, tail⟩ := poll_pending before.fits stream
      exact ⟨left, later, tail working, before.whole, fun f hf => before.fits f (List.mem_append_right _ hf),
        fun f hf => before.lineal f (List.mem_append_right _ hf)⟩
    · intro running
      obtain ⟨pending, later, before⟩ := linked.downward running
      cases failed : ch.failed with
      | true =>
          have still : ch.flush sends = (ch, []) := by simp [Channel.flush, failed]
          have same : received ch sends recvs = (ch, []) := by simp [received, still, Channel.poll, failed]
          rw [still, same]
          refine ⟨pending, later, ?_, before.unsent, before.small, before.stage.same rfl⟩
          rw [before.stream, List.append_nil]
      | false =>
          obtain ⟨rfl, bound⟩ := before.unsent failed
          obtain ⟨unsent, inside, _⟩ := flush_unsent sends bound
          refine ⟨pending, (ch.flush sends).1.unsent, ?_, ?_, before.small,
            Stage.fails (before.stage.same rfl) ?_⟩
          · rw [before.stream, ← unsent]
            simp only [List.append_assoc]
          · intro _
            rw [Channel.unsent, Channel.unsent, received, polled.outbox, polled.outPos]
            exact ⟨rfl, inside⟩
          · intro broken
            rw [failed] at broken
            cases broken
  · cases drained

/-! ## A child just started -/

/-- The Hello of a child that is started with `soPath` is not too long for its header. -/
def greetsFitly (lib : Library τ) (soPath : ByteString) (memory : τ) : Bool :=
  (boot lib soPath memory).2.all fun hello => hello.payload.length < 2 ^ 32

structure Booted (r : Child τ × List Incoming) : Prop where
  out : r.1.out = words frameBytes r.2
  quiet : r.1.down = [] ∧ r.1.got = [] ∧ r.1.up = []
  young : r.1.took = none
  greets : ∀ f ∈ r.2, f.op = .hello

theorem greet_hello (lib : Library τ) (soPath : ByteString) (memory : τ) :
    wp (greet lib soPath) memory fun r _ => ∀ x, r = .ok x → x.2.2.op = .hello := by
  -- whatever the library answers, the run has ended or goes on
  have next : ∀ {α : Type} {x : MainM τ α} {f : α → MainM τ (Pointer × Pointer × Incoming)} {memory : τ},
      (∀ a memory, wp (f a) memory fun r _ => ∀ x, r = .ok x → x.2.2.op = .hello) →
      wp (x >>= f) memory fun r _ => ∀ x, r = .ok x → x.2.2.op = .hello := by
    intro α x f memory rest
    rw [wp_bind]
    exact wp_intro (fun a memory' _ => rest a memory') (fun _ _ _ => nofun)
  unfold greet
  refine next fun opened memory => ?_
  split
  · exact nofun
  · refine next fun entry memory => ?_
    split
    · exact nofun
    · exact nofun
    · refine next fun version memory => ?_
      dsimp only
      split
      · exact nofun
      · refine next fun created memory => ?_
        split
        · exact nofun
        refine next fun manifest memory => next fun policy memory => next fun snapshot memory => ?_
        rintro _ ⟨⟩
        rfl

theorem boot_booted (lib : Library τ) (soPath : ByteString) (memory : τ) : Booted (boot lib soPath memory) := by
  unfold boot
  split
  · rename_i abi inst hello memory' run
    refine ⟨?_, ⟨rfl, rfl, rfl⟩, rfl, ?_⟩
    · rw [words_cons]
      simp [words]
    · intro f hf
      rw [List.mem_singleton.mp hf]
      exact wp_ok (greet_hello lib soPath memory) run _ rfl
  · exact ⟨rfl, ⟨rfl, rfl, rfl⟩, rfl, nofun⟩

theorem newborn_linked {lib : Library τ} {input : Input ν ς} {memory : τ} {link : Link} {revival : Option Revival}
    {c : Child τ} (answers : SpawnAnswers) (spoken : input.hello = answers.hello) (state : ByteString)
    (fits : greetsFitly lib link.soPath memory = true)
    (born : newborn lib input memory link revival = some c) :
    Linked state ((greeted answers).queue .revive state) c := by
  unfold newborn at born
  simp only at born
  split at born
  · rename_i sent
    cases born
    have booted := boot_booted lib link.soPath memory
    obtain ⟨down, got, up⟩ := booted.quiet
    have fresh := greeted_fresh answers
    refine ⟨?_, ?_⟩
    · intro working
      have heard : (greeted answers).failed = false := queue_failed working
      obtain ⟨_, _, inbox⟩ := @queue_unsent (greeted answers) ⟨.revive, state⟩
        (by rw [fresh.outPos]; exact Nat.zero_le _) working
      have stream : words frameBytes (boot lib link.soPath memory).2 = ({} : Channel).inbox ++
          (helloTaken answers.hello {} ++ (boot lib link.soPath memory).1.out.drop (helloTaken answers.hello {}).length) := by
        rw [← booted.out]
        obtain ⟨rest, whole⟩ := sent
        rw [spoken] at whole
        rw [← whole, List.drop_left]
        rfl
      obtain ⟨left, sub, tail⟩ := waitForHello_pending answers.hello
        (fun g hg => by simpa using List.all_eq_true.mp fits g hg) stream heard
      refine ⟨left, [], ?_, fun _ => rfl, ?_, ?_⟩
      · rw [tail, inbox, up, spoken, List.append_nil]
        rfl
      · intro f hf
        simpa using List.all_eq_true.mp fits f (sub f hf)
      · intro f hf snapshot
        rw [booted.greets f (sub f hf)] at snapshot
        cases snapshot
    · intro running
      cases failed : ((greeted answers).queue .revive state).failed with
      | true =>
          refine ⟨[], [], ?_, ?_, nofun, .unheard failed⟩
          · rw [down, got]
            rfl
          · intro working
            rw [failed] at working
            cases working
      | false =>
          obtain ⟨unsent, inside, _⟩ := @queue_unsent (greeted answers) ⟨.revive, state⟩
            (by rw [fresh.outPos]; exact Nat.zero_le _) failed
          refine ⟨[⟨.revive, state⟩], _, ?_, fun _ => ⟨rfl, inside⟩, ?_, .unrevived booted.young nofun⟩
          · rw [unsent, down, got, Channel.unsent, fresh.outbox, words_cons]
            simp [words]
          · intro f hf
            rw [List.mem_singleton.mp hf]
            exact queue_small failed
  · cases born

/-! ## Respawns that the bus is asked for -/

/-- The link has been left alone, or revived with a state that is written down. -/
def Visited (p : Pointer) (link : Link) (w w' : World (Shard ν) (Host ς)) : Prop :=
  w'.env = w.env ∨ ∃ id schema v calls, w'.log.revived = w.log.revived ++ [(id, schema, v)] ∧
    w'.env = w.env.revived p link v calls

section
variable (native : ShardOps ν ς) {p : Pointer} {link : Link} {w : World (Shard ν) (Host ς)}
  {rec : ShardRecord (Shard ν)}

theorem revive_visited {α : Type} (proxy : rec.shard = .proxy p) (mounted : w.env.heap p = some link) (state : Value)
    {rest : Unit → BusM (Shard ν) (Host ς) α}
    (keeps : ∀ w', wp (rest ()) w' fun _ w'' => w''.env = w'.env ∧ w''.log.revived = w'.log.revived) :
    wp (revive (proxyOps native) rec state >>= rest) w fun _ w' => Visited p link w w' := by
  rw [wp_bind, wp_revive, proxy]
  apply wp_mono (respawnAndRevive_spec mounted state)
  rintro (e | _) _ ⟨rfl, _⟩
  · exact Or.inr ⟨_, _, state, _, rfl, rfl⟩
  · rw [andThen_ok]
    apply wp_mono (keeps _)
    rintro r w' ⟨env, revived⟩
    exact Or.inr ⟨_, _, state, _, revived, env⟩

theorem policy_asked {shard : Shard ν} (proxy : shard = .proxy p) {Q : Except Exn Value → World (Shard ν) (Host ς) → Prop}
    (given : ∀ r, Q r w) : wp (callback ((proxyOps native).policy shard)) w Q := by
  rw [wp_callback, proxy]
  simp only [proxyOps, wp_bind, wp_get, andThen_ok]
  unfold cached
  split
  · exact given _
  · exact given _

theorem reload_visited {id : ShardId} (found : w.sb.find id = some rec) (proxy : rec.shard = .proxy p)
    (mounted : w.env.heap p = some link) (bytes : ByteString) :
    wp (reload (proxyOps native) id bytes) w fun _ w' => Visited p link w w' := by
  unfold reload
  rw [wp_bind, wp_get, andThen_ok, found]
  simp only
  rw [wp_bind]
  refine policy_asked native proxy ?_
  rintro (e | declared)
  · exact Or.inl rfl
  have revives : ∀ {α : Type} (state : Value) {rest : Unit → BusM (Shard ν) (Host ς) α},
      (∀ w', wp (rest ()) w' fun _ w'' => w''.env = w'.env ∧ w''.log.revived = w'.log.revived) →
      wp (revive (proxyOps native) rec state >>= rest)
        { w with log := { w.log with gated := w.log.gated ++ [(declared, lifecyclePolicySchema)] } }
        fun _ w' => Visited p link w w' := by
    intro α state rest keeps
    exact wp_mono (revive_visited native (w := { w with log := { w.log with
      gated := w.log.gated ++ [(declared, lifecyclePolicySchema)] } }) proxy mounted state keeps)
      fun _ _ visited => visited
  rw [andThen_ok, wp_bind, wp_gate, andThen_ok]
  split
  · exact Or.inl rfl
  · split
    · exact Or.inl rfl
    · split
      · refine revives _ ?_
        intro w'
        exact ⟨rfl, rfl⟩
      · dsimp only
        split
        · refine revives _ ?_
          intro w'
          exact ⟨rfl, rfl⟩
        · exact Or.inl rfl

theorem swapState_visited {id : ShardId} (found : w.sb.find id = some rec) (proxy : rec.shard = .proxy p)
    (mounted : w.env.heap p = some link) (bytes : ByteString) :
    wp (swapState (proxyOps native) id bytes) w fun _ w' => Visited p link w w' := by
  unfold swapState
  rw [wp_bind, wp_get, andThen_ok, found]
  simp only
  split
  · exact Or.inl rfl
  · refine revive_visited native proxy mounted _ ?_
    intro w'
    exact ⟨rfl, rfl⟩

end

theorem called_visited {native : ShardOps ν ς} {s s' : System ν ς} {input : Sb.Input ν ς} {answers : SpawnAnswers}
    {p : Pointer} {link : Link} (action : System.step native (.bus input answers) s = some s')
    (mounted : s.host.heap p = some link) (comes : comesTo s.bus input = some p) :
    Visited p link { s.world with env := { s.host with answers } } s'.world := by
  obtain ⟨id, revives, proxy⟩ := Option.bind_eq_some_iff.mp comes
  obtain ⟨rec, found, proxy⟩ := proxyOf_eq_some.mp proxy
  cases step_ran action with
  | turned machine => cases revives
  | called plain machine =>
      cases input with
      | reload id bytes =>
          cases revives
          cases machine
          simp only [System.world, after_machine, ended_world]
          exact wp_leaves (reload_visited native (w := (s.withHost { s.host with answers }).machine.world) found proxy
            mounted bytes)
      | swapState id bytes =>
          cases revives
          cases machine
          simp only [System.world, after_machine, ended_world]
          exact wp_leaves (swapState_visited native (w := (s.withHost { s.host with answers }).machine.world) found
            proxy mounted bytes)
      | _ => cases revives

/-! ## A link's fare -/

/-- What an input does to the link at `p`. -/
inductive Fared (s s' : System ν ς) (p : Pointer) (link : Link) (input : Input ν ς) : Prop where
  | same (heap : s'.host.heap p = some link) (steady : s'.host.respawns.count p = s.host.respawns.count p)
      (idle : ∀ sends recvs, input = .drain sends recvs → input.concerns s = some p → link.channel = none)
  | lost (gone : ∀ link', s'.host.heap p = some link' → link'.channel = none) (mine : input.concerns s = some p)
  | handed (msg : Message) (heap : s'.host.heap p = some (shipped link msg)) (aside : input.concerns s ≠ some p)
  | drained (sends : List SendResult) (recvs : List RecvResult) (ch : Channel) (turn : input = .drain sends recvs)
      (live : link.channel = some ch) (heap : s'.host.heap p = some (drainedLink link ch sends recvs))
      (steady : s'.host.respawns.count p = s.host.respawns.count p) (mine : input.concerns s = some p)
  | respawned (link' : Link) (answers : SpawnAnswers) (heap : s'.host.heap p = some link')
      (mine : input.concerns s = some p) (grown : s.host.respawns.count p < s'.host.respawns.count p)
      (hello : input.hello = answers.hello)
      (rest : link'.soPath = link.soPath ∧ link'.snapshotBytes = link.snapshotBytes)
      (opened : ∀ state ch, revivedState s s' = some state → link'.channel = some ch →
        ch = (greeted answers).queue .revive state)

theorem revivedState_eq {s s' : System ν ς} {id : ShardId} {schema : Schema} {v : Value}
    (revived : s'.world.log.revived = s.world.log.revived ++ [(id, schema, v)]) :
    revivedState s s' = (serialize v).toOption := by
  unfold revivedState
  rw [revived, List.drop_left]

theorem drain_fared {native : ShardOps ν ς} {s s' : System ν ς} {sends : List SendResult} {recvs : List RecvResult}
    {p : Pointer} {link : Link} (mounted : s.host.heap p = some link)
    (action : System.step native (.drain sends recvs) s = some s') : Fared s s' p link (.drain sends recvs) := by
  cases step_ran action with
  | @drained _ _ q todo phase =>
      have mine : (Input.drain sends recvs : Input ν ς).concerns s = some q := by
        rw [Input.concerns, phase]
      cases found : s.host.heap q with
      | none =>
          have other : q ≠ p := by
            rintro rfl
            rw [mounted] at found
            cases found
          simp only [System.drain, found]
          refine .same mounted rfl ?_
          intro _ _ _ here
          exact absurd (Option.some.inj (mine.symm.trans here)) other
      | some turned =>
          have found' : s.world.env.heap q = some turned := found
          simp only [System.drain, found]
          cases live : turned.channel with
          | none =>
              simp only [drainChild_asleep found' live]
              refine .same mounted rfl ?_
              intro _ _ _ here
              cases mine.symm.trans here
              cases mounted.symm.trans found
              exact live
          | some ch =>
              rw [drainChild_eq found' live sends recvs]
              by_cases here : q = p
              · subst here
                cases mounted.symm.trans found
                exact .drained sends recvs ch rfl live (put_heap _ _ _) rfl mine
              · refine .same ?_ rfl ?_
                · exact (put_heap_ne _ _ (Ne.symm here)).trans mounted
                · intro _ _ _ mine'
                  exact absurd (Option.some.inj (mine.symm.trans mine')) here

theorem supervised_fared {s s' : System ν ς} {answers : SpawnAnswers} {p : Pointer} {todo : List Pointer} {link : Link}
    {door : Schema} {v policy : Value} (phase : s.phase = .supervising (p :: todo))
    (mounted : s.host.heap p = some link) (cached : Cached link door v policy)
    (recovered : Recovered p link.mourned door v policy
      (stricken p link { s.world with env := { s.host with answers } }) s'.world) :
    Fared s s' p link (.supervise answers) := by
  have mine : (Input.supervise answers : Input ν ς).concerns s = some p := by rw [Input.concerns, phase]
  have begun := stricken_host (w := { s.world with env := { s.host with answers } }) mounted
  have log := (stricken_log p link { s.world with env := { s.host with answers } }).2
  have mourned := link.mourned_ruled
  cases recovered with
  | spent link' ruled buried exhausted bus events revived host =>
      obtain ⟨calls, host⟩ := host
      refine .lost ?_ mine
      intro link'' found
      rw [show s'.host = _ from host] at found
      cases (put_heap _ _ _).symm.trans found
      exact buried.channel
  | tried link' ruled result rec found left bus events revived host spawned opened =>
      obtain ⟨calls, host⟩ := host
      have whole := mourned.trans ruled
      refine .respawned link' answers ?_ mine ?_ rfl ?_ ?_
      · rw [show s'.host = _ from host]
        exact put_heap _ _ _
      · rw [show s'.host = _ from host, begun]
        change _ < (s.host.respawns ++ [p]).count p
        rw [List.count_append, List.count_singleton_self]
        exact Nat.lt_succ_self _
      · rw [whole]
        exact ⟨rfl, rfl⟩
      · intro state ch revives live
        rw [log] at revived
        rw [revivedState_eq revived, cached.written] at revives
        cases revives
        have opened := opened ch live
        rw [begun, link.mourned_same.2.2] at opened
        exact opened

theorem called_fared {native : ShardOps ν ς} {s s' : System ν ς} {answers : SpawnAnswers} {input : Sb.Input ν ς}
    {p : Pointer} {link : Link} (action : System.step native (.bus input answers) s = some s')
    (mounted : s.host.heap p = some link) (tended : Tended (comesTo s.bus input) s.host s'.host) :
    Fared s s' p link (.bus input answers) := by
  by_cases comes : comesTo s.bus input = some p
  · have mine : (Input.bus input answers : Input ν ς).concerns s = some p := by
      rw [← comes]
      cases input <;> rfl
    rcases called_visited action mounted comes with same | ⟨id, schema, v, calls, revived, host⟩
    · have host : s'.host = { s.host with answers } := same
      refine .same (by rw [host]; exact mounted) (by rw [host]) ?_
      intro sends recvs impossible
      cases impossible
    · have host : s'.host = Host.revived { s.host with answers } p link v calls := host
      have rehoused := (revivedLink_spec { s.host with answers } link v).1
      refine .respawned (revivedLink { s.host with answers } link v) answers ?_ mine ?_ rfl ?_ ?_
      · rw [host]
        exact put_heap _ _ _
      · rw [host]
        change _ < (s.host.respawns ++ [p]).count p
        rw [List.count_append, List.count_singleton_self]
        exact Nat.lt_succ_self _
      · rw [rehoused]
        exact ⟨rfl, rfl⟩
      · intro state ch revives live
        rw [revivedState_eq revived] at revives
        cases written : serialize v with
        | error e =>
            rw [written] at revives
            cases revives
        | ok bytes =>
            rw [written] at revives
            cases revives
            rcases revivedLink_channel { s.host with answers } link written with ⟨_, none⟩ | ⟨_, channel⟩
            · rw [none] at live
              cases live
            · exact Option.some.inj (live.symm.trans channel)
  · obtain ⟨heap, count⟩ := tended.others p comes
    refine .same (heap.trans mounted) count ?_
    intro sends recvs impossible
    cases impossible

theorem Touched.count {p q : Pointer} {link' : Link} {h h' : Host ς} (t : Touched p link' h h') (other : q ≠ p) :
    h'.respawns.count q = h.respawns.count q := by
  obtain ⟨n, respawns⟩ := t.respawns
  rw [respawns, List.count_append, List.count_replicate, if_neg (by simpa using Ne.symm other)]
  rfl

theorem step_fared {native : ShardOps ν ς} {input : Input ν ς} {s s' : System ν ς} {p : Pointer} {link : Link}
    (ok : HostOk s.machine) (mounted : s.host.heap p = some link)
    (action : System.step native input s = some s') : Fared s s' p link input := by
  by_cases turn : ∃ sends recvs, input = .drain sends recvs
  · obtain ⟨sends, recvs, rfl⟩ := turn
    exact drain_fared mounted action
  have idle : ∀ sends recvs, input = .drain sends recvs → input.concerns s = some p → link.channel = none := by
    intro sends recvs drains
    exact absurd ⟨sends, recvs, drains⟩ turn
  cases step_stepped ok action with
  | aside h => exact .same (by rw [h.heap]; exact mounted) (by rw [h.respawns]) idle
  | mounted id new rec taken registered =>
      refine .same (taken.kept ok mounted) ?_ idle
      rw [show s'.host.respawns = s.host.respawns from taken.respawns]
  | unmounted q gone released registered =>
      by_cases here : q = p
      · subst here
        refine .lost ?_ released.named
        intro link' found
        exact absurd rfl (released.came found).1
      · refine .same (released.kept (Ne.symm here) mounted) ?_ idle
        rw [show s'.host.respawns = s.host.respawns from released.respawns]
  | drained q todo turned ch phase found live registered world => exact absurd ⟨_, _, rfl⟩ turn
  | supervised q todo turned door v policy phase found cached needy recovered registered =>
      by_cases here : q = p
      · subst here
        cases mounted.symm.trans found
        exact supervised_fared phase mounted cached recovered
      · obtain ⟨link', n, touched, _⟩ := supervised_touched found recovered
        exact .same ((touched.elsewhere (Ne.symm here)).trans mounted) (touched.count (Ne.symm here)) idle
  | called tended reshaped faded => exact called_fared action mounted tended
  | handled e trusted q turned h =>
      have touched := handled_touched h
      by_cases here : q = p
      · subst here
        cases mounted.symm.trans h.mounted
        exact .handed trusted touched.here nofun
      · exact .same ((touched.elsewhere (Ne.symm here)).trans mounted) (touched.count (Ne.symm here)) idle

/-! ## Host and children -/

/-- No frame that a child sends is too long for its header, and a library takes every state that it is
revived with. -/
def JointInput.faithful (lib : Library τ) (j : Joint ν ς τ) : JointInput ν ς τ → Bool
  | .child p input =>
      match j.children p with
      | some c => input.faithful lib c
      | none => true
  | .host input memory =>
      match (input.concerns j.system).bind j.system.host.heap with
      | some link => greetsFitly lib link.soPath memory
      | none => true

/-- The host has cached what it had before the respawn, or a snapshot that the child made after its
library had taken the state it was sent. -/
def Revival.Kept (r : Revival) (link : Link) (c : Child τ) : Prop :=
  link.snapshotBytes = r.cached ∨ c.took = some r.state ∧ link.snapshotBytes ∈ c.line

/-- A link and the process at its other end. -/
structure Paired (link : Link) (c : Child τ) : Prop where
  live : link.channel.isSome = true
  kept : ∀ r, c.revival = some r → r.Kept link c
  linked : ∀ r ch, c.revival = some r → link.channel = some ch → Linked r.state ch c

theorem shipped_paired {link : Link} {c : Child τ} (h : Paired link c) (msg : Message) :
    Paired (shipped link msg) c := by
  unfold shipped
  split
  · rename_i ch bytes live written
    refine ⟨rfl, h.kept, ?_⟩
    rintro r _ revival ⟨⟩
    exact queue_linked (h.linked r ch revival live) _
  · exact h

theorem drained_paired {link : Link} {ch : Channel} {c c' : Child τ} {sends : List SendResult}
    {recvs : List RecvResult} (h : Paired link c) (live : link.channel = some ch)
    (drained : c.drained ch sends recvs = some c') : Paired (drainedLink link ch sends recvs) c' := by
  have channel : (drainedLink link ch sends recvs).channel = some (received ch sends recvs).1 := frames_channel _ _
  have refreshed := drainedLink_refreshed link ch sends recvs
  have linked : ∀ r, c.revival = some r → Linked r.state (received ch sends recvs).1 c' := by
    intro r revival
    exact drained_linked (h.linked r ch revival live) drained
  unfold Child.drained at drained
  simp only at drained
  split at drained
  · rename_i sent
    cases drained
    refine ⟨by rw [channel]; rfl, ?_, ?_⟩
    · intro r revival
      rcases refreshed.cache with ⟨_, bytes⟩ | ⟨_, _, _, member, _⟩
      · unfold Revival.Kept
        rw [bytes]
        exact h.kept r revival
      · exact Or.inr (drained_lineal (h.linked r ch revival live) sends recvs sent _ member rfl)
    · intro r ch' revival live'
      rw [channel] at live'
      cases live'
      exact linked r revival
  · cases drained

theorem follow_paired {lib : Library τ} {input : Input ν ς} {memory : τ} {s s' : System ν ς} {p : Pointer}
    {child child' : Option (Child τ)} (fare : ∀ link, s.host.heap p = some link → Fared s s' p link input)
    (mine : input.concerns s = some p)
    (fits : ∀ link, s.host.heap p = some link → greetsFitly lib link.soPath memory = true)
    (before : ∀ c, child = some c → ∃ link, s.host.heap p = some link ∧ Paired link c)
    (followed : follow lib input memory s s' p child = some child') :
    ∀ c', child' = some c' → ∃ link', s'.host.heap p = some link' ∧ Paired link' c' := by
  rintro c' rfl
  unfold follow at followed
  split at followed
  · cases followed
  rename_i link' found
  split at followed
  · cases followed
  rename_i live
  have live : link'.channel.isSome = true := by simpa [Option.isSome_iff_ne_none] using live
  split at followed
  · obtain ⟨c, born, same⟩ := Option.map_eq_some_iff.mp followed
    cases same
    have unrevived : c'.revival = none := by
      unfold newborn at born
      simp only at born
      split at born
      · cases born
        rfl
      · cases born
    refine ⟨link', found, live, ?_, ?_⟩
    · intro r revival
      rw [unrevived] at revival
      cases revival
    · intro r ch revival
      rw [unrevived] at revival
      cases revival
  rename_i link mounted
  cases fare link mounted with
  | same heap steady idle =>
      cases found.symm.trans heap
      rw [if_neg (by omega)] at followed
      split at followed
      · rename_i sends recvs ch opened
        rw [idle sends recvs rfl mine] at opened
        cases opened
      · cases followed
        obtain ⟨link₀, mounted₀, paired⟩ := before c' rfl
        cases mounted.symm.trans mounted₀
        exact ⟨link', heap, paired⟩
  | lost gone _ =>
      rw [gone link' found] at live
      cases live
  | handed msg heap aside => exact absurd mine aside
  | drained sends recvs ch turn opened heap steady _ =>
      subst turn
      rw [if_neg (by omega), opened] at followed
      obtain ⟨c, drained, same⟩ := Option.map_eq_some_iff.mp followed
      cases same
      obtain ⟨c₀, rfl, drained⟩ := Option.bind_eq_some_iff.mp drained
      obtain ⟨link₀, mounted₀, paired⟩ := before c₀ rfl
      cases mounted.symm.trans mounted₀
      exact ⟨_, heap, drained_paired paired opened drained⟩
  | respawned link₁ answers heap _ grown hello rest opened =>
      cases found.symm.trans heap
      rw [if_pos grown] at followed
      obtain ⟨c, born, same⟩ := Option.map_eq_some_iff.mp followed
      cases same
      have revived : c'.revival = (revivedState s s').map fun state => ⟨state, link.snapshotBytes⟩ := by
        have made := born
        unfold newborn at made
        simp only at made
        split at made
        · cases made
          rfl
        · cases made
      refine ⟨link', found, live, ?_, ?_⟩
      · intro r revival
        rw [revived] at revival
        obtain ⟨state, _, rfl⟩ := Option.map_eq_some_iff.mp revival
        exact Or.inl rest.2
      · intro r ch revival channel
        rw [revived] at revival
        obtain ⟨state, revives, rfl⟩ := Option.map_eq_some_iff.mp revival
        rw [opened state ch revives channel]
        refine newborn_linked answers hello state ?_ born
        rw [rest.1]
        exact fits link mounted

structure Joined (j : Joint ν ς τ) : Prop where
  ok : HostOk j.system.machine
  paired : ∀ p c, j.children p = some c → ∃ link, j.system.host.heap p = some link ∧ Paired link c

theorem Joined.start (host : Host ς) : Joined (Joint.start host : Joint ν ς τ) := ⟨HostOk.start host, nofun⟩

theorem host_joined {native : ShardOps ν ς} {lib : Library τ} {input : Input ν ς} {memory : τ} {j j' : Joint ν ς τ}
    (faithful : (JointInput.host input memory).faithful lib j = true) (joined : Joined j)
    (action : Joint.step native lib (.host input memory) j = some j') : Joined j' := by
  obtain ⟨s', taken, rest⟩ := Option.bind_eq_some_iff.mp action
  have fare : ∀ p link, j.system.host.heap p = some link → Fared j.system s' p link input := by
    intro p link mounted
    exact step_fared joined.ok mounted taken
  -- what does not concern a link at most hands it a message
  have elsewhere : ∀ p c, input.concerns j.system ≠ some p → j.children p = some c →
      ∃ link, s'.host.heap p = some link ∧ Paired link c := by
    intro p c other child
    obtain ⟨link, mounted, paired⟩ := joined.paired p c child
    cases fare p link mounted with
    | same heap steady idle => exact ⟨link, heap, paired⟩
    | lost gone mine => exact absurd mine other
    | handed msg heap aside => exact ⟨_, heap, shipped_paired paired msg⟩
    | drained sends recvs ch turn opened heap steady mine => exact absurd mine other
    | respawned link₁ answers heap mine grown hello rest opened => exact absurd mine other
  cases concerns : input.concerns j.system with
  | none =>
      rw [concerns] at rest
      cases rest
      refine ⟨step_ok joined.ok taken, ?_⟩
      intro p c child
      exact elsewhere p c (by rw [concerns]; exact nofun) child
  | some p =>
      rw [concerns] at rest
      obtain ⟨child', followed, made⟩ := Option.map_eq_some_iff.mp rest
      cases made
      refine ⟨step_ok joined.ok taken, ?_⟩
      intro q c child
      by_cases here : q = p
      · subst here
        have child : Function.update j.children q child' q = some c := child
        rw [Function.update_self] at child
        refine follow_paired (fare q) concerns ?_ (joined.paired q) followed c child
        intro link mounted
        rw [JointInput.faithful, concerns, Option.bind_some, mounted] at faithful
        exact faithful
      · have child : Function.update j.children p child' q = some c := child
        rw [Function.update_of_ne here] at child
        refine elsewhere q c ?_ child
        rw [concerns]
        exact fun same => here (Option.some.inj same).symm

theorem child_joined {native : ShardOps ν ς} {lib : Library τ} {p : Pointer} {input : ChildInput} {j j' : Joint ν ς τ}
    (faithful : (JointInput.child p input : JointInput ν ς τ).faithful lib j = true) (joined : Joined j)
    (action : Joint.step native lib (.child p input) j = some j') : Joined j' := by
  obtain ⟨c, child, rest⟩ := Option.bind_eq_some_iff.mp action
  obtain ⟨c', taken, made⟩ := Option.map_eq_some_iff.mp rest
  cases made
  rw [JointInput.faithful, child] at faithful
  refine ⟨joined.ok, ?_⟩
  intro q c₁ child₁
  by_cases here : q = p
  · subst here
    have child₁ : Function.update j.children q (some c') q = some c₁ := child₁
    rw [Function.update_self] at child₁
    cases child₁
    obtain ⟨link, mounted, paired⟩ := joined.paired q c child
    have revival := step_revival taken
    obtain ⟨ch, live⟩ := Option.isSome_iff_exists.mp paired.live
    have next : ∀ r, c'.revival = some r → Linked r.state ch c' ∧ Heirs r.state c c' := by
      intro r revived
      rw [revival] at revived
      exact child_linked faithful (paired.linked r ch revived live) taken
    refine ⟨link, mounted, paired.live, ?_, ?_⟩
    · intro r revived
      rcases paired.kept r (revival ▸ revived) with before | ⟨took, member⟩
      · exact Or.inl before
      · obtain ⟨still, grows⟩ := (next r revived).2 took
        exact Or.inr ⟨still, grows _ member⟩
    · intro r ch' revived live'
      cases live.symm.trans live'
      exact (next r revived).1
  · have child₁ : Function.update j.children p (some c') q = some c₁ := child₁
    rw [Function.update_of_ne here] at child₁
    exact joined.paired q c₁ child₁

theorem joint_joined {native : ShardOps ν ς} {lib : Library τ} {input : JointInput ν ς τ} {j j' : Joint ν ς τ}
    (faithful : input.faithful lib j = true) (joined : Joined j)
    (action : Joint.step native lib input j = some j') : Joined j' := by
  cases input with
  | host input memory => exact host_joined faithful joined action
  | child p input => exact child_joined faithful joined action

/-- In every run in which the libraries take the states that they are revived with, and no child sends a
frame too long for its header, what the host has cached of a respawned child is what it had before, or
a state that the child has come to from the one it was revived with. -/
theorem recovery_keeps_the_line {native : ShardOps ν ς} {lib : Library τ} {host : Host ς}
    {inputs : List (JointInput ν ς τ)} {j : Joint ν ς τ}
    (run : Run (Joint.step native lib) (Joint.start host) inputs j)
    (faithful : Along (Joint.step native lib) (fun input j => input.faithful lib j = true) inputs (Joint.start host))
    {p : Pointer} {link : Link} {c : Child τ} {r : Revival} (mounted : j.system.host.heap p = some link)
    (child : j.children p = some c) (revived : c.revival = some r) :
    link.snapshotBytes = r.cached ∨ c.took = some r.state ∧ link.snapshotBytes ∈ c.line := by
  have joined := run.along (fun _ _ _ => joint_joined) faithful (Joined.start host)
  obtain ⟨link₀, mounted₀, paired⟩ := joined.paired p c child
  cases mounted.symm.trans mounted₀
  exact paired.kept r revived

-- a Shard whose state is the last ping it was sent, with a `revive` of its own
def pingLibrary (revive : ByteString → ByteString → ZenStatus × ByteString) : Library ByteString where
  libOpen _ memory := (.ok 1, memory)
  shardAbi _ memory := (some (some 1), memory)
  libClose _ memory := memory
  abiVersion _ _ := zenAbiVersion
  create _ _ := (some 1, written (pingValue 0))
  destroy _ _ memory := memory
  describe _ _ memory := ((zenOk, written (encodeManifest [Ping] Ping)), memory)
  snapshot _ _ memory := ((zenOk, memory), memory)
  policy _ _ memory := ((zenOk, written pingPolicy), memory)
  revive _ _ := revive
  handle _ _ _ payload _ := ([], payload)

def revivingLibrary : Library ByteString := pingLibrary fun state _ => (zenOk, state)

-- `ZEN_ERR_REFUSED`, and the instance stays as it was created
def refusingLibrary : Library ByteString := pingLibrary fun _ memory => (-2, memory)

def hostly (inputs : List (Input Unit Unit)) : List (JointInput Unit Unit ByteString) :=
  inputs.map fun input => .host input []

-- the child reads a frame with a payload of `n` bytes and sends one with a payload of `k` bytes
def answering (n k : Nat) : List (JointInput Unit Unit ByteString) :=
  [.child 0 (.recv 5), .child 0 (.recv n), .child 0 (.send (5 + k))]

-- the child is sent a ping, says that this is its state now, dies and is respawned, reads the Revive and
-- answers with a snapshot, which the host reads
def pingLineage (answer : ByteString) : List (JointInput Unit Unit ByteString) :=
  hostly [pingMount, .bus (.send 1 { payload := pingValue 5 }) {}, .step, .drain [] [], .pump, .bus .turn {},
    .bus .turn {}, .supervise {}, .finish, .step, .drain [.sent 1000] []] ++
  answering (24 + pingBytes.length) pingBytes.length ++ [.child 0 .dies] ++
  hostly [.pump, .bus .turn {}, .supervise {}, .finish,
    .step, .drain [] [.data (frameBytes ⟨.snapshot, pingBytes⟩), .data []], .pump, .bus .turn {},
    .supervise pingSpawn, .finish, .step, .drain [.sent 1000] []] ++
  answering pingBytes.length answer.length ++
  hostly [.pump, .bus .turn {}, .supervise {}, .finish, .step, .drain [] [.data (frameBytes ⟨.snapshot, answer⟩)]]

theorem recovery_keeps_the_line_ping : ∃ j link c r,
    Run (Joint.step pingOps revivingLibrary) (Joint.start { memory := () }) (pingLineage pingBytes) j ∧
    j.system.host.heap 0 = some link ∧ j.children 0 = some c ∧ c.revival = some r ∧ r.state = pingBytes ∧
    (link.snapshotBytes = r.cached ∨ c.took = some r.state ∧ link.snapshotBytes ∈ c.line) := by
  have evaluated : ((exec (Joint.step pingOps revivingLibrary) (pingLineage pingBytes)
      (Joint.start { memory := () })).bind fun j => (j.system.host.heap 0).bind fun _ => (j.children 0).bind fun c =>
        c.revival.map fun r => decide (r.state = pingBytes)) = some true := by
    decide +kernel
  have faithful : Along (Joint.step pingOps revivingLibrary) (fun input j => input.faithful revivingLibrary j = true)
      (pingLineage pingBytes) (Joint.start { memory := () }) := by
    decide +kernel
  obtain ⟨j, reached, evaluated⟩ := Option.bind_eq_some_iff.mp evaluated
  obtain ⟨link, mounted, evaluated⟩ := Option.bind_eq_some_iff.mp evaluated
  obtain ⟨c, child, evaluated⟩ := Option.bind_eq_some_iff.mp evaluated
  obtain ⟨r, revived, evaluated⟩ := Option.map_eq_some_iff.mp evaluated
  have run := Run.of_exec reached
  exact ⟨j, link, c, r, run, mounted, child, revived, of_decide_eq_true evaluated,
    recovery_keeps_the_line run faithful mounted child revived⟩

/-- The library reports that it has not taken the state, and the host's only copy of it is replaced by
the state of a new instance. -/
theorem refused_revive_resets_state : ∃ j link c,
    Run (Joint.step pingOps refusingLibrary) (Joint.start { memory := () }) (pingLineage (written (pingValue 0))) j ∧
    j.system.host.heap 0 = some link ∧ j.children 0 = some c ∧
    c.revival = some ⟨pingBytes, pingBytes⟩ ∧ link.snapshotBytes = written (pingValue 0) ∧
    ¬ (link.snapshotBytes = pingBytes ∨ c.took = some pingBytes ∧ link.snapshotBytes ∈ c.line) := by
  have evaluated : ((exec (Joint.step pingOps refusingLibrary) (pingLineage (written (pingValue 0)))
      (Joint.start { memory := () })).bind fun j => (j.system.host.heap 0).bind fun link => (j.children 0).map fun c =>
        decide (c.revival = some ⟨pingBytes, pingBytes⟩ ∧ link.snapshotBytes = written (pingValue 0) ∧
          ¬ (link.snapshotBytes = pingBytes ∨ c.took = some pingBytes ∧ link.snapshotBytes ∈ c.line))) = some true := by
    decide +kernel
  obtain ⟨j, reached, evaluated⟩ := Option.bind_eq_some_iff.mp evaluated
  obtain ⟨link, mounted, evaluated⟩ := Option.bind_eq_some_iff.mp evaluated
  obtain ⟨c, child, evaluated⟩ := Option.map_eq_some_iff.mp evaluated
  obtain ⟨revived, bytes, lost⟩ := of_decide_eq_true evaluated
  exact ⟨j, link, c, Run.of_exec reached, mounted, child, revived, bytes, lost⟩

end Zen.Isolation
