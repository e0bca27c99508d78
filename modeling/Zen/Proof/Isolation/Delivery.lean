import Zen.Proof.Isolation.Supervision

/-!
# Deliveries to isolated Shards

The bus takes a delivery as made once the `handle` of the proxy has returned. The host keeps its own
account of which children are there, and the two agree as long as no message is taken between the end
of a child and its supervision and no respawn fails.
-/

namespace Zen.Isolation
open Lib Sb BusM

variable {ν ς : Type}

/-! ## Smooth runs -/

/-- The frame is within the cap of a frame and leaves what is queued within the cap of the backlog. -/
def Channel.fits (ch : Channel) (payload : ByteString) : Bool :=
  payload.length ≤ kMaxFrameLen && ch.outbox.length + (5 + payload.length) - ch.outPos ≤ kMaxBacklog

def takes (ch : Channel) (msg : Message) : Bool :=
  !ch.done &&
    match serialize msg.payload with
    | .ok bytes => ch.fits (deliverPayload (deliverHeader msg) bytes)
    | .error _ => true

/-- A turn of the pump finds no end of the child's link that supervision has not dealt with yet, and
the frame fits. -/
def System.turnSmooth (s : System ν ς) : Bool :=
  match s.bus.queue with
  | [] => true
  | e :: _ =>
      match s.bus.find e.target with
      | some { alive := true, shard := .proxy p, .. } =>
          match (s.host.heap p).bind Link.channel with
          | some ch => takes ch e.msg
          | none => true
      | _ => true

/-- A respawn that supervision is about to try completes its handshake. -/
def System.superviseSmooth (s : System ν ς) (answers : SpawnAnswers) : Bool :=
  match s.phase with
  | .supervising (p :: _) =>
      match s.host.heap p with
      | some link =>
          match link.policyValue, s.bus.find link.id with
          | some policy, some rec =>
              !link.needy || decide (maxReloads policy ≤ rec.reloadsUsed) ||
                (respawn s.host.forceEntryFailure answers (teardownChild link.mourned).1).2.2
          | _, _ => true
      | none => true
  | _ => true

def Input.smooth (s : System ν ς) : Input ν ς → Bool
  | .supervise answers => s.superviseSmooth answers
  | .bus .turn _ => s.turnSmooth
  | input => (input.comesTo s).isNone

/-! ## The two accounts agree -/

structure Attended (s : System ν ς) : Prop where
  ok : HostOk s.machine
  calm : ∀ p link, s.host.heap p = some link → link.quarantined = false →
    link.dead = false ∧ link.deathSignaled = false
  served : ∀ p link rec, s.host.heap p = some link → s.bus.find link.id = some rec → rec.alive = true →
    link.quarantined = false ∧ link.channel.isSome = true

theorem Input.smooth_alone {input : Input ν ς} {s : System ν ς} (smooth : input.smooth s = true) (p : Pointer) :
    input.comesTo s ≠ some p := by
  intro comes
  cases input with
  | bus call answers =>
      cases call with
      | reload id bytes | swapState id bytes =>
          simp only [Input.smooth, comes] at smooth
          cases smooth
      | _ => cases comes
  | _ => cases comes

/-- What supervision leaves of a link that needed it. -/
structure Settled (p : Pointer) (link' : Link) (s' : System ν ς) : Prop where
  found : s'.host.heap p = some link'
  calm : link'.quarantined = false → link'.dead = false ∧ link'.deathSignaled = false
  served : ∀ rec, s'.bus.find link'.id = some rec → rec.alive = true →
    link'.quarantined = false ∧ link'.channel.isSome = true

theorem recovered_settled {s s' : System ν ς} {answers : SpawnAnswers} {p : Pointer} {todo : List Pointer} {link : Link}
    {door : Schema} {v policy : Value} (attended : Attended s) (smooth : s.superviseSmooth answers = true)
    (phase : s.phase = .supervising (p :: todo)) (mounted : s.host.heap p = some link)
    (cached : Cached link door v policy) (needy : link.needy = true)
    (recovered : Recovered p link.mourned door v policy
      (stricken p link { s.world with env := { s.host with answers } }) s'.world) :
    ∃ link', Settled p link' s' := by
  have free : link.quarantined = false := by
    simp only [Link.needy, Link.detected] at needy
    cases quarantined : link.quarantined with
    | false => rfl
    | true => simp [quarantined] at needy
  have detected : link.detected = true := by
    have calm := (attended.calm p link mounted free).1
    simpa [Link.needy, calm] using needy
  cases recovered with
  | spent link' ruled buried exhausted bus events revived host =>
      have ruled := link.mourned_ruled.trans ruled
      obtain ⟨calls, host⟩ := host
      refine ⟨link', ?_, ?_, ?_⟩
      · rw [show s'.host = _ from host]
        exact put_heap _ _ _
      · intro free'
        rw [buried.quarantined] at free'
        cases free'
      · intro rec found alive
        have id : link'.id = link.id := by rw [ruled]
        rw [id, show s'.bus = _ from bus] at found
        unfold stricken at found
        rw [if_pos detected] at found
        rw [kill_dead found] at alive
        cases alive
  | tried link' ruled result rec found left bus events revived host spawned =>
      have ruled := link.mourned_ruled.trans ruled
      obtain ⟨calls, host⟩ := host
      have begun := stricken_host (w := { s.world with env := { s.host with answers } }) mounted
      have fine : (respawn s.host.forceEntryFailure answers (teardownChild link.mourned).1).2.2 = true := by
        rw [link.mourned_same.1] at found
        obtain ⟨rec₀, found₀, dulled⟩ :=
          stricken_faded p link { s.world with env := { s.host with answers } } link.id rec found
        have found₀ : s.bus.find link.id = some rec₀ := found₀
        rw [dulled.reloadsUsed] at left
        simp only [System.superviseSmooth, phase, mounted, cached.policyValue, found₀, needy] at smooth
        simpa [Int.not_le.mpr left] using smooth
      have kept : link'.quarantined = false := by
        rw [begun] at spawned
        rw [spawned]
        exact congrArg not fine
      have restored : link'.Restored link.mourned.snapshotBytes := by
        rcases result with buried | restored
        · rw [buried.quarantined] at kept
          cases kept
        · exact restored
      refine ⟨link', ?_, fun _ => ⟨restored.dead, restored.deathSignaled⟩, ?_⟩
      · rw [show s'.host = _ from host]
        exact put_heap _ _ _
      · intro _ _ _
        obtain ⟨fresh, _, channel⟩ := restored.channel
        exact ⟨kept, by rw [channel]; rfl⟩

theorem step_settled {native : ShardOps ν ς} {input : Input ν ς} {s s' : System ν ς} {p : Pointer} {link' : Link}
    (attended : Attended s) (smooth : input.smooth s = true) (action : System.step native input s = some s')
    (found : s'.host.heap p = some link') : Settled p link' s' := by
  have ok := attended.ok
  cases mounted : s.host.heap p with
  | none =>
      obtain ⟨rfl, name, soPath, grant, answers, id, rec, _, taken⟩ := (step_moved ok action).new mounted found
      obtain ⟨dead, signaled, free⟩ := taken.newcomer.living
      obtain ⟨ch, channel, _⟩ := taken.newcomer.channel
      exact ⟨found, fun _ => ⟨dead, signaled⟩, fun _ _ _ => ⟨free, by rw [channel]; rfl⟩⟩
  | some link =>
      cases step_fate ok mounted (input.smooth_alone smooth p) action with
      | released gone count =>
          rw [gone] at found
          cases found
      | spared link₁ spared count faded =>
          cases found.symm.trans spared.found
          obtain ⟨dead, signaled, quarantined⟩ := spared.life
          refine ⟨found, ?_, ?_⟩
          · intro free
            rw [dead, signaled]
            exact attended.calm p link mounted (quarantined.symm.trans free)
          · intro rec' found' alive
            rw [spared.renewed.id] at found'
            obtain ⟨rec, old, dulled⟩ := faded rec' found'
            obtain ⟨free, channel⟩ := attended.served p link rec mounted old (dulled.alive alive)
            exact ⟨quarantined.trans free, spared.awake.trans channel⟩
      | supervised todo door v policy phase cached needy recovered =>
          obtain ⟨link₁, settled⟩ := recovered_settled attended smooth phase mounted cached needy recovered
          cases found.symm.trans settled.found
          exact settled

theorem step_attended {native : ShardOps ν ς} {input : Input ν ς} {s s' : System ν ς} (smooth : input.smooth s = true)
    (attended : Attended s) (action : System.step native input s = some s') : Attended s' where
  ok := step_ok attended.ok action
  calm := fun _ _ found => (step_settled attended smooth action found).calm
  served := fun _ _ rec found => (step_settled attended smooth action found).served rec

theorem Attended.start (host : Host ς) : Attended (System.start host : System ν ς) where
  ok := HostOk.start host
  calm := by intro p link found; cases found
  served := by intro p link rec found; cases found

/-! ## A delivery -/

theorem queue_fits {ch : Channel} (working : ch.done = false) {op : Op} {payload : ByteString}
    (fits : ch.fits payload = true) : ch.queue op payload = { ch with outbox := ch.outbox ++ frameBytes ⟨op, payload⟩ } := by
  have size : (frameBytes ⟨op, payload⟩).length = 5 + payload.length := by
    rw [frameBytes, List.length_append, length_header ⟨op, payload⟩]
  simp only [Channel.done, Bool.or_eq_false_iff] at working
  simp only [Channel.fits, Bool.and_eq_true, decide_eq_true_eq] at fits
  unfold Channel.queue
  rw [working.1]
  simp only [Bool.false_eq_true, if_false, List.length_append, size]
  rw [if_neg (Nat.not_lt.mpr fits.1), if_neg (Nat.not_lt.mpr fits.2)]

/-- The message is on its way to the child, unless it cannot be written down, and then `handle` throws. -/
structure Queued (p : Pointer) (msg : Message) (s s' : System ν ς) : Prop where
  queued : ∃ link ch, s.host.heap p = some link ∧ link.quarantined = false ∧ link.channel = some ch ∧
    ch.failed = false ∧ ch.eof = false ∧ ∀ bytes, serialize msg.payload = .ok bytes →
      s'.host.heap p = some { link with channel := some { ch with
        outbox := ch.outbox ++ frameBytes ⟨.deliver, deliverPayload (deliverHeader msg) bytes⟩ } }

theorem turn_handles {native : ShardOps ν ς} {answers : SpawnAnswers} {s s' : System ν ς} {id : ShardId} {msg : Message}
    {p : Pointer} (ok : HostOk s.machine) (action : System.step native (.bus .turn answers) s = some s')
    (called : s'.world.log.handled = s.world.log.handled ++ [(id, msg)]) (proxy : proxyOf s.bus id = some p) :
    ∃ e link, e.target = id ∧ Handled s e msg p link s' := by
  cases step_ran action with
  | called plain machine => exact absurd rfl plain
  | @turned _ m machine =>
      cases turn_taken ok machine (after_machine _ _) with
      | proxy e trusted q link h =>
          have same := h.handled.symm.trans called
          have last := List.append_cancel_left same
          cases last
          cases proxy.symm.trans h.proxy
          exact ⟨e, link, rfl, h⟩
      | plain same handled =>
          have log := congrArg (fun m : Machine (Shard ν) (Host ς) => m.world.log.handled) same
          have called : m.world.log.handled = s.world.log.handled ++ [(id, msg)] := log.symm.trans called
          rcases handled with none | ⟨other, trusted, handled, native⟩
          · rw [none] at called
            simp at called
          · have last := List.append_cancel_left (handled.symm.trans called)
            cases last
            rw [native] at proxy
            cases proxy

theorem handled_queued {s s' : System ν ς} {e : Envelope} {msg : Message} {p : Pointer} {link : Link}
    (attended : Attended s) (smooth : s.turnSmooth = true) (h : Handled s e msg p link s') : Queued p msg s s' := by
  obtain ⟨rec, found, alive⟩ := h.alive
  obtain ⟨rec', found', shard⟩ := proxyOf_eq_some.mp h.proxy
  cases found.symm.trans found'
  obtain ⟨link', mounted, same⟩ := attended.ok.owned e.target rec p found shard
  cases h.mounted.symm.trans mounted
  obtain ⟨free, awake⟩ := attended.served p link rec mounted (by rw [same]; exact found) alive
  obtain ⟨ch, live⟩ := Option.isSome_iff_exists.mp awake
  have trusted := h.trusted
  subst trusted
  obtain ⟨queue, front⟩ := h.front
  have taken : takes ch e.msg = true := by
    simp only [System.turnSmooth, front, found] at smooth
    obtain ⟨id, _, _, _, _, _, _, _⟩ := rec
    cases shard
    cases alive
    have channel : (s.host.heap p).bind Link.channel = some ch := by rw [h.mounted]; exact live
    simp only [channel] at smooth
    exact smooth
  simp only [takes, Bool.and_eq_true, Bool.not_eq_true'] at taken
  have working := taken.1
  simp only [Channel.done, Bool.or_eq_false_iff] at working
  refine ⟨link, ch, mounted, free, live, working.1, working.2, ?_⟩
  intro bytes written
  have fits := taken.2
  simp only [written] at fits
  rw [(handled_touched h).here]
  simp only [shipped, live, written]
  rw [queue_fits taken.1 fits]

theorem dead_refuses {w : World (Shard ν) (Host ς)} {e : Envelope} {rec : ShardRecord (Shard ν)}
    (found : w.sb.find e.target = some rec) (dead : rec.alive = false) :
    w.deliverOne e = (w.refuse e { reason := .targetUnavailable }, none) := by
  simp [World.deliverOne, found, dead]

theorem deliveries_are_queued {native : ShardOps ν ς} {host : Host ς} {inputs : List (Input ν ς)} {s : System ν ς}
    (run : Reaches native (.start host) inputs s)
    (smooth : Along (System.step native) (fun input s => input.smooth s = true) inputs (.start host)) :
    (∀ p link rec, s.host.heap p = some link → link.quarantined = true → s.bus.find link.id = some rec →
      rec.alive = false ∧ ∀ e : Envelope, e.target = link.id →
        s.world.deliverOne e = (s.world.refuse e { reason := .targetUnavailable }, none)) ∧
    ∀ answers s' id msg p, Input.smooth s (.bus .turn answers : Input ν ς) = true →
      System.step native (.bus .turn answers) s = some s' →
      s'.world.log.handled = s.world.log.handled ++ [(id, msg)] → proxyOf s.bus id = some p → Queued p msg s s' := by
  have attended : Attended s :=
    run.along (I := Attended) (fun _ _ _ smooth attended => step_attended smooth attended) smooth (.start host)
  refine ⟨?_, ?_⟩
  · intro p link rec mounted quarantined found
    have dead : rec.alive = false := by
      cases alive : rec.alive with
      | false => rfl
      | true =>
          have free := (attended.served p link rec mounted found alive).1
          rw [quarantined] at free
          cases free
    refine ⟨dead, ?_⟩
    intro e target
    exact dead_refuses (by rw [target]; exact found) dead
  · intro answers s' id msg p smooth action called proxy
    obtain ⟨e, link, _, h⟩ := turn_handles attended.ok action called proxy
    exact handled_queued attended smooth h

def pingLetter : Input Unit Unit := .bus (.send 1 { payload := pingValue 7 }) {}

theorem deliveries_are_queued_ping : ∃ s s' msg,
    Reaches pingOps pingStart [pingMount, pingLetter, .step, .drain [] [], .pump] s ∧
    System.step pingOps (.bus .turn {}) s = some s' ∧
    s'.world.log.handled = s.world.log.handled ++ [(1, msg)] ∧ Queued 0 msg s s' := by
  have evaluated : ((exec (System.step pingOps) [pingMount, pingLetter, .step, .drain [] [], .pump] pingStart).bind
      fun s => (System.step pingOps (.bus .turn {}) s).map fun s' =>
        decide (Input.smooth s (.bus .turn {} : Input Unit Unit) = true ∧ proxyOf s.bus 1 = some 0 ∧
          s.world.log.handled.length = 0 ∧ s'.world.log.handled.map Prod.fst = [1])) = some true := by
    decide +kernel
  have smooth : Along (System.step pingOps) (fun input s => input.smooth s = true)
      [pingMount, pingLetter, .step, .drain [] [], .pump] pingStart := by
    decide +kernel
  obtain ⟨s, reached, evaluated⟩ := Option.bind_eq_some_iff.mp evaluated
  obtain ⟨s', action, evaluated⟩ := Option.map_eq_some_iff.mp evaluated
  obtain ⟨turn, proxy, before, after⟩ := of_decide_eq_true evaluated
  obtain ⟨⟨id, msg⟩, called, rfl⟩ := List.map_eq_singleton_iff.mp after
  have run := Run.of_exec reached
  have handled : s'.world.log.handled = s.world.log.handled ++ [(1, msg)] := by
    rw [called, List.length_eq_zero_iff.mp before]
    rfl
  exact ⟨s, s', msg, run, action, handled,
    (deliveries_are_queued run smooth).2 {} s' 1 msg 0 turn action handled proxy⟩

-- the child is gone, and no socket can be had for a new one
def pingForsaken : List (Input Unit Unit) := pingCrash ++ [.supervise { socketpair := false }, .finish]

-- the child's end of the socket is closed before the letter is taken
def pingEnded : List (Input Unit Unit) := [pingMount, pingLetter, .step, .drain [] [.data []], .pump]

theorem forsaken_and_ended_shards_lose_letters :
    (∃ s mid s' link rec link', Reaches pingOps pingStart pingForsaken s ∧ s.phase = .idle ∧
      s.host.heap 0 = some link ∧ link.quarantined = true ∧ s.bus.find link.id = some rec ∧ rec.alive = true ∧
      Reaches pingOps s [pingLetter, .step, .drain [] [], .pump] mid ∧ mid.host.heap 0 = some link' ∧
      link'.channel = none ∧ System.step pingOps (.bus .turn {}) mid = some s' ∧
      s'.bus.outcome 1 = ⟨.delivered, {}⟩) ∧
    ∃ s s' link ch, Reaches pingOps pingStart pingEnded s ∧ s.host.heap 0 = some link ∧ link.channel = some ch ∧
      ch.eof = true ∧ System.step pingOps (.bus .turn {}) s = some s' ∧ s'.bus.outcome 1 = ⟨.delivered, {}⟩ := by
  refine ⟨?_, ?_⟩
  · have evaluated : ((exec (System.step pingOps) pingForsaken pingStart).bind fun s =>
        (s.host.heap 0).bind fun link => (s.bus.find link.id).bind fun rec =>
          (exec (System.step pingOps) [pingLetter, .step, .drain [] [], .pump] s).bind fun mid =>
            (mid.host.heap 0).bind fun link' => (System.step pingOps (.bus .turn {}) mid).map fun s' =>
              decide (s.phase = .idle ∧ link.quarantined = true ∧ rec.alive = true ∧ link'.channel = none ∧
                s'.bus.outcome 1 = ⟨.delivered, {}⟩)) = some true := by
      decide +kernel
    obtain ⟨s, reached, evaluated⟩ := Option.bind_eq_some_iff.mp evaluated
    obtain ⟨link, mounted, evaluated⟩ := Option.bind_eq_some_iff.mp evaluated
    obtain ⟨rec, found, evaluated⟩ := Option.bind_eq_some_iff.mp evaluated
    obtain ⟨mid, continued, evaluated⟩ := Option.bind_eq_some_iff.mp evaluated
    obtain ⟨link', mounted', evaluated⟩ := Option.bind_eq_some_iff.mp evaluated
    obtain ⟨s', action, evaluated⟩ := Option.map_eq_some_iff.mp evaluated
    obtain ⟨phase, quarantined, alive, none, outcome⟩ := of_decide_eq_true evaluated
    exact ⟨s, mid, s', link, rec, link', Run.of_exec reached, phase, mounted, quarantined, found, alive,
      Run.of_exec continued, mounted', none, action, outcome⟩
  · have evaluated : ((exec (System.step pingOps) pingEnded pingStart).bind fun s =>
        (s.host.heap 0).bind fun link => link.channel.bind fun ch =>
          (System.step pingOps (.bus .turn {}) s).map fun s' =>
            decide (ch.eof = true ∧ s'.bus.outcome 1 = ⟨.delivered, {}⟩)) = some true := by
      decide +kernel
    obtain ⟨s, reached, evaluated⟩ := Option.bind_eq_some_iff.mp evaluated
    obtain ⟨link, mounted, evaluated⟩ := Option.bind_eq_some_iff.mp evaluated
    obtain ⟨ch, live, evaluated⟩ := Option.bind_eq_some_iff.mp evaluated
    obtain ⟨s', action, evaluated⟩ := Option.map_eq_some_iff.mp evaluated
    obtain ⟨eof, outcome⟩ := of_decide_eq_true evaluated
    exact ⟨s, s', link, ch, Run.of_exec reached, mounted, live, eof, action, outcome⟩

end Zen.Isolation
