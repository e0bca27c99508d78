import Zen.Proof.Isolation.Invariant

/-!
# The snapshot that a child is revived from

The host keeps of each link the last snapshot that the gate let through, as a value and as bytes, and
the two agree. A recovery offers these bytes to the bus, which takes them, and so the new child is sent
them before anything else.
-/

namespace Zen.Isolation
open Lib Sb BusM

variable {ν ς : Type}

/-! ## The last snapshot admitted -/

/-- The snapshots of the link at `p` that an input makes the host admit, in order. -/
def admits (native : ShardOps ν ς) (p : Pointer) : Input ν ς → System ν ς → List ByteString
  | .mount name soPath grant answers, s =>
      if s.host.nextLink = p then
        match (System.step native (.mount name soPath grant answers) s).bind fun s' => s'.host.heap p with
        | some link => [link.snapshotBytes]
        | none => []
      else []
  | .drain sends recvs, s =>
      match s.phase, s.host.heap p with
      | .io (q :: _), some link =>
          match link.channel, link.stateSchema with
          | some ch, some door => if q = p then admitted door (received ch sends recvs).2 else []
          | _, _ => []
      | _, _ => []
  | _, _ => []

/-- The link is still there, and its snapshot is the last one that was admitted. -/
def Refreshes (p : Pointer) (link : Link) (snapshots : List ByteString) (s' : System ν ς) : Prop :=
  ∀ link', s'.host.heap p = some link' → link'.snapshotBytes = snapshots.getLastD link.snapshotBytes

theorem drain_refreshes {native : ShardOps ν ς} {s s' : System ν ς} {sends : List SendResult}
    {recvs : List RecvResult} {p : Pointer} {link : Link} (ok : HostOk s.machine)
    (mounted : s.host.heap p = some link) (action : System.step native (.drain sends recvs) s = some s') :
    Refreshes p link (admits native p (.drain sends recvs) s) s' := by
  intro link' found
  have stepped := step_stepped ok action
  cases step_ran action with
  | @drained _ _ q todo phase =>
      obtain ⟨door, v, policy, cached⟩ := ok.cached p link mounted
      have unchanged : (s.drain q sends recvs).host.heap p = some link → link' = link := by
        intro same
        exact Option.some.inj (found.symm.trans same)
      simp only [admits, phase, mounted, cached.stateSchema]
      by_cases here : q = p
      · subst here
        cases live : link.channel with
        | none =>
            have found' : s.world.env.heap q = some link := mounted
            have same : (s.drain q sends recvs).host.heap q = some link := by
              simp only [System.drain, mounted, drainChild_asleep found' live]
              exact mounted
            rw [unchanged same]
            rfl
        | some ch =>
            have world : System.world { s.drain q sends recvs with phase := .io todo } =
                drainChild q sends recvs s.world := by
              simp only [System.drain, mounted]
              rfl
            have touched := (drained_touched mounted live world).1
            cases found.symm.trans touched.here
            simp only [if_true]
            exact (drainedLink_refreshed link ch sends recvs).bytes door cached.stateSchema
      · have same : (s.drain q sends recvs).host.heap p = some link := by
          cases stepped with
          | aside h => exact (congrFun h.heap p).trans mounted
          | drained q' todo' link₀ ch phase' mounted' live registered world =>
              cases phase.symm.trans phase'
              have touched := (drained_touched mounted' live world).1
              exact (touched.elsewhere (Ne.symm here)).trans mounted
        rw [unchanged same]
        cases link.channel <;> simp [here]

theorem step_refreshes {native : ShardOps ν ς} {input : Input ν ς} {s s' : System ν ς} {p : Pointer} {link : Link}
    (ok : HostOk s.machine) (mounted : s.host.heap p = some link)
    (action : System.step native input s = some s') : Refreshes p link (admits native p input s) s' := by
  have unchanged : ∀ {link' : Link}, s'.host.heap p = some link' → link'.snapshotBytes = link.snapshotBytes →
      admits native p input s = [] → Refreshes p link (admits native p input s) s' := by
    intro link' found bytes none link'' found'
    cases found.symm.trans found'
    rw [none]
    exact bytes
  have known : p ≠ s.host.nextLink := Nat.ne_of_lt (ok.below p link mounted)
  have outcome := step_stepped ok action
  cases input with
  | drain sends recvs => exact drain_refreshes ok mounted action
  | mount name soPath grant answers =>
      have none : admits native p (.mount name soPath grant answers) s = [] := by
        rw [admits, if_neg (Ne.symm known)]
      cases outcome with
      | aside h => exact unchanged ((congrFun h.heap p).trans mounted) rfl none
      | mounted id new rec taken registered =>
          exact unchanged (taken.kept ok mounted) rfl none
  | unmount name =>
      cases outcome with
      | aside h => exact unchanged ((congrFun h.heap p).trans mounted) rfl rfl
      | unmounted q gone released registered =>
          by_cases here : p = q
          · intro link' found
            exact absurd here (released.came found).1
          · exact unchanged (released.kept here mounted) rfl rfl
  | supervise answers =>
      cases outcome with
      | aside h => exact unchanged ((congrFun h.heap p).trans mounted) rfl rfl
      | supervised q todo found door v policy phase mounted' cached needy recovered registered =>
          obtain ⟨link', n, touched, ruled, _⟩ := supervised_touched mounted' recovered
          by_cases here : p = q
          · subst here
            cases mounted.symm.trans mounted'
            exact unchanged touched.here (by rw [ruled]) rfl
          · exact unchanged ((touched.elsewhere here).trans mounted) rfl rfl
  | bus input answers =>
      cases outcome with
      | aside h => exact unchanged ((congrFun h.heap p).trans mounted) rfl rfl
      | called tended reshaped faded =>
          obtain ⟨link', found, rehoused, _⟩ := tended.kept p link mounted
          exact unchanged found (by rw [rehoused]) rfl
      | handled e trusted q found h =>
          have touched := handled_touched h
          by_cases here : p = q
          · subst here
            cases mounted.symm.trans h.mounted
            exact unchanged touched.here (by rw [shipped_rehoused link trusted]) rfl
          · exact unchanged ((touched.elsewhere here).trans mounted) rfl rfl
  | _ =>
      cases outcome with
      | aside h => exact unchanged ((congrFun h.heap p).trans mounted) rfl rfl

theorem step_mounts {native : ShardOps ν ς} {input : Input ν ς} {s s' : System ν ς} {p : Pointer} {link : Link}
    (ok : HostOk s.machine) (unused : s.host.heap p = none) (action : System.step native input s = some s')
    (found : s'.host.heap p = some link) : admits native p input s = [link.snapshotBytes] := by
  obtain ⟨here, name, soPath, grant, answers, id, rec, rfl, _⟩ := (step_moved ok action).new unused found
  rw [admits, if_pos here.symm, action]
  simp only [Option.bind_some, found]

theorem last_admitted {native : ShardOps ν ς} {host : Host ς} {inputs : List (Input ν ς)} {s : System ν ς}
    (run : Reaches native (.start host) inputs s) {p : Pointer} {link : Link} (mounted : s.host.heap p = some link) :
    (outputs (System.step native) (admits native p) inputs (.start host)).getLast? = some link.snapshotBytes := by
  induction run generalizing link with
  | nil => cases mounted
  | snoc run action ih =>
      rename_i mid s' before input
      have ok := host_ok run
      rw [run.outputs_snoc]
      cases earlier : mid.host.heap p with
      | none =>
          rw [step_mounts ok earlier action mounted]
          simp
      | some link₀ =>
          have bytes := step_refreshes ok earlier action link mounted
          have last := ih earlier
          rw [bytes]
          cases List.eq_nil_or_concat (admits native p input mid) with
          | inl none => simpa [none] using last
          | inr some =>
              obtain ⟨init, final, all⟩ := some
              simp [all, ← List.append_assoc]

/-! ## Recovery -/

theorem queue_fresh {ch : Channel} (empty : ch.Fresh) (working : ch.failed = false) {op : Op} {payload : ByteString}
    (fits : 5 + payload.length ≤ kMaxBacklog) :
    ch.queue op payload = { ch with outbox := frameBytes ⟨op, payload⟩ } := by
  have size : (frameBytes ⟨op, payload⟩).length = 5 + payload.length := by
    rw [frameBytes, List.length_append, length_header ⟨op, payload⟩]
  have short : ¬ kMaxFrameLen < payload.length := by
    rw [show kMaxFrameLen = kMaxBacklog from rfl]
    omega
  unfold Channel.queue
  rw [working, empty.outbox, empty.outPos]
  simp only [Bool.false_eq_true, if_false, short, List.nil_append, size]
  rw [if_neg (by omega)]

/-- The recovery of `link` from `v`, which is what it has cached. -/
structure RevivedFrom (p : Pointer) (link : Link) (door : Schema) (v : Value) (s s' : System ν ς) : Prop where
  admitted : s'.world.log.revived = s.world.log.revived ++ [(link.id, door, v)]
  event : ∃ event, s'.world.log.events.getLast? = some event ∧ event.kind = .revived ∧ event.target = link.id ∧
    event.fromLastKnownGood = false
  saved : ∃ rec, s'.bus.find link.id = some rec ∧ rec.lastKnownGood = v
  first : ∃ link', s'.host.heap p = some link' ∧ ∀ ch, link'.channel = some ch →
    ∃ fresh : Channel, fresh.outbox = [] ∧ fresh.outPos = 0 ∧ ch = fresh.queue .revive link.snapshotBytes ∧
      (fresh.failed = false → ch = { fresh with outbox := frameBytes ⟨.revive, link.snapshotBytes⟩ })

theorem recovered_from {s s' : System ν ς} {answers : SpawnAnswers} {p : Pointer} {link : Link} {door : Schema}
    {v policy : Value} {rec : ShardRecord (Shard ν)} (ok : HostOk s.machine) (cached : Cached link door v policy)
    (found : s.bus.find link.id = some rec)
    (left : rec.reloadsUsed < maxReloads policy)
    (recovered : Recovered p link.mourned door v policy
      (stricken p link { s.world with env := { s.host with answers } }) s'.world) :
    RevivedFrom p link door v s s' := by
  obtain ⟨sameId, _, sameBytes⟩ := link.mourned_same
  have log := stricken_log p link { s.world with env := { s.host with answers } }
  cases recovered with
  | spent link' ruled buried exhausted bus events revived host =>
      obtain ⟨rec', found', dulled⟩ :=
        stricken_keeps p link (w := { s.world with env := { s.host with answers } }) found
      have none := exhausted rec' (by rw [sameId]; exact found')
      rw [dulled.reloadsUsed] at none
      omega
  | tried link' ruled result rec' found' left' bus events revived host =>
      rw [sameId] at found' bus events
      rw [sameBytes] at result
      obtain ⟨rec₀, found₀, dulled⟩ :=
        stricken_faded p link { s.world with env := { s.host with answers } } link.id rec' found'
      refine ⟨?_, ⟨World.stateEvent rec' link.id .revived, by rw [events]; simp, rfl, rfl, rfl⟩, ?_, ?_⟩
      · have key : rec'.id = link.id := dulled.kept.id.trans (ok.records.keyed link.id rec₀ found₀)
        rw [revived, log.2, key]
      · refine ⟨comeback v rec', ?_, rfl⟩
        rw [show s'.bus = _ from bus, Switchboard.find, OrdMap.find_update, if_pos rfl]
        exact congrArg (Option.map (comeback v)) found'
      · obtain ⟨calls, host⟩ := host
        refine ⟨link', ?_, ?_⟩
        · rw [show s'.host = _ from host]
          exact put_heap _ _ _
        · intro ch live
          rcases result with buried | restored
          · rw [buried.channel] at live
            cases live
          · obtain ⟨fresh, empty, channel⟩ := restored.channel
            cases channel.symm.trans live
            exact ⟨fresh, empty.outbox, empty.outPos, rfl, fun working => queue_fresh empty working cached.fits⟩

theorem recovery_restores_last_snapshot {native : ShardOps ν ς} {host : Host ς} {inputs : List (Input ν ς)}
    {s : System ν ς} (run : Reaches native (.start host) inputs s) {name : ByteString} {p : Pointer}
    (listed : (name, p) ∈ s.host.links) :
    ∃ link door v policy, s.host.heap p = some link ∧ link.stateSchema = some door ∧ link.snapshotValue = some v ∧
      Accepted door v ∧ serialize v = .ok link.snapshotBytes ∧
      (outputs (System.step native) (admits native p) inputs (.start host)).getLast? = some link.snapshotBytes ∧
      link.policyValue = some policy ∧
      ∀ todo answers s' rec, s.phase = .supervising (p :: todo) → link.needy = true →
        System.step native (.supervise answers) s = some s' → s.bus.find link.id = some rec →
        rec.reloadsUsed < maxReloads policy → RevivedFrom p link door v s s' := by
  have ok := host_ok run
  obtain ⟨link, mounted⟩ := ok.listed (name, p) listed
  obtain ⟨door, v, policy, cached⟩ := ok.cached p link mounted
  refine ⟨link, door, v, policy, mounted, cached.stateSchema, cached.value, accepted_of_bytes cached.admitted,
    cached.written, last_admitted run mounted, cached.policyValue, ?_⟩
  intro todo answers s' rec phase needy action found left
  obtain ⟨_, _, outcome⟩ := supervise_turn ok action phase mounted cached
  rw [if_pos needy] at outcome
  exact recovered_from ok cached found left outcome

def written (v : Value) : ByteString := (serialize v).toOption.getD []

def pingHello : Incoming :=
  ⟨.hello, helloPayload (written (Kernel.encodeManifest [Ping] Ping)) (written pingPolicy) (written (pingValue 0))⟩

def pingSpawn : SpawnAnswers := { hello := [([.data (frameBytes pingHello)], false)] }

def pingGrant : HostGrant :=
  { sends := anyone, os := osCapNetwork, filesystem := .writeAnywhere, resources := { unlimited := true } }

def pingMount : Input Unit Unit := .mount (ascii "ping") (ascii "ping.so") pingGrant { spawn := pingSpawn }

def pingStart : System Unit Unit := .start { memory := () }

-- the child sends a snapshot and is gone
def pingCrash : List (Input Unit Unit) :=
  [pingMount, .step, .drain [] [.data (frameBytes ⟨.snapshot, pingBytes⟩), .data []], .pump, .bus .turn {}]

theorem recovery_restores_last_snapshot_ping : ∃ s s' link door v policy rec,
    Reaches pingOps pingStart pingCrash s ∧ System.step pingOps (.supervise pingSpawn) s = some s' ∧
    s.phase = .supervising [0] ∧ s.host.heap 0 = some link ∧ link.needy = true ∧
    s.bus.find link.id = some rec ∧ rec.reloadsUsed < maxReloads policy ∧ link.snapshotBytes = pingBytes ∧
    RevivedFrom 0 link door v s s' := by
  have evaluated : ((exec (System.step pingOps) pingCrash pingStart).bind fun s =>
      (System.step pingOps (.supervise pingSpawn) s).bind fun _ => (s.host.heap 0).bind fun link =>
        link.policyValue.bind fun policy => (s.bus.find link.id).map fun rec =>
          decide ((ascii "ping", 0) ∈ s.host.links ∧ s.phase = .supervising [0] ∧ link.needy = true ∧
            rec.reloadsUsed < maxReloads policy ∧ link.snapshotBytes = pingBytes)) = some true := by
    decide +kernel
  obtain ⟨s, reached, evaluated⟩ := Option.bind_eq_some_iff.mp evaluated
  obtain ⟨s', action, evaluated⟩ := Option.bind_eq_some_iff.mp evaluated
  obtain ⟨link, mounted, evaluated⟩ := Option.bind_eq_some_iff.mp evaluated
  obtain ⟨policy, declared, evaluated⟩ := Option.bind_eq_some_iff.mp evaluated
  obtain ⟨rec, found, evaluated⟩ := Option.map_eq_some_iff.mp evaluated
  obtain ⟨listed, phase, needy, left, bytes⟩ := of_decide_eq_true evaluated
  have run := Run.of_exec reached
  obtain ⟨link', door, v, policy', mounted', _, _, _, _, _, declared', recovers⟩ :=
    recovery_restores_last_snapshot run listed
  cases mounted.symm.trans mounted'
  cases declared.symm.trans declared'
  exact ⟨s, s', link, door, v, policy, rec, run, action, phase, mounted, needy, found, left, bytes,
    recovers [] pingSpawn s' rec phase needy action found left⟩

end Zen.Isolation
