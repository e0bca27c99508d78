import Zen.Proof.Isolation.Cleanup
import Zen.Proof.Isolation.Snapshot

/-!
# Children that are vouched for

A child that lives was spawned by the last attempt to spawn one for its link, and each capability that
is to be enforced was confirmed of it before the attempt was over.
-/

namespace Zen.Isolation
open Lib Sb BusM BusHostM

variable {ν ς α : Type}

/-! ## Vouching -/

/-- The last child spawned is `pid`, and what the link has to be sandboxed from was confirmed of it. -/
def Vouched (pid : Pid) (link : Link) (calls : List OsCall) : Prop :=
  ∃ before confirmed after, calls = before ++ .spawn pid :: (confirmed ++ after) ∧
    (∀ c ∈ confirmed, ∃ capability, c = .confirm pid capability) ∧
    (∀ capability, link.sandboxed capability = true → .confirm pid capability ∈ confirmed) ∧
    ∀ other, .spawn other ∉ after

theorem sandboxed_of_intent {link link' : Link} (same : link'.intent = link.intent) :
    link'.sandboxed = link.sandboxed := by
  have read : ∀ link : Link, link.sandboxed = fun capability =>
      match link.intent.find? fun i => i.1 == capability with
      | some i => i.2 == .enforced
      | none => false := by
    intro link
    funext capability
    unfold Link.sandboxed Link.intent
    rw [List.find?_map]
    simp only [Function.comp_def]
    cases link.resolutions.find? fun r => r.capability == capability <;> rfl
  rw [read, read, same]

theorem confirmations_vouch (before : List OsCall) (link : Link) (pid : Pid) :
    Vouched pid link (before ++ .spawn pid :: confirmations link pid) := by
  refine ⟨before, confirmations link pid, [], by rw [List.append_nil], confirmed_confirms List.prefix_rfl, ?_, nofun⟩
  intro capability sandboxed
  refine List.mem_map.mpr ⟨capability, List.mem_filter.mpr ⟨?_, sandboxed⟩, rfl⟩
  cases capability <;> simp

theorem Vouched.intent {pid : Pid} {link link' : Link} {calls : List OsCall} (h : Vouched pid link calls)
    (same : link'.intent = link.intent) : Vouched pid link' calls := by
  obtain ⟨before, confirmed, after, split, confirms, all, last⟩ := h
  refine ⟨before, confirmed, after, split, confirms, fun capability sandboxed => all capability ?_, last⟩
  rwa [sandboxed_of_intent same] at sandboxed

theorem Vouched.later {pid : Pid} {link : Link} {calls more : List OsCall} (h : Vouched pid link calls)
    (childless : ∀ other, .spawn other ∉ more) : Vouched pid link (calls ++ more) := by
  obtain ⟨before, confirmed, after, rfl, confirms, all, last⟩ := h
  refine ⟨before, confirmed, after ++ more, by simp, confirms, all, fun other spawned => ?_⟩
  rcases List.mem_append.mp spawned with early | late
  · exact last other early
  · exact childless other late

theorem Vouched.after {pid : Pid} {link : Link} {calls : List OsCall} (h : Vouched pid link calls)
    (earlier : List OsCall) : Vouched pid link (earlier ++ calls) := by
  obtain ⟨before, confirmed, after, rfl, rest⟩ := h
  exact ⟨earlier ++ before, confirmed, after, by rw [List.append_assoc], rest⟩

/-! ## What happens to a link -/

/-- The child of a link is as it was, or it was spawned on the way and is vouched for. -/
inductive Reared (p : Pointer) (h h' : Host ς) (calls : List OsCall) (link' : Link) : Prop where
  | kept {link : Link} (mounted : h.heap p = some link) (live : link.channel.isSome = true)
      (pid : link'.pid = link.pid) (untried : h'.respawns.count p = h.respawns.count p)
      (childless : ∀ other, .spawn other ∉ calls)
  | spawned {pid : Pid} (known : link'.pid = some pid) (tried : h.respawns.count p < h'.respawns.count p)
      (vouched : Vouched pid link' calls)

/-- What was done for the link at `target`, with its calls. -/
structure Guarding (target : Option Pointer) (h h' : Host ς) (made : List OsCall) : Prop where
  calls : h'.calls = h.calls ++ made
  nextLink : h'.nextLink = h.nextLink
  others : ∀ p, target ≠ some p → h'.heap p = h.heap p ∧ h'.respawns.count p = h.respawns.count p
  grows : ∀ p, h.respawns.count p ≤ h'.respawns.count p
  intent : ∀ p link', h'.heap p = some link' → ∃ link, h.heap p = some link ∧ link'.intent = link.intent
  child : ∀ p link', target = some p → h'.heap p = some link' → link'.channel.isSome = true →
    Reared p h h' made link'

def Guarded (target : Option Pointer) (h h' : Host ς) : Prop := ∃ made, Guarding target h h' made

theorem Guarded.idle (target : Option Pointer) {h h' : Host ς} (calls : h'.calls = h.calls)
    (nextLink : h'.nextLink = h.nextLink) (heap : h'.heap = h.heap) (respawns : h'.respawns = h.respawns) :
    Guarded target h h' := by
  refine ⟨[], by rw [calls, List.append_nil], nextLink, fun _ _ => by rw [heap, respawns]; exact ⟨rfl, rfl⟩,
    fun _ => by rw [respawns], ?_, ?_⟩
  · intro p link' found
    rw [heap] at found
    exact ⟨link', found, rfl⟩
  · intro p link' _ found live
    rw [heap] at found
    exact .kept found live rfl (by rw [respawns]) nofun

theorem Guarded.refl (target : Option Pointer) (h : Host ς) : Guarded target h h := .idle target rfl rfl rfl rfl

theorem Guarded.trans {target : Option Pointer} {h mid h' : Host ς} (first : Guarded target h mid)
    (second : Guarded target mid h') : Guarded target h h' := by
  obtain ⟨calls₁, first⟩ := first
  obtain ⟨calls₂, second⟩ := second
  refine ⟨calls₁ ++ calls₂, ?_, second.nextLink.trans first.nextLink, ?_, ?_, ?_, ?_⟩
  · rw [second.calls, first.calls, List.append_assoc]
  · intro p other
    obtain ⟨heap, count⟩ := first.others p other
    obtain ⟨heap', count'⟩ := second.others p other
    exact ⟨heap'.trans heap, count'.trans count⟩
  · intro p
    exact Nat.le_trans (first.grows p) (second.grows p)
  · intro p link' found
    obtain ⟨between, found, same'⟩ := second.intent p link' found
    obtain ⟨link, found, same⟩ := first.intent p between found
    exact ⟨link, found, same'.trans same⟩
  · intro p link' here found live
    have grows := first.grows p
    have grows' := second.grows p
    cases second.child p link' here found live with
    | spawned known tried vouched => exact .spawned known (by omega) (vouched.after calls₁)
    | kept mounted live₁ pid untried childless =>
        obtain ⟨between, mounted₂, same⟩ := second.intent p link' found
        cases mounted.symm.trans mounted₂
        cases first.child p _ here mounted live₁ with
        | kept mounted₀ live₀ pid₀ untried₀ childless₀ =>
            refine .kept mounted₀ live₀ (pid.trans pid₀) (untried.trans untried₀) fun other spawned => ?_
            rcases List.mem_append.mp spawned with early | late
            · exact childless₀ other early
            · exact childless other late
        | spawned known tried vouched =>
            exact .spawned (pid.trans known) (by omega) ((vouched.later childless).intent same)

theorem Guarded.touched {p : Pointer} {link link' : Link} {h h' : Host ς} {calls : List OsCall}
    (mounted : h.heap p = some link) (host : h' = (h.put p link').called calls) (intent : link'.intent = link.intent)
    (childless : ∀ other, .spawn other ∉ calls)
    (child : link'.channel.isSome = true → link.channel.isSome = true ∧ link'.pid = link.pid) :
    Guarded (some p) h h' := by
  subst host
  have here : ((h.put p link').called calls).heap p = some link' := put_heap ..
  refine ⟨calls, rfl, rfl, ?_, fun _ => Nat.le_refl _, ?_, ?_⟩
  · intro q other
    exact ⟨put_heap_ne h link' fun same => other (congrArg some same).symm, rfl⟩
  · intro q link₁ found
    by_cases same : q = p
    · subst same
      cases here.symm.trans found
      exact ⟨link, mounted, intent⟩
    · refine ⟨link₁, ?_, rfl⟩
      rw [← found]
      exact (put_heap_ne h link' same).symm
  · rintro q link₁ ⟨⟩ found live
    cases here.symm.trans found
    obtain ⟨live, pid⟩ := child live
    exact .kept mounted live pid rfl childless

/-! ## Respawns -/

theorem teardown_childless (link : Link) (other : Pid) : .spawn other ∉ (teardownChild link).2 := by
  unfold teardownChild
  cases link.pid <;> by_cases root : link.fsRoot = [] <;> by_cases leaf : link.cgLeaf = [] <;> simp [root, leaf]

theorem respawn_vouched (force : Bool) (a : SpawnAnswers) (link : Link) :
    (respawn force a link).1.intent = link.intent ∧ ((respawn force a link).1.channel.isSome = true →
      ∃ pid, (respawn force a link).1.pid = some pid ∧
        Vouched pid (respawn force a link).1 (respawn force a link).2.1) := by
  obtain ⟨before, started, ended⟩ := respawn_cases force a link
  have same : before.link.intent = link.intent := by
    rcases started with same | same
    · rw [same]
    · rw [same]
      rfl
  rcases ended with ⟨hello, s, run, result⟩ | ⟨e, s, run, result⟩
  · obtain ⟨intent, made, asked, ended⟩ := wp_ok (spawnAndHandshake_calls force a before) run
    rw [result]
    refine ⟨intent.trans same, fun _ => ?_⟩
    cases ended with
    | spawned _ known =>
        refine ⟨_, known, ?_⟩
        dsimp only
        rw [asked, ← List.append_assoc]
        exact (confirmations_vouch _ before.link _).intent intent
  · obtain ⟨intent, _⟩ := wp_error (spawnAndHandshake_calls force a before) run
    rw [result]
    refine ⟨intent.trans same, ?_⟩
    intro live
    cases live

theorem revivedLink_vouched (h : Host ς) (link : Link) (state : Value) :
    (revivedLink h link state).intent = link.intent ∧ ((revivedLink h link state).channel.isSome = true →
      ∃ pid, (revivedLink h link state).pid = some pid ∧
        Vouched pid (revivedLink h link state) (respawn h.forceEntryFailure h.answers link).2.1) := by
  obtain ⟨intent, vouched⟩ := respawn_vouched h.forceEntryFailure h.answers link
  unfold revivedLink
  simp only
  split
  · refine ⟨intent, fun live => ?_⟩
    rw [Link.queue, Option.isSome_map] at live
    obtain ⟨pid, known, vouched⟩ := vouched live
    exact ⟨pid, known, vouched.intent rfl⟩
  · exact ⟨intent, vouched⟩

theorem revived_guarded {h : Host ς} {p : Pointer} {link : Link} (found : h.heap p = some link) (state : Value) :
    Guarded (some p) h (h.revived p link state (respawn h.forceEntryFailure h.answers link).2.1) := by
  obtain ⟨intent, vouched⟩ := revivedLink_vouched h link state
  generalize respawn h.forceEntryFailure h.answers link = spawned at vouched
  have tended := revived_tended found state spawned.2.1
  have here : (h.revived p link state spawned.2.1).heap p = some (revivedLink h link state) := put_heap ..
  refine ⟨spawned.2.1, rfl, rfl, tended.others, fun q => (tended.steady q).1, ?_, ?_⟩
  · intro q link' found'
    by_cases same : q = p
    · subst same
      cases here.symm.trans found'
      exact ⟨link, found, intent⟩
    · rw [(tended.others q fun other => same (Option.some.inj other).symm).1] at found'
      exact ⟨link', found', rfl⟩
  · rintro q link' ⟨⟩ found' live
    cases here.symm.trans found'
    obtain ⟨pid, known, vouched⟩ := vouched live
    refine .spawned known ?_ vouched
    change _ < (h.respawns ++ [p]).count p
    rw [List.count_append, List.count_singleton_self]
    exact Nat.lt_succ_self _

theorem proxy_guarded (native : ShardOps ν ς) (p : Pointer) :
    Within (proxyOps native) (Guarded (some p)) (.proxy p) :=
  proxy_within native p (.refl _) fun _ _ state found => revived_guarded found state

theorem hosted_guarded {native : ShardOps ν ς} {input : Sb.Input ν ς} {m m' : Machine (Shard ν) (Host ς)}
    (action : Machine.step (proxyOps native) (hosted input) m = some m') :
    Guarded (comesTo m.world.sb input) m.world.env m'.world.env :=
  @hosted_within _ _ _ Guarded .refl (fun _ _ _ _ => .trans) (fun target _ _ => .idle target rfl rfl rfl rfl)
    (proxy_guarded native) _ _ _ action

/-! ## Supervision -/

theorem teardown_guarded {p : Pointer} {link link' : Link} {h : Host ς} (mounted : h.heap p = some link)
    (intent : link'.intent = link.intent) : Guarded (some p) h (h.teardown p link') :=
  .touched mounted rfl intent (teardown_childless link') nofun

theorem put_guarded {p : Pointer} {link link' : Link} {h : Host ς} (mounted : h.heap p = some link)
    (intent : link'.intent = link.intent)
    (child : link'.channel.isSome = true → link.channel.isSome = true ∧ link'.pid = link.pid) :
    Guarded (some p) h (h.put p link') := by
  have silent : h.put p link' = (h.put p link').called [] := by simp [Host.called]
  apply Guarded.touched mounted silent intent
  · intro other asked
    cases asked
  · exact child

theorem concluded_guarded (p : Pointer) (ro : ReviveOutcome) (w : World (Shard ν) (Host ς)) :
    wp (concluded p ro) w fun _ w' => Guarded (some p) w.env w'.env := by
  unfold concluded
  rw [wp_bind, wp_get, andThen_ok]
  split
  · exact .refl _ _
  · rename_i link mounted
    split
    · rw [wp_modifyHost]
      exact put_guarded mounted rfl fun live => ⟨live, rfl⟩
    · rw [wp_modifyHost]
      exact teardown_guarded mounted rfl

theorem recover_guarded (native : ShardOps ν ς) {p : Pointer} {link : Link} {w : World (Shard ν) (Host ς)}
    (mounted : w.env.heap p = some link)
    (proxy : ∀ rec, w.sb.find link.id = some rec → rec.shard = .proxy p) :
    wp (recover native p link) w fun _ w' => Guarded (some p) w.env w'.env := by
  have torn := teardown_guarded mounted (rfl : link.intent = link.intent)
  unfold recover
  rw [wp_bind, wp_modifyHost, andThen_ok, wp_bind]
  apply wp_mono (reload_within (Guarded.refl (some p)) (fun _ _ _ => Guarded.trans) ?_ link.snapshotBytes)
  · rintro (e | ro) w₁ reloaded
    · exact torn.trans reloaded
    · rw [andThen_ok]
      exact wp_mono (concluded_guarded p ro w₁) fun _ _ concluded => (torn.trans reloaded).trans concluded
  · intro rec found
    rw [proxy rec found]
    exact proxy_guarded native p

theorem supervise_guarded (native : ShardOps ν ς) {p : Pointer} {w : World (Shard ν) (Host ς)}
    (proxy : ∀ link, w.env.heap p = some link → ∀ rec, w.sb.find link.id = some rec → rec.shard = .proxy p) :
    wp (supervise native p) w fun _ w' => Guarded (some p) w.env w'.env := by
  unfold supervise
  rw [wp_bind, wp_get, andThen_ok]
  cases mounted : w.env.heap p with
  | none => exact .refl _ _
  | some link =>
      dsimp only
      split
      · exact .refl _ _
      · split
        · simp only [wp_bind, wp_modifyHost, andThen_ok, wp_modify]
          have struck : Guarded (some p) w.env (w.env.put p link.struck) :=
            put_guarded mounted rfl fun live => ⟨live, rfl⟩
          have begun : (World.kill { w with env := w.env.put p link.struck } link.id).env = w.env.put p link.struck :=
            kill_env _ _
          have there : (World.kill { w with env := w.env.put p link.struck } link.id).env.heap p = some link.struck := by
            rw [begun]
            exact put_heap ..
          have after := recover_guarded native there ?_
          · apply wp_mono after
            intro _ w' recovered
            rw [begun] at recovered
            exact struck.trans recovered
          · intro rec found
            obtain ⟨rec₀, found₀, dulled⟩ := kill_faded { w with env := w.env.put p link.struck } link.id link.id rec found
            exact dulled.kept.shard.trans (proxy link mounted rec₀ found₀)
        · split
          · exact recover_guarded native mounted (proxy link mounted)
          · exact .refl _ _

/-! ## Steps -/

theorem Guarded.of_answers {target : Option Pointer} {h h' : Host ς} {answers : SpawnAnswers}
    (guarded : Guarded target { h with answers } h') : Guarded target h h' := by
  have first : Guarded target h { h with answers } := .idle target rfl rfl rfl rfl
  exact first.trans guarded

theorem Guarded.dropped {p : Pointer} {h h' : Host ς} {calls : List OsCall} (asked : h'.calls = h.calls ++ calls)
    (nextLink : h'.nextLink = h.nextLink) (heap : h'.heap = Function.update h.heap p none)
    (respawns : h'.respawns = h.respawns) : Guarded (some p) h h' := by
  refine ⟨calls, asked, nextLink, ?_, fun q => by rw [respawns], ?_, ?_⟩
  · intro q other
    rw [heap, respawns]
    exact ⟨Function.update_of_ne (fun same => other (congrArg some same).symm) .., rfl⟩
  · intro q link' found
    rw [heap] at found
    by_cases same : q = p
    · rw [same, Function.update_self] at found
      cases found
    · rw [Function.update_of_ne same] at found
      exact ⟨link', found, rfl⟩
  · rintro q link' ⟨⟩ found _
    rw [heap, Function.update_self] at found
    cases found

theorem unmount_guarded (name : ByteString) (w : World (Shard ν) (Host ς)) :
    wp (unmount name) w fun _ w' => ∃ target, Guarded target w.env w'.env := by
  unfold unmount
  rw [wp_bind, wp_get, andThen_ok]
  dsimp only
  split
  · exact ⟨none, .refl _ _⟩
  · rename_i p named
    split
    · exact ⟨none, .refl _ _⟩
    · rename_i link mounted
      rw [wp_bind, wp_modify, andThen_ok, wp_modifyHost]
      exact ⟨some p, .dropped rfl rfl rfl rfl⟩

theorem drain_guarded (s : System ν ς) (p : Pointer) (sends : List SendResult) (recvs : List RecvResult) :
    Guarded (some p) s.host (s.drain p sends recvs).host := by
  unfold System.drain
  cases mounted : s.host.heap p with
  | none => exact .refl _ _
  | some link =>
      change Guarded (some p) s.host (drainChild p sends recvs s.world).env
      cases live : link.channel with
      | none =>
          have found : s.world.env.heap p = some link := mounted
          rw [drainChild_asleep found live]
          exact .refl _ _
      | some ch =>
          have found : s.world.env.heap p = some link := mounted
          rw [drainChild_eq found live]
          have refreshed := drainedLink_refreshed link ch sends recvs
          have intent := congrArg Link.intent refreshed.rest
          have pid := congrArg Link.pid refreshed.rest
          exact put_guarded mounted intent fun _ => ⟨by rw [live]; rfl, pid⟩

theorem handled_guarded {s s' : System ν ς} {e : Envelope} {trusted : Message} {p : Pointer} {link : Link}
    (h : Handled s e trusted p link s') : Guarded (some p) s.host s'.host := by
  obtain ⟨answers, host⟩ := h.host
  have put : Guarded (some p) s.host (s.host.put p (shipped link trusted)) := by
    refine put_guarded h.mounted ?_ fun live => ?_
    · unfold shipped
      split <;> rfl
    · unfold shipped at live ⊢
      split
      · rename_i ch bytes connected written
        exact ⟨by rw [connected]; rfl, rfl⟩
      · rename_i same
        exact ⟨by simpa using live, rfl⟩
  rw [host]
  exact put.trans (.idle _ rfl rfl rfl rfl)

theorem called_guarded {native : ShardOps ν ς} {s s' : System ν ς} {answers : SpawnAnswers} {input : Sb.Input ν ς}
    (action : Machine.step (proxyOps native) (hosted input)
      (s.withHost { s.host with answers }).machine = some s'.machine) : ∃ target, Guarded target s.host s'.host :=
  ⟨_, (hosted_guarded action).of_answers⟩

theorem turn_guarded {native : ShardOps ν ς} {s s' : System ν ς} {answers : SpawnAnswers} (ok : HostOk s.machine)
    {m : Machine (Shard ν) (Host ς)} (action : Machine.step (proxyOps native) (hosted (.turn : Sb.Input ν ς))
      (s.withHost { s.host with answers }).machine = some m)
    (result : s'.machine = (System.dispatched s.machine.stack m).1) : ∃ target, Guarded target s.host s'.host := by
  cases turn_taken ok action result with
  | proxy e trusted p link h => exact ⟨some p, handled_guarded h⟩
  | plain machine handled => exact called_guarded (by rw [machine]; exact action)

theorem step_guarded {native : ShardOps ν ς} {input : Input ν ς} {s s' : System ν ς} (ok : HostOk s.machine)
    (action : System.step native input s = some s')
    (other : ∀ name soPath grant answers, input ≠ .mount name soPath grant answers) :
    ∃ target, Guarded target s.host s'.host := by
  have idle : s'.host.calls = s.host.calls → s'.host.nextLink = s.host.nextLink → s'.host.heap = s.host.heap →
      s'.host.respawns = s.host.respawns → ∃ target, Guarded target s.host s'.host :=
    fun calls nextLink heap respawns => ⟨none, .idle none calls nextLink heap respawns⟩
  cases step_ran action with
  | configured | began | finished => exact idle rfl rfl rfl rfl
  | @mounted name soPath grant answers => exact absurd rfl (other name soPath grant answers)
  | unmounted => exact wp_leaves (unmount_guarded _ s.world)
  | @drained sends recvs p todo phase => exact ⟨some p, drain_guarded s p sends recvs⟩
  | pumped =>
      have env : (({ s with phase := .pumping } : System ν ς).after (s.machine.pump, false)).host = s.host := by
        rw [System.host, after_machine]
        unfold Machine.pump
        split <;> rfl
      exact idle (by rw [env]) (by rw [env]) (by rw [env]) (by rw [env])
  | @supervised answers p todo next phase =>
      have proxy : ∀ link, s.host.heap p = some link → ∀ rec, s.bus.find link.id = some rec → rec.shard = .proxy p :=
        fun link mounted rec found => (ok.bound p link rec mounted found).1
      have spec := supervise_guarded native (w := (s.withHost { s.host with answers }).world) proxy
      exact ⟨some p, (wp_leaves spec).of_answers⟩
  | turned machine => exact turn_guarded ok machine (after_machine _ _)
  | called plain machine => exact called_guarded (by rw [after_machine]; exact machine)

/-! ## Mounts -/

def HostGrant.gives (grant : HostGrant) : Capability → Bool
  | .network => grant.hasOsCapability osCapNetwork
  | .filesystem => grant.filesystem == .writeAnywhere
  | .resources => grant.resources.unlimited

/-- Each capability has been resolved, and is lifted only by the grant, or in dev-mode on a host that cannot
enforce it. -/
structure Sanctioned (h : Host ς) (grant : HostGrant) (link : Link) : Prop where
  each : link.resolutions.map CapabilityResolution.capability = [.network, .filesystem, .resources]
  lifted : ∀ r ∈ link.resolutions, r.outcome ≠ .enforced →
    grant.gives r.capability = true ∨ h.enforcement r.capability = false ∧ h.devMode = true

theorem Sanctioned.of_intent {h : Host ς} {grant : HostGrant} {link link' : Link} (sanctioned : Sanctioned h grant link)
    (same : link'.intent = link.intent) : Sanctioned h grant link' := by
  constructor
  · have capabilities : ∀ link : Link, link.resolutions.map CapabilityResolution.capability = link.intent.map Prod.fst := by
      intro link
      rw [Link.intent, List.map_map]
      rfl
    rw [capabilities, same, ← capabilities]
    exact sanctioned.each
  · intro r' hr' lifted
    have there : (r'.capability, r'.outcome) ∈ link'.intent := List.mem_map.mpr ⟨r', hr', rfl⟩
    rw [same] at there
    obtain ⟨r, hr, same⟩ := List.mem_map.mp there
    obtain ⟨capability, outcome⟩ := Prod.mk.inj same
    rw [← capability]
    rw [← outcome] at lifted
    exact sanctioned.lifted r hr lifted

theorem resolve_lifted {h : Host ς} {granted : Bool} {capability : Capability} {outcome : Outcome}
    (resolved : resolve h granted capability = some outcome) (lifted : outcome ≠ .enforced) :
    granted = true ∨ h.enforcement capability = false ∧ h.devMode = true := by
  unfold resolve at resolved
  cases granted with
  | true => exact .inl rfl
  | false =>
      cases enforceable : h.enforcement capability with
      | true =>
          simp only [enforceable, Bool.false_eq_true, if_false, if_true, Option.some.injEq] at resolved
          exact absurd resolved.symm lifted
      | false =>
          cases devMode : h.devMode with
          | true => exact .inr ⟨rfl, rfl⟩
          | false => simp [enforceable, devMode] at resolved

theorem Equipped.sanctioned {grant : HostGrant} {a : MountAnswers} {h h' : Host ς} {link : Link} {net fs res : Outcome}
    (equipped : Equipped grant a h h' link net fs res) : Sanctioned h grant link := by
  constructor
  · rw [equipped.resolutions]
    rfl
  · intro r hr lifted
    rw [equipped.resolutions] at hr
    simp only [List.mem_cons, List.not_mem_nil, or_false] at hr
    rcases hr with rfl | rfl | rfl
    · exact resolve_lifted equipped.network lifted
    · exact resolve_lifted equipped.filesystem lifted
    · exact resolve_lifted equipped.resources lifted

/-- The link of a mount that succeeds, and the calls it has made. -/
def Installed (w w' : World (Shard ν) (Host ς)) (grant : HostGrant) : Prop :=
  ∃ link, w'.env.heap w.env.nextLink = some link ∧ Sanctioned w.env grant link ∧
    ∃ pid made, link.pid = some pid ∧ w'.env.calls = w.env.calls ++ made ∧ Vouched pid link made

theorem takeIn_installed (native : ShardOps ν ς) (name : ByteString) {grant : HostGrant} {a : MountAnswers} {h : Host ς}
    {link : Link} {net fs res : Outcome} {w : World (Shard ν) (Host ς)}
    (e : Equipped grant a w.env h link net fs res) (unused : w.env.heap w.env.nextLink = none) :
    wp (takeIn native name w.env.nextLink grant a.spawn h link) w fun r w' => ∀ result, r = .ok result →
      result.ok = true → Installed w w' grant := by
  obtain ⟨nextLink, leafCounter, rest⟩ := e.host.rest
  have calls := e.host.calls
  have asking := spawnAndHandshake_calls h.forceEntryFailure a.spawn { link }
  have spawning := spawnAndHandshake_spec h.forceEntryFailure a.spawn { link }
  unfold takeIn
  split
  · rintro _ ⟨⟩ mounted
    cases mounted
  · rename_i hello s run
    obtain ⟨intent, spawned, made, asked⟩ := wp_ok asking run
    obtain ⟨_, small⟩ := wp_ok spawning run
    have reconstruction := reconstructAndCache_recached s.link hello h.registry
    have caching := reconstructAndCache_spec s.link hello (small hello rfl) h.registry
    split
    · rintro _ ⟨⟩ mounted
      cases mounted
    · rename_i link' registry' ran
      obtain ⟨rebuilt, _, recached⟩ := wp_ok reconstruction ran
      obtain ⟨_, door, v, policy, cached, _⟩ := wp_ok caching ran link' rfl
      have holds : ∃ mf, Holds hello mf s.link link' := by
        cases recached with
        | cached holds => exact ⟨_, holds⟩
      obtain ⟨mf, holds⟩ := holds
      have free : (Host.called { h with registry := registry' } s.calls).heap w.env.nextLink = none := by
        rw [rest]
        exact unused
      rw [wp_bind, wp_modifyHost, andThen_ok]
      apply wp_mono (enroll_spec native name grant.sends (h := Host.called { h with registry := registry' } s.calls)
        rfl free cached)
      rintro r w' ⟨result, rfl, outcome⟩ _ ⟨⟩ mounted
      rw [if_pos mounted] at outcome
      obtain ⟨_, _, host⟩ := outcome
      have same : Link.intent { link' with id := result.id } = link.intent := by
        have kept : Link.intent { link' with id := result.id } = s.link.intent := by
          unfold Link.intent
          rw [holds.resolutions]
        exact kept.trans intent
      refine ⟨{ link' with id := result.id }, ?_, e.sanctioned.of_intent same, ?_⟩
      · rw [host]
        exact put_heap ..
      · cases asked with
        | @spawned _ pid _ known =>
            refine ⟨pid, rootCalls link ++ (preparations link ++ .spawn pid :: confirmations link pid),
              holds.pid.trans known, ?_, ?_⟩
            · rw [host]
              change h.calls ++ s.calls = _
              rw [made, calls, List.append_assoc]
              rfl
            · rw [← List.append_assoc]
              exact (confirmations_vouch _ link pid).intent same

theorem mount_installed (native : ShardOps ν ς) (name soPath : ByteString) (grant : HostGrant) (a : MountAnswers)
    {w : World (Shard ν) (Host ς)} (unused : w.env.heap w.env.nextLink = none) :
    wp (mount native name soPath grant a) w fun r w' => ∀ result, r = .ok result → result.ok = true →
      Installed w w' grant := by
  unfold mount
  rw [wp_bind, wp_get, andThen_ok]
  simp only
  split
  · rintro _ ⟨⟩ mounted
    cases mounted
  have resolution := resolveCapabilities_decided grant a { w.env with nextLink := w.env.nextLink + 1 } name soPath
  cases run : (resolveCapabilities grant a).run ({ w.env with nextLink := w.env.nextLink + 1 }, { name, soPath }) with
  | error e s =>
      rintro _ ⟨⟩ mounted
      cases mounted
  | ok _ s =>
      cases (wp_ok resolution run).renumbered with
      | equipped e => exact takeIn_installed native name e unused

/-! ## Runs -/

/-- How often a child was to be spawned for the link at `p`: by its mount, and by each revival. -/
def System.attempts (s : System ν ς) (p : Pointer) : Nat :=
  (if p < s.host.nextLink then 1 else 0) + s.host.respawns.count p

/-- The mount of the link at `p`. -/
def Mounts (p : Pointer) (link : Link) (s : System ν ς) (input : Input ν ς) : Prop :=
  ∃ name soPath grant answers, input = .mount name soPath grant answers ∧ s.host.nextLink = p ∧
    Sanctioned s.host grant link

/-- The last attempt to spawn a child for the link at `p`, which now has made `n` of them. -/
structure Spawns (p : Pointer) (n : Nat) (pid : Pid) (link : Link) (s s' : System ν ς) : Prop where
  tried : s.attempts p < s'.attempts p
  last : s'.attempts p = n
  vouched : ∃ made, s'.host.calls = s.host.calls ++ made ∧ Vouched pid link made

/-- A link was mounted, and its child spawned, on the way. -/
structure Accounted (native : ShardOps ν ς) (start : System ν ς) (inputs : List (Input ν ς)) (s : System ν ς)
    (p : Pointer) (link : Link) : Prop where
  mounted : Passes (System.step native) (fun mid input _ => Mounts p link mid input) start inputs s
  child : link.channel.isSome = true → ∃ pid, link.pid = some pid ∧
    Passes (System.step native) (fun mid _ mid' => Spawns p (s.attempts p) pid link mid mid') start inputs s

section
variable {native : ShardOps ν ς} {start s s' : System ν ς} {inputs : List (Input ν ς)} {input : Input ν ς}
  {p : Pointer} {link link' : Link}

theorem Accounted.sanctioned (h : Accounted native start inputs s p link)
    (action : System.step native input s = some s') (intent : link'.intent = link.intent) :
    Passes (System.step native) (fun mid input _ => Mounts p link' mid input) start (inputs ++ [input]) s' := by
  refine h.mounted.later action ?_
  rintro mid _ _ ⟨name, soPath, grant, answers, rfl, here, sanctioned⟩
  exact ⟨name, soPath, grant, answers, rfl, here, sanctioned.of_intent intent⟩

theorem Accounted.later (h : Accounted native start inputs s p link) (action : System.step native input s = some s')
    (intent : link'.intent = link.intent) (attempts : s'.attempts p = s.attempts p)
    (child : link'.channel.isSome = true → link.channel.isSome = true ∧ link'.pid = link.pid) :
    Accounted native start (inputs ++ [input]) s' p link' := by
  refine ⟨h.sanctioned action intent, fun live => ?_⟩
  obtain ⟨live, same⟩ := child live
  obtain ⟨pid, known, passes⟩ := h.child live
  refine ⟨pid, same.trans known, passes.later action ?_⟩
  rintro mid _ mid' ⟨tried, last, made, asked, vouched⟩
  exact ⟨tried, last.trans attempts.symm, made, asked, vouched.intent intent⟩

theorem Accounted.guarded {target : Option Pointer} (run : Reaches native start inputs s)
    (action : System.step native input s = some s')
    (before : ∀ link, s.host.heap p = some link → Accounted native start inputs s p link)
    (guarded : Guarded target s.host s'.host) (found : s'.host.heap p = some link') :
    Accounted native start (inputs ++ [input]) s' p link' := by
  obtain ⟨made, guarding⟩ := guarded
  obtain ⟨link, mounted, intent⟩ := guarding.intent p link' found
  have same : s'.host.respawns.count p = s.host.respawns.count p → s'.attempts p = s.attempts p := by
    intro count
    rw [System.attempts, System.attempts, guarding.nextLink, count]
  by_cases here : target = some p
  · refine ⟨(before link mounted).sanctioned action intent, fun live => ?_⟩
    cases guarding.child p link' here found live with
    | kept mounted' live' pid untried _ =>
        cases mounted.symm.trans mounted'
        exact ((before link mounted).later action intent (same untried) fun _ => ⟨live', pid⟩).child live
    | @spawned pid known tried vouched =>
        have more : s.attempts p < s'.attempts p := by
          rw [System.attempts, System.attempts, guarding.nextLink]
          exact Nat.add_lt_add_left tried _
        exact ⟨pid, known, .now run action ⟨more, rfl, made, guarding.calls, vouched⟩⟩
  · obtain ⟨heap, count⟩ := guarding.others p here
    rw [heap] at found
    cases mounted.symm.trans found
    exact (before _ mounted).later action rfl (same count) fun live => ⟨live, rfl⟩

theorem Accounted.mount {name soPath : ByteString} {grant : HostGrant} {answers : MountAnswers}
    (ok : HostOk s.machine) (run : Reaches native start inputs s)
    (action : System.step native (.mount name soPath grant answers) s = some s')
    (before : ∀ link, s.host.heap p = some link → Accounted native start inputs s p link)
    (found : s'.host.heap p = some link) :
    Accounted native start (inputs ++ [.mount name soPath grant answers]) s' p link := by
  have spec := mount_spec native name soPath grant answers ok.unused
  have installs := mount_installed native name soPath grant answers ok.unused
  have ended : s' = s.mounted grant.sends ((Isolation.mount native name soPath grant answers).run s.world) := by
    cases step_ran action
    rfl
  cases ran : (Isolation.mount native name soPath grant answers).run s.world with
  | error e w =>
      obtain ⟨_, impossible, _⟩ := wp_error spec ran
      cases impossible
  | ok result w =>
      obtain ⟨_, ⟨⟩, outcome⟩ := wp_ok spec ran
      have host : s'.host = w.env := by rw [ended, ran]; rfl
      have old : ∀ link₀, s.host.heap p = some link₀ → s'.host.heap p = s.host.heap p →
          s'.host.respawns = s.host.respawns → s.host.nextLink ≤ s'.host.nextLink →
          Accounted native start (inputs ++ [.mount name soPath grant answers]) s' p link := by
        intro link₀ mounted heap respawns nextLink
        have below : p < s.host.nextLink := ok.below p link₀ mounted
        have same : s'.attempts p = s.attempts p := by
          rw [System.attempts, System.attempts, respawns, if_pos below, if_pos (Nat.lt_of_lt_of_le below nextLink)]
        cases (mounted.symm.trans heap.symm).trans found
        exact (before _ mounted).later action rfl same fun live => ⟨live, rfl⟩
      split at outcome
      · rename_i succeeded
        obtain ⟨new, rec, taken⟩ := outcome
        obtain ⟨link₁, there, sanctioned, pid, made, known, asked, vouched⟩ := wp_ok installs ran result rfl succeeded
        have heap : s'.host.heap = Function.update s.host.heap s.host.nextLink (some new) := by rw [host, taken.heap]; rfl
        have respawns : s'.host.respawns = s.host.respawns := by rw [host, taken.respawns]; rfl
        have nextLink : s'.host.nextLink = s.host.nextLink + 1 := by rw [host, taken.nextLink]; rfl
        by_cases here : p = s.host.nextLink
        · subst here
          rw [host] at found
          cases there.symm.trans found
          refine ⟨.now run action ⟨name, soPath, grant, answers, rfl, rfl, sanctioned⟩, fun _ => ⟨pid, known, ?_⟩⟩
          refine .now run action ⟨?_, rfl, made, by rw [host, asked]; rfl, vouched⟩
          rw [System.attempts, System.attempts, respawns, nextLink]
          simp
        · have same : s'.host.heap p = s.host.heap p := by rw [heap, Function.update_of_ne here]
          exact old link (same.symm.trans found) same respawns (nextLink ▸ Nat.le_succ _)
      · rename_i refused
        have same : s'.host.heap p = s.host.heap p := by rw [host, outcome.heap]; rfl
        exact old link (same.symm.trans found) same (by rw [host, outcome.respawns]; rfl)
          (by rw [host]; exact outcome.nextLink)

theorem accounted {host : Host ς} (run : Reaches native (System.start host) inputs s)
    (found : s.host.heap p = some link) : Accounted native (System.start host) inputs s p link := by
  generalize begun : System.start host = start at run
  induction run generalizing p link with
  | nil =>
      subst begun
      cases found
  | @snoc mid _ inputs input run action ih =>
      subst begun
      have ok := host_ok run
      have before : ∀ link, mid.host.heap p = some link → Accounted native (System.start host) inputs mid p link :=
        fun link mounted => ih mounted
      by_cases mounts : ∃ name soPath grant answers, input = .mount name soPath grant answers
      · obtain ⟨name, soPath, grant, answers, rfl⟩ := mounts
        exact .mount ok run action before found
      · obtain ⟨target, guarded⟩ := step_guarded ok action fun name soPath grant answers same =>
          mounts ⟨name, soPath, grant, answers, same⟩
        exact .guarded run action before guarded found

theorem Sanctioned.sandboxed {h : Host ς} {grant : HostGrant} {link : Link} (sanctioned : Sanctioned h grant link) :
    ∀ r ∈ link.resolutions, link.sandboxed r.capability = (r.outcome == .enforced) := by
  obtain ⟨net, _, first, network, rest⟩ := List.map_eq_cons_iff.mp sanctioned.each
  obtain ⟨fs, _, rfl, filesystem, rest⟩ := List.map_eq_cons_iff.mp rest
  obtain ⟨res, _, rfl, resources, rest⟩ := List.map_eq_cons_iff.mp rest
  obtain rfl := List.map_eq_nil_iff.mp rest
  unfold Link.sandboxed
  rw [first]
  simp [network, filesystem, resources]

theorem live_children_are_confirmed {host : Host ς} (run : Reaches native (System.start host) inputs s)
    (found : s.host.heap p = some link) :
    (link.channel.isSome = true → ∃ pid, link.pid = some pid ∧
      Passes (System.step native) (fun mid _ mid' => Spawns p (s.attempts p) pid link mid mid')
        (System.start host) inputs s) ∧
    (∀ r ∈ link.resolutions, link.sandboxed r.capability = (r.outcome == .enforced)) ∧
    Passes (System.step native) (fun mid input _ => Mounts p link mid input) (System.start host) inputs s := by
  have accounted := accounted run found
  refine ⟨accounted.child, ?_, accounted.mounted⟩
  obtain ⟨_, _, _, _, _, _, _, _, _, _, _, _, _, _, _, sanctioned⟩ := accounted.mounted
  exact sanctioned.sandboxed

end

-- a child without a grant, that is respawned as pid 7
def strictCrash : List (Input Unit Unit) :=
  [.mount (ascii "ping") (ascii "ping.so") { sends := anyone } { spawn := pingSpawn }, .step,
    .drain [] [.data (frameBytes ⟨.snapshot, pingBytes⟩), .data []], .pump, .bus .turn {},
    .supervise { pingSpawn with fork := some 7 }]

theorem live_children_are_confirmed_again : ∃ s link, Reaches pingOps pingStart strictCrash s ∧
    s.host.heap 0 = some link ∧ link.pid = some 7 ∧ link.sandboxed .network = true ∧
    Passes (System.step pingOps) (fun mid _ mid' => Spawns 0 (s.attempts 0) 7 link mid mid') pingStart strictCrash s := by
  have evaluated : ((exec (System.step pingOps) strictCrash pingStart).bind fun s =>
      (s.host.heap 0).map fun link => decide (link.pid = some 7 ∧ link.sandboxed .network = true ∧
        link.channel.isSome = true)) = some true := by
    decide +kernel
  obtain ⟨s, reached, evaluated⟩ := Option.bind_eq_some_iff.mp evaluated
  obtain ⟨link, found, evaluated⟩ := Option.map_eq_some_iff.mp evaluated
  obtain ⟨known, sandboxed, live⟩ := of_decide_eq_true evaluated
  have run := Run.of_exec reached
  obtain ⟨pid, known', passes⟩ := (live_children_are_confirmed run found).1 live
  cases known.symm.trans known'
  exact ⟨s, link, run, found, known, sandboxed, passes⟩

end Zen.Isolation
