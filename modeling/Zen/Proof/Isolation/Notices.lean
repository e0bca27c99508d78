import Zen.Proof.Isolation.Invariant
import Zen.Proof.Switchboard.Deaths

/-!
# Notices of death

The observers of the bus hear of a death once for each one that supervision detects, and once for each
`kill` that somebody else calls.
-/

namespace Zen.Isolation
open Lib Sb BusM BusHostM

variable {ν ς α : Type}

/-- Whether an input is the turn of a link of `id` that finds its child gone. -/
def detects (id : ShardId) : Input ν ς → System ν ς → Nat
  | .supervise _, s =>
      match s.phase with
      | .supervising (p :: _) =>
          match s.host.heap p with
          | some link => if link.id = id ∧ link.detected ∧ s.bus.knows id then 1 else 0
          | none => 0
      | _ => 0
  | _, _ => 0

-- the calls of others
def Input.kills (id : ShardId) : Input ν ς → System ν ς → Nat
  | .bus input _, s => (hosted input).kills id s.bus
  | _, _ => 0

def Input.unregisters : Input ν ς → Option ShardId
  | .bus input _ => (hosted input).unregisters
  | _ => none

def notices (id : ShardId) (input : Input ν ς) (s : System ν ς) : Nat := detects id input s + input.kills id s

structure Noticed (id : ShardId) (input : Input ν ς) (s s' : System ν ς) : Prop where
  deaths : s'.world.deaths id = s.world.deaths id + notices id input s
  known : (∀ name, input ≠ .unmount name) → input.unregisters ≠ some id → s.bus.knows id → s'.bus.knows id

theorem Noticed.of_discreet {id : ShardId} {input : Input ν ς} {s s' : System ν ς} (h : Discreet id s.world s'.world)
    (none : notices id input s = 0) : Noticed id input s s' :=
  ⟨by rw [h.deaths, none]; rfl, fun _ _ known => h.known known⟩

theorem modifyHost_tactful {id : ShardId} (f : Host ς → Host ς) :
    Tactful id (modifyHost f : BusHostM ν ς Unit) := .modifies fun _ => .of_eq rfl rfl

theorem caught_tactful {id : ShardId} {x : BusHostM ν ς α} (h : Tactful id x) : Tactful id (caught x) := by
  intro w
  rw [wp_caught]
  exact h w

theorem enroll_tactful (native : ShardOps ν ς) (name : ByteString) (p : Pointer) (link : Link) (grant : Grant)
    (id : ShardId) : Tactful id (enroll native name p link grant) := by
  refine .binds (caught_tactful (registerShard_tactful _ _ _ id)) fun registered => ?_
  cases registered with
  | error e => exact .binds (modifyHost_tactful _) fun _ => .returns _
  | ok new => exact .binds (modifyHost_tactful _) fun _ => .returns _

theorem mount_tactful (native : ShardOps ν ς) (name soPath : ByteString) (grant : HostGrant) (a : MountAnswers)
    (id : ShardId) : Tactful id (mount native name soPath grant a) := by
  refine .binds .gets fun w => ?_
  have ended : ∀ {f : Host ς → Host ς} {result : OutOfProcessResult},
      Tactful id (do modifyHost f; return result : BusHostM ν ς OutOfProcessResult) :=
    .binds (modifyHost_tactful _) fun _ => .returns _
  simp only
  split
  · exact .returns _
  · split
    · exact ended
    · split
      · exact ended
      · split
        · exact ended
        · exact .binds (modifyHost_tactful _) fun _ => enroll_tactful native name _ _ _ id

theorem drainChild_discreet (id : ShardId) (p : Pointer) (sends : List SendResult) (recvs : List RecvResult)
    (w : World (Shard ν) (Host ς)) : Discreet id w (drainChild p sends recvs w) := by
  cases found : w.env.heap p with
  | none =>
      simp only [drainChild, found]
      exact .refl id w
  | some link =>
      cases live : link.channel with
      | none =>
          simp only [drainChild, found, live]
          exact .refl id w
      | some ch =>
          rw [drainChild_eq found live]
          obtain ⟨es, bus, _⟩ := emits_enqueues link (received ch sends recvs).2 w.sb
          exact .of_eq rfl (by simp only [bus]; rfl)

theorem after_world (s : System ν ς) (r : Machine (Shard ν) (Host ς) × Bool) : (s.after r).world = r.1.world := by
  rw [System.world, after_machine]

theorem dispatched_discreet (id : ShardId) (before : List Frame) (m : Machine (Shard ν) (Host ς)) :
    Discreet id m.world (System.dispatched before m).1.world := by
  unfold System.dispatched
  split
  · rename_i e trusted frames top
    split
    · exact .refl id _
    · split
      · unfold System.proxyHandles
        split
        · rename_i env run
          have moved : Discreet id m.world { m.world with env } := .of_eq rfl rfl
          exact moved.trans (delivered_discreet id _ e trusted)
        · exact .of_eq rfl rfl
      · exact .refl id _
  · exact .refl id _

theorem recovered_noticed {s s' : System ν ς} {answers : SpawnAnswers} {p : Pointer} {link : Link} {door : Schema}
    {v policy : Value} {todo : List Pointer} (phase : s.phase = .supervising (p :: todo))
    (mounted : s.host.heap p = some link)
    (recovered : Recovered p link.mourned door v policy
      (stricken p link { s.world with env := { s.host with answers } }) s'.world) (id : ShardId) :
    Noticed id (.supervise answers) s s' := by
  have spoken : World.deaths id s'.world =
      (stricken p link { s.world with env := { s.host with answers } }).deaths id := by
    cases recovered with
    | spent link' ruled buried exhausted bus events revived host =>
        rw [World.deaths, events]
        rfl
    | tried link' ruled result rec found left bus events revived host =>
        rw [World.deaths, events, List.countP_append]
        rfl
  refine ⟨?_, ?_⟩
  · rw [spoken, World.deaths, (stricken_log p link _).1, List.countP_append]
    simp only [notices, detects, Input.kills, phase, mounted, Nat.add_zero]
    refine congrArg (World.deaths id s.world + ·) ?_
    unfold deathNotice
    by_cases gone : link.detected
    · by_cases here : link.id = id
      · subst here
        simp only [gone, if_true, true_and, Switchboard.knows]
        change _ = if (s.world.sb.find link.id).isSome = true then 1 else 0
        cases s.world.sb.find link.id with
        | none => rfl
        | some rec => simp [BusEvent.mourns, World.stateEvent]
      · simp only [gone, here, if_true, false_and, if_false]
        split
        · simp [BusEvent.mourns, World.stateEvent, here]
        · rfl
    · simp [gone]
  · intro _ _ known
    obtain ⟨rec, found⟩ := Option.isSome_iff_exists.mp known
    obtain ⟨rec', found', _⟩ := stricken_keeps p link (w := { s.world with env := { s.host with answers } }) found
    have left : ((stricken p link { s.world with env := { s.host with answers } }).sb.shards.find id).isSome :=
      Option.isSome_iff_exists.mpr ⟨rec', found'⟩
    rw [Switchboard.knows, Switchboard.find]
    cases recovered with
    | spent link' ruled buried exhausted bus events revived host =>
        rw [show s'.bus = _ from bus]
        exact left
    | tried link' ruled result rec found left' bus events revived host =>
        rw [show s'.bus = _ from bus]
        simp only
        rw [knows_update]
        exact left

theorem mount_discreet (native : ShardOps ν ς) (name soPath : ByteString) (grant : HostGrant) (a : MountAnswers)
    (s : System ν ς) (id : ShardId) :
    Discreet id s.world (s.mounted grant.sends ((mount native name soPath grant a).run s.world)).world := by
  have tactful := mount_tactful native name soPath grant a id s.world
  cases run : (mount native name soPath grant a).run s.world with
  | ok result w => exact wp_ok tactful run
  | error e w => exact wp_error tactful run

theorem unmount_discreet (name : ByteString) (w : World (Shard ν) (Host ς)) (id : ShardId) :
    wp (unmount name) w fun _ w' => w'.deaths id = w.deaths id := by
  apply wp_mono (unmount_spec name w)
  rintro r w' ⟨_, rfl | ⟨p, link, released⟩⟩
  · rfl
  · rw [World.deaths, released.log]
    rfl

theorem supervise_noticed {native : ShardOps ν ς} {s s' : System ν ς} {answers : SpawnAnswers} (ok : HostOk s.machine)
    (action : System.step native (.supervise answers) s = some s') (id : ShardId) :
    Noticed id (.supervise answers) s s' := by
  have start := action
  rw [System.step] at start
  split at start
  · rename_i p todo phase stack
    cases mounted : s.host.heap p with
    | none =>
        have gone : (s.withHost { s.host with answers }).world.env.heap p = none := mounted
        simp only [supervise_skips native gone] at start
        cases start
        refine .of_discreet (.of_eq rfl rfl) ?_
        simp only [notices, detects, Input.kills, phase, mounted]
    | some link =>
        obtain ⟨door, v, policy, cached⟩ := ok.cached p link mounted
        obtain ⟨_, _, outcome⟩ := supervise_turn ok action phase mounted cached
        split at outcome
        · exact recovered_noticed phase mounted outcome id
        · rename_i calm
          have undetected : link.detected = false := by
            simp only [Link.needy, Bool.or_eq_true, not_or] at calm
            simpa using calm.1
          refine .of_discreet ?_ ?_
          · rw [outcome]
            exact .of_eq rfl rfl
          · simp [notices, detects, Input.kills, phase, mounted, undetected]
  · cases start

theorem called_noticed {native : ShardOps ν ς} {input : Sb.Input ν ς} {answers : SpawnAnswers} {s s' : System ν ς}
    {m : Machine (Shard ν) (Host ς)} (machine : Machine.step (proxyOps native) (hosted input)
      (s.withHost { s.host with answers }).machine = some m) (id : ShardId) (discreet : Discreet id m.world s'.world) :
    Noticed id (.bus input answers) s s' := by
  have told := step_told machine id
  have kills : notices id (.bus input answers) s = (hosted input).kills id s.bus := Nat.zero_add _
  refine ⟨?_, fun _ other known => discreet.known (told.known other known)⟩
  rw [discreet.deaths, told.deaths, kills]
  rfl

theorem step_noticed {native : ShardOps ν ς} {input : Input ν ς} {s s' : System ν ς} (ok : HostOk s.machine)
    (action : System.step native input s = some s') (id : ShardId) : Noticed id input s s' := by
  cases step_ran action with
  | configured => exact .of_discreet (.of_eq rfl rfl) rfl
  | mounted => exact .of_discreet (mount_discreet native _ _ _ _ s id) rfl
  | @unmounted name => exact ⟨wp_leaves (unmount_discreet name s.world id), fun kept => absurd rfl (kept name)⟩
  | began | finished => exact .of_discreet (.refl id _) rfl
  | @drained sends recvs p todo phase =>
      refine .of_discreet ?_ rfl
      cases mounted : s.host.heap p with
      | none =>
          simp only [System.drain, mounted]
          exact .refl id _
      | some link =>
          simp only [System.drain, mounted]
          exact drainChild_discreet id p sends recvs s.world
  | pumped =>
      refine .of_discreet ?_ rfl
      rw [after_world]
      unfold Machine.pump
      split <;> exact .of_eq rfl rfl
  | supervised phase => exact supervise_noticed ok action id
  | @turned answers m machine =>
      refine called_noticed machine id ?_
      rw [after_world]
      exact dispatched_discreet id s.machine.stack m
  | @called input answers m plain machine =>
      refine called_noticed machine id ?_
      rw [after_world]
      exact .refl id _

theorem deaths_noticed {native : ShardOps ν ς} {s s' : System ν ς} {inputs : List (Input ν ς)}
    (ok : HostOk s.machine) (run : Reaches native s inputs s') (id : ShardId) :
    s'.world.deaths id = s.world.deaths id + tally (System.step native) (notices id) inputs s := by
  have each : ∀ (input : Input ν ς) (s s' : System ν ς), HostOk s.machine → System.step native input s = some s' →
      HostOk s'.machine ∧ s'.world.deaths id = s.world.deaths id + notices id input s :=
    fun _ _ _ ok action => ⟨step_ok ok action, (step_noticed ok action id).deaths⟩
  exact run.tally_eq each ok

end Zen.Isolation
