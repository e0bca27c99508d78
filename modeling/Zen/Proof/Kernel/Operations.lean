import Zen.Proof.Kernel.Opening
import Zen.Proof.Kernel.System
import Zen.Proof.Switchboard.Safety

/-!
# What an operation of the kernel leaves of the bus

No message is sent, delivered or decided. A record keeps its grant and its doors, and whether it is one
of the Shards compiled in; only what a `load` has put on the bus is new.
-/

namespace Zen.Kernel
open Lib Sb KernelM BusM

variable {ν ς α : Type}

def compiledIn : Shard ν → Option ν
  | .native shard => some shard
  | .library _ => none

structure SameSeat (rec rec' : ShardRecord (Shard ν)) : Prop where
  grant : rec'.grant = rec.grant
  accept : rec'.accept = rec.accept
  compiledIn : compiledIn rec'.shard = compiledIn rec.shard

theorem SameSeat.refl (rec : ShardRecord (Shard ν)) : SameSeat rec rec := ⟨rfl, rfl, rfl⟩

theorem SameSeat.trans {rec mid rec' : ShardRecord (Shard ν)} (first : SameSeat rec mid) (second : SameSeat mid rec') :
    SameSeat rec rec' :=
  ⟨second.grant.trans first.grant, second.accept.trans first.accept, second.compiledIn.trans first.compiledIn⟩

/-- `joined` are the ids of the libraries that have got onto the bus. -/
structure Tends (k k' : Kernel ν ς) (joined : List ShardId) : Prop where
  mail : k'.world.mail = k.world.mail
  records : ∀ id rec', k'.world.sb.find id = some rec' →
    (∃ rec, k.world.sb.find id = some rec ∧ SameSeat rec rec') ∨
    id ∈ joined ∧ rec'.grant = allowAny ∧ compiledIn rec'.shard = none

namespace Tends

theorem of_shards {k k' : Kernel ν ς} (mail : k'.world.mail = k.world.mail)
    (shards : k'.world.sb.shards = k.world.sb.shards) : Tends k k' [] := by
  refine ⟨mail, ?_⟩
  intro id rec found
  rw [Switchboard.find, shards] at found
  exact Or.inl ⟨rec, found, .refl rec⟩

theorem refl (k : Kernel ν ς) : Tends k k [] := .of_shards rfl rfl

theorem trans {k mid k' : Kernel ν ς} {joined joined' : List ShardId} (first : Tends k mid joined)
    (second : Tends mid k' joined') : Tends k k' (joined ++ joined') := by
  refine ⟨second.mail.trans first.mail, ?_⟩
  intro id rec' found
  rcases second.records id rec' found with ⟨rec, before, same⟩ | ⟨listed, new⟩
  · rcases first.records id rec before with ⟨old, earlier, same'⟩ | ⟨listed, grant, library⟩
    · exact Or.inl ⟨old, earlier, same'.trans same⟩
    · exact Or.inr ⟨List.mem_append_left _ listed, same.grant.trans grant, same.compiledIn.trans library⟩
  · exact Or.inr ⟨List.mem_append_right _ listed, new⟩

theorem updated {k k' : Kernel ν ς} {id : ShardId} {f : ShardRecord (Shard ν) → ShardRecord (Shard ν)}
    (mail : k'.world.mail = k.world.mail) (shards : k'.world.sb.shards = k.world.sb.shards.update id f)
    (same : ∀ rec, k.world.sb.find id = some rec → SameSeat rec (f rec)) : Tends k k' [] := by
  refine ⟨mail, ?_⟩
  intro j rec' found
  rw [Switchboard.find, shards, OrdMap.find_update] at found
  split at found
  · rename_i here
    subst here
    obtain ⟨rec, before, rfl⟩ := Option.map_eq_some_iff.mp found
    exact Or.inl ⟨rec, before, same rec before⟩
  · exact Or.inl ⟨rec', found, .refl rec'⟩

theorem erased {k k' : Kernel ν ς} {id : ShardId} (mail : k'.world.mail = k.world.mail)
    (shards : k'.world.sb.shards = k.world.sb.shards.erase id) : Tends k k' [] := by
  refine ⟨mail, ?_⟩
  intro j rec' found
  rw [Switchboard.find, shards, OrdMap.find_erase] at found
  split at found
  · cases found
  · exact Or.inl ⟨rec', found, .refl rec'⟩

end Tends

/-! ## Load -/

theorem reconstruct_tends (seam : Seam ς) (abi inst : Pointer) (k : Kernel ν ς) :
    wp (reconstruct seam abi inst) k fun _ k' => Tends k k' [] ∧ k'.world.sb = k.world.sb := by
  have kept : ∀ {k' : Kernel ν ς}, k'.world.sb = k.world.sb → k'.world.log = k.world.log →
      Tends k k' [] ∧ k'.world.sb = k.world.sb := by
    intro k' bus log
    exact ⟨.of_shards (by rw [World.mail, bus, log]; rfl) (by rw [bus]), bus⟩
  unfold reconstruct
  simp only [wp_bind, wp_onSeam, SeamM.describe, wp_perform, andThen_ok]
  split
  · exact kept rfl rfl
  · rw [wp_onRegistry]
    exact wp_intro (fun _ _ _ => kept rfl rfl) (fun _ _ _ => kept rfl rfl)

theorem mount_tends (seam : Seam ς) (native : ShardOps ν ς) (name : ByteString) (lib abi inst : Pointer)
    {k : Kernel ν ς} (below : k.world.sb.Below) : wp (mount seam native name lib abi inst) k fun r k' =>
      Tends k k' (match r with | .ok id => [id] | .error _ => []) := by
  unfold mount
  rw [wp_bind]
  apply wp_mono (reconstruct_tends seam abi inst k)
  rintro (e | mf) mid ⟨tends, bus⟩
  · exact tends
  · simp only [andThen_ok, wp_bind, wp_onBus]
    apply wp_mono (registerShard_spec (hostOps seam native) _ allowAny mid.world)
    rintro (e | id) w registered
    · obtain ⟨mail, _, shards, _⟩ := registered
      exact tends.trans (.of_shards mail shards)
    · obtain ⟨mail, _, rfl, _, rec, shards, fresh⟩ := registered
      simp only [andThen_ok, wp_bind, wp_modify, wp_pure]
      have library := (fresh_adapter fresh).1
      refine ⟨mail.trans tends.mail, ?_⟩
      intro j rec' found
      rw [Switchboard.Below.find_added (by rwa [bus]) shards] at found
      split at found
      · rename_i new
        cases found
        refine Or.inr ⟨by simp [new], fresh.grant, by rw [library]; rfl⟩
      · rw [bus] at found
        exact Or.inl ⟨rec', found, .refl rec'⟩

theorem load_tends (seam : Seam ς) (native : ShardOps ν ς) (name path : ByteString) {k : Kernel ν ς}
    (below : k.world.sb.Below) : wp (load seam native name path) k fun r k' => ∃ result, r = .ok result ∧
      Tends k k' (if result.ok then [result.id] else []) := by
  rw [load_eq, wp_bind, wp_get, andThen_ok]
  split
  · exact ⟨_, rfl, .refl k⟩
  · apply wp_opening
    · intro _ error memory calls _
      exact ⟨_, rfl, .of_shards rfl rfl⟩
    · intro o _
      simp only [settle, wp_bind, wp_attempt]
      have start : Tends k (k.after o.afterCreate (o.calls path)) [] := .of_shards rfl rfl
      apply wp_mono (mount_tends seam native name o.lib o.abi o.inst (k := k.after o.afterCreate (o.calls path)) below)
      rintro (e | id) k' tends
      · exact ⟨_, rfl, (start.trans tends).trans (.of_shards rfl rfl)⟩
      · exact ⟨_, rfl, start.trans tends⟩

/-! ## Reload and unload -/

theorem commit_tends (seam : Seam ς) (native : ShardOps ν ς) (rec : Loaded) (adapter : HostAdapter)
    (snapshot : ByteString) (newLib newAbi newInst : Pointer) (described : List Schema) {k : Kernel ν ς}
    (adapts : adapterOf k.world.sb rec.id = some adapter) :
    wp (commit seam native rec adapter snapshot newLib newAbi newInst described) k fun _ k' => Tends k k' [] := by
  obtain ⟨there, found, library⟩ := adapterOf_eq_some.mp adapts
  unfold commit rebind
  simp only [wp_bind, wp_onSeam, SeamM.destroy, wp_perform, andThen_ok, wp_onBus, wp_updateRecord, wp_modify]
  have rebound : ∀ k' : Kernel ν ς, k'.world.mail = k.world.mail → k'.world.sb.shards =
      k.world.sb.shards.update rec.id (fun r =>
        { r with shard := .library { adapter with abi := newAbi, inst := newInst } }) → Tends k k' [] := by
    intro k' mail shards
    refine .updated mail shards ?_
    intro rec' found'
    rw [found] at found'
    cases found'
    exact ⟨rfl, rfl, by rw [library]; rfl⟩
  apply wp_mono (swapState_spec (hostOps seam native) rec.id snapshot _)
  rintro r w ⟨mail, unrevived | ⟨rec', state, _, revived⟩⟩
  · have kept := rebound { k with world := w } mail (by rw [unrevived.bus])
    cases r with
    | error e => exact ⟨kept.mail, kept.records⟩
    | ok out =>
        simp only [andThen_ok, wp_bind, wp_onSeam, SeamM.libClose, wp_perform]
        split <;> exact ⟨kept.mail, kept.records⟩
  · have bus := revived.bus
    cases r with
    | error e =>
        have kept := rebound { k with world := w } mail (by rw [bus])
        exact ⟨kept.mail, kept.records⟩
    | ok out =>
        simp only [andThen_ok, wp_bind, wp_onSeam, SeamM.libClose, wp_perform]
        let swapped : Kernel ν ς := { k with world := { k.world with
          sb := { k.world.sb with shards := k.world.sb.shards.update rec.id fun r =>
            { r with shard := .library { adapter with abi := newAbi, inst := newInst } } } } }
        have first : Tends k swapped [] := rebound swapped rfl rfl
        have shards : w.sb.shards = swapped.world.sb.shards.update rec.id fun r =>
            { r with lastKnownGood := state, alive := true } := congrArg Switchboard.shards bus.2
        have second : Tends swapped { k with world := w } [] := .updated mail shards fun _ _ => ⟨rfl, rfl, rfl⟩
        have kept := first.trans second
        split <;> exact ⟨kept.mail, kept.records⟩

theorem replace_tends (seam : Seam ς) (native : ShardOps ν ς) (rec : Loaded) (snapshot : ByteString)
    (newLib newAbi newInst : Pointer) (k : Kernel ν ς) :
    wp (replace seam native rec snapshot newLib newAbi newInst) k fun _ k' => Tends k k' [] := by
  unfold replace
  simp only [wp_bind, wp_attempt]
  apply wp_mono (reconstruct_tends seam newAbi newInst k)
  rintro (e | mf) mid ⟨tends, bus⟩
  · exact tends.trans (.of_shards rfl rfl)
  · simp only [andThen_ok, wp_bind, wp_get]
    cases adapts : adapterOf mid.world.sb rec.id with
    | none => exact tends
    | some adapter =>
        simp only
        split
        · exact tends.trans (.of_shards rfl rfl)
        · apply wp_mono (commit_tends seam native rec adapter snapshot newLib newAbi newInst mf.accepted adapts)
          intro r k' later
          exact tends.trans later

theorem snapshotBytes_tends (seam : Seam ς) (native : ShardOps ν ς) (id : ShardId) (k : Kernel ν ς) :
    wp (onBus (snapshotBytes (hostOps seam native) id)) k fun _ k' => Tends k k' [] := by
  rw [wp_onBus]
  unfold snapshotBytes
  rw [wp_bind, wp_get, andThen_ok]
  split
  · exact .refl k
  · rename_i rec _
    simp only [wp_bind, wp_callback]
    refine wp_intro ?_ (fun _ _ _ => .of_shards rfl rfl)
    intro v env _
    rw [andThen_ok]
    split <;> exact .of_shards rfl rfl

theorem reloadFrom_tends (seam : Seam ς) (native : ShardOps ν ς) (name newPath : ByteString) (k : Kernel ν ς) :
    wp (reloadFrom seam native name newPath) k fun _ k' => Tends k k' [] := by
  rw [reloadFrom_eq, wp_bind, wp_get, andThen_ok]
  cases find k name with
  | none => exact .refl k
  | some rec =>
      simp only [wp_bind, wp_attempt]
      apply wp_mono (snapshotBytes_tends seam native rec.id k)
      rintro (e | snapshot) mid tends
      · exact tends
      · rw [andThen_ok]
        apply wp_opening
        · intro _ error memory calls _
          exact tends.trans (.of_shards rfl rfl)
        · intro o _
          have opened : Tends mid (mid.after o.afterCreate (o.calls newPath)) [] := .of_shards rfl rfl
          apply wp_mono (replace_tends seam native rec snapshot o.lib o.abi o.inst _)
          intro r k' later
          exact (tends.trans opened).trans later

theorem unload_tends (seam : Seam ς) (name : ByteString) (k : Kernel ν ς) :
    wp (unload seam name) k fun r k' => ∃ found, r = .ok found ∧ Tends k k' [] := by
  unfold unload
  rw [wp_bind, wp_get, andThen_ok]
  cases find k name with
  | none => exact ⟨false, rfl, .refl k⟩
  | some rec =>
      simp only [wp_bind, wp_modify, wp_get, andThen_ok]
      have left : Tends k { k with
          libs := k.libs.filter fun l => !(l.name == name)
          world := { k.world with sb := (k.world.sb.unregisterShard rec.id).1 } } [] := by
        unfold Switchboard.unregisterShard
        cases k.world.sb.find rec.id with
        | none => exact .of_shards rfl rfl
        | some _ => exact .erased rfl rfl
      split
      · exact ⟨true, rfl, left.trans (.of_shards rfl rfl)⟩
      · exact ⟨true, rfl, left.trans (.of_shards rfl rfl)⟩

/-! ## On a host -/

structure Operated (s s' : System ν ς) : Prop where
  stack : s'.stack = s.stack
  origins : s'.origins = s.origins
  tends : ∃ joined, Tends s.kernel s'.kernel joined ∧ s'.registered = s.registered ++ joined.map fun id => (id, allowAny)

theorem Operated.of_tends {s : System ν ς} {kernel : Kernel ν ς} (tends : Tends s.kernel kernel []) :
    Operated s { s with kernel } :=
  ⟨rfl, rfl, [], tends, (List.append_nil _).symm⟩

theorem ended_operated {x : KernelM ν ς α} {s : System ν ς} (spec : wp x s.kernel fun _ k' => Tends s.kernel k' []) :
    Operated s (s.ended (x.run s.kernel)) := by
  cases run : x.run s.kernel with
  | ok a k' => exact .of_tends (wp_ok spec run)
  | error e k' => exact .of_tends (wp_error spec run)

theorem step_operated {seam : Seam ς} {native : ShardOps ν ς} {input : Input ν ς} {s s' : System ν ς}
    (below : s.kernel.world.sb.Below) (own : ∀ call, input ≠ .bus call)
    (action : System.step seam native input s = some s') : Operated s s' := by
  cases input with
  | bus call => exact absurd rfl (own call)
  | load name path =>
      have spec := load_tends seam native name path below
      rw [System.step] at action
      cases run : (load seam native name path).run s.kernel with
      | error e k' =>
          obtain ⟨_, impossible, _⟩ := wp_error spec run
          cases impossible
      | ok result k' =>
          obtain ⟨_, same, tends⟩ := wp_ok spec run
          cases same
          simp only [run] at action
          split at action
          · rename_i loaded
            cases action
            rw [loaded, if_pos rfl] at tends
            exact ⟨rfl, rfl, _, tends, rfl⟩
          · rename_i refused
            cases action
            rw [if_neg refused] at tends
            exact .of_tends tends
  | reloadFrom name newPath =>
      cases action
      exact ended_operated (reloadFrom_tends seam native name newPath s.kernel)
  | unload name =>
      cases action
      apply ended_operated
      apply wp_mono (unload_tends seam name s.kernel)
      rintro r k' ⟨_, _, tends⟩
      exact tends

/-- What holds of a host whatever is called on it. -/
structure SystemOk (s : System ν ς) : Prop where
  kernel : KernelOk s.kernel
  numbered : Numbered s.machine
  stamped : QueueStamped s.machine
  granted : ∀ id rec, s.kernel.world.sb.find id = some rec → (id, rec.grant) ∈ s.registered
  staged : s.stack = [] ∨ s.kernel.world.sb.inDispatch = true ∧
    (s.stack = [.loop] ∨ ∃ e trusted, s.stack = [.handler e trusted, .loop])

theorem SystemOk.start (memory : ς) : SystemOk (System.start memory : System ν ς) where
  kernel := .start memory
  numbered := ⟨rfl, rfl⟩
  stamped := by intro e waiting; cases waiting
  granted := by intro id rec found; cases found
  staged := Or.inl rfl

theorem SystemOk.operated {s s' : System ν ς} (ok : SystemOk s) (h : Operated s s') (kernel : KernelOk s'.kernel) :
    SystemOk s' := by
  obtain ⟨joined, tends, registered⟩ := h.tends
  have mail := tends.mail
  have queue : s'.kernel.world.sb.queue = s.kernel.world.sb.queue := congrArg Mail.queue mail
  have quiet : s.machine.Quiet s'.machine := ⟨mail, h.stack⟩
  refine ⟨kernel, quiet.numbered h.origins ok.numbered, ?_, ?_, ?_⟩
  · refine ok.stamped.kept ?_ h.origins
    intro e waiting
    exact queue ▸ waiting
  · intro id rec' found
    rw [registered]
    rcases tends.records id rec' found with ⟨rec, before, same⟩ | ⟨listed, grant, _⟩
    · rw [same.grant]
      exact List.mem_append_left _ (ok.granted id rec before)
    · rw [grant]
      exact List.mem_append_right _ (List.mem_map_of_mem listed)
  · have inDispatch : s'.kernel.world.sb.inDispatch = s.kernel.world.sb.inDispatch := congrArg Mail.inDispatch mail
    rw [h.stack, inDispatch]
    exact ok.staged

theorem SystemOk.frames {s : System ν ς} (ok : SystemOk s) {frame : Frame} {frames : List Frame}
    (top : s.stack = frame :: frames) : s.kernel.world.sb.inDispatch = true ∧
      (frame = .loop ∧ frames = [] ∨ ∃ e trusted, frame = .handler e trusted ∧ frames = [.loop]) := by
  rcases ok.staged with empty | ⟨busy, looping | ⟨e, trusted, handling⟩⟩
  · rw [top] at empty
    cases empty
  · rw [top] at looping
    cases looping
    exact ⟨busy, Or.inl ⟨rfl, rfl⟩⟩
  · rw [top] at handling
    cases handling
    exact ⟨busy, Or.inr ⟨e, trusted, rfl, rfl⟩⟩

theorem SystemOk.bus {seam : Seam ς} {native : ShardOps ν ς} {input : Sb.Input ν ς} {s s' : System ν ς}
    (ok : SystemOk s) (action : System.step seam native (.bus input) s = some s') : SystemOk s' := by
  have kernel := step_ok ok.kernel action
  obtain ⟨m, moved, rfl⟩ := Option.map_eq_some_iff.mp action
  have reshaped := step_reshaped moved
  refine ⟨kernel, (step_refines ok.numbered moved).1, ?_, ?_, ?_⟩
  · rcases step_effect moved with effect | ⟨⟨e, threw⟩, _⟩
    · exact effect.stamped ok.numbered ok.stamped
    · have kept : QueueStamped m := by
        rw [threw.state]
        exact ok.stamped.kept (fun e waiting => waiting) rfl
      exact kept
  · intro id rec' found
    rcases reshaped.origin ok.kernel.below found with ⟨rec, before, kept, _⟩ | ⟨_, _, registered, _⟩
    · rw [kept.grant]
      exact reshaped.registered_mono (ok.granted id rec before)
    · have added : (s.withMachine m).registered = s.registered ++ [(id, rec'.grant)] := registered
      rw [added]
      exact List.mem_append_right _ (List.mem_singleton.mpr rfl)
  · change m.stack = [] ∨ m.world.sb.inDispatch = true ∧
      (m.stack = [.loop] ∨ ∃ e trusted, m.stack = [.handler e trusted, .loop])
    rcases step_effect moved with effect | ⟨⟨e, threw⟩, _⟩
    · cases effect with
      | quiet quiet origins =>
          have inDispatch : m.world.sb.inDispatch = s.kernel.world.sb.inDispatch := congrArg Mail.inDispatch quiet.1
          rw [quiet.2, inDispatch]
          exact ok.staged
      | enqueued es origin numbers stamped state =>
          subst state
          exact ok.staged
      | began idle state =>
          subst state
          rcases ok.staged with empty | ⟨busy, _⟩
          · exact Or.inr ⟨rfl, Or.inl (congrArg (List.cons Frame.loop) empty)⟩
          · exact absurd busy (Bool.eq_false_iff.mp idle)
      | turned frames top turned =>
          obtain ⟨busy, ⟨_, rfl⟩ | ⟨_, _, impossible, _⟩⟩ := ok.frames top
          · cases turned with
            | ended => exact Or.inl rfl
            | refused e queue w front refusal =>
                obtain ⟨refusal, bus⟩ := refusal.bus
                refine Or.inr ⟨?_, Or.inl top⟩
                rw [bus]
                exact busy
            | called e queue trusted w front call =>
                refine Or.inr ⟨?_, Or.inr ⟨e, trusted, congrArg (List.cons _) top⟩⟩
                rw [call.bus]
                exact busy
          · cases impossible
      | returned e trusted frames top state =>
          subst state
          obtain ⟨busy, ⟨impossible, _⟩ | ⟨_, _, _, rfl⟩⟩ := ok.frames top
          · cases impossible
          · exact Or.inr ⟨busy, Or.inl rfl⟩
    · obtain ⟨trusted, top⟩ := threw.top
      obtain ⟨_, ⟨impossible, _⟩ | ⟨_, _, _, below⟩⟩ := ok.frames top
      · cases impossible
      · exact Or.inl (List.cons.inj below).2

theorem SystemOk.step {seam : Seam ς} {native : ShardOps ν ς} {input : Input ν ς} {s s' : System ν ς} (ok : SystemOk s)
    (action : System.step seam native input s = some s') : SystemOk s' := by
  have kernel := step_ok ok.kernel action
  cases input with
  | bus call => exact ok.bus action
  | load name path => exact ok.operated (step_operated ok.kernel.below (by simp) action) kernel
  | reloadFrom name newPath => exact ok.operated (step_operated ok.kernel.below (by simp) action) kernel
  | unload name => exact ok.operated (step_operated ok.kernel.below (by simp) action) kernel

end Zen.Kernel
