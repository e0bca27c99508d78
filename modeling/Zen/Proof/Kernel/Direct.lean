import Zen.Proof.Kernel.Catalogue
import Zen.Proof.Kernel.System
import Zen.Spec.Direct

/-!
# Loading is registering

Over whole runs, a host whose kernel loads, reloads and unloads libraries shows the same as one that has the
classes themselves: the libraries, their manifests and the seam make no difference.
-/

namespace Zen.Kernel
open Lib Sb KernelM Proof

variable {τ ς ν α : Type}

/-! ## Without the seam -/

/-- What is said of Shards that are compiled in, said of the objects themselves. -/
def bare {σ ω : Type} (L : Likeness σ (Shard ν) ω (Foreign ς)) : Likeness σ ν ω ς where
  shard s n := L.shard s (.native n)
  kept w memory := L.kept w ⟨memory, []⟩
  state := L.state
  doors := L.doors

theorem matches_bare {σ ω β γ : Type} {L : Likeness σ (Shard ν) ω (Foreign ς)} {A : β → γ → Prop} {x : EStateM Exn ω β}
    {y : EStateM Exn ς γ} (h : Matches L.kept A x (onMemory y)) : Matches (bare L).kept A x y := by
  intro w memory kept
  have step := h w ⟨memory, []⟩ kept
  simp only [onMemory, EStateM.run] at step ⊢
  generalize x w = r at step
  generalize y memory = r' at step
  cases r' with
  | ok _ _ =>
      cases step with
      | ok same related => exact .ok same related
  | error _ _ =>
      cases step with
      | error related => exact .error related

theorem standin_bare {σ ω : Type} {L : Likeness σ (Shard ν) ω (Foreign ς)} {ops : ShardOps σ ω} {seam : Seam ς}
    {native : ShardOps ν ς} (standin : Standin ops (hostOps seam native) L) : Standin ops native (bare L) where
  acceptedSchemas same := matches_bare (standin.acceptedSchemas same)
  snapshot same := matches_bare (standin.snapshot same)
  policy same := matches_bare (standin.policy same)
  decoded good accepted := standin.decoded good accepted
  revive same good alike := matches_bare (standin.revive same good alike)

theorem agree_of_map {Q Q' A A' β γ δ : Type} {Qs : Q → Q' → Prop} {As : A → A' → Prop} {R : β → δ → Prop} {f : γ → δ}
    {d : Dialogue Q A β} {d' : Dialogue Q' A' γ} (agree : d.Agree Qs As R (d'.map f)) :
    d.Agree Qs As (fun a b => R a (f b)) d' := by
  induction d' generalizing d with
  | done b =>
      cases agree with
      | done same => exact .done same
  | ask q next ih =>
      cases agree with
      | ask same rest => exact .ask same fun a a' answered => ih a' (rest a a' answered)

theorem handles_bare {σ ω : Type} {L : Likeness σ (Shard ν) ω (Foreign ς)} {climate : Climate} {hs : Handlers σ ω}
    {plugin : Plugin ς} {native : Handlers ν ς} (handling : HandlesAlike L climate hs (hostHandlers plugin native))
    (alone : ∀ {w memory calls}, L.kept w ⟨memory, calls⟩ → L.kept w ⟨memory, []⟩) :
    HandlesAlike (bare L) climate hs native := by
  intro registry s n declared door msg msg' w memory known same doors listed gated carried kept
  have agree := agree_of_map (handling known same doors listed gated carried kept)
  exact agree.mono (fun _ _ h => h) (fun _ _ h => h) fun _ _ ends => ⟨ends.returns, alone ends.kept⟩

/-! ## The two hosts -/

variable {fleet : Fleet τ} {pool : List Schema} {start : Pointer}

def instOf : Shard Object → Pointer
  | .native o => o.inst
  | .library adapter => adapter.inst

/-- What is compiled in is below `start`. What is loaded is above, each object behind one Shard. -/
structure Tenants (start : Pointer) (sb : Switchboard (Shard Object)) : Prop where
  natives : ∀ {id rec o}, sb.find id = some rec → rec.shard = .native o → o.inst < start
  loaded : ∀ {id rec adapter}, sb.find id = some rec → rec.shard = .library adapter → start ≤ adapter.inst
  apart : ∀ {id id' rec rec' adapter}, sb.find id = some rec → rec.shard = .library adapter → sb.find id' = some rec' →
    instOf rec'.shard = adapter.inst → id' = id

/-- The host `s` with its libraries, and the one that has the classes. -/
structure Housed (fleet : Fleet τ) (pool : List Schema) (start : Pointer) (live : Pointer → Prop)
    (s : System Object (Image ς τ)) (d : Direct ς τ) : Prop where
  standing : Standing (bare (fleet.likeness (ς := ς) live)) fleet.climate s.machine d.machine
  names : d.names = s.kernel.libs.map fun l => (l.name, l.id)
  pooled : Pooled pool s.kernel.registry
  tenants : Tenants start s.kernel.world.sb
  resident : ∀ inst, inst < start → live inst

theorem Tenants.inherited {sb sb' : Switchboard (Shard Object)} (h : Tenants start sb)
    (inherits : ∀ id rec', sb'.find id = some rec' → (∃ rec, sb.find id = some rec ∧ rec'.shard = rec.shard) ∨
      ∃ o, rec'.shard = .native o ∧ o.inst < start) : Tenants start sb' := by
  have above : ∀ {id rec' adapter}, sb'.find id = some rec' → rec'.shard = .library adapter →
      ∃ rec, sb.find id = some rec ∧ rec.shard = .library adapter := by
    intro id rec' adapter found shard
    rcases inherits id rec' found with ⟨rec, old, same⟩ | ⟨o, native, _⟩
    · exact ⟨rec, old, same.symm.trans shard⟩
    · rw [native] at shard
      cases shard
  constructor
  · intro id rec' o found shard
    rcases inherits id rec' found with ⟨rec, old, same⟩ | ⟨o', native, below⟩
    · exact h.natives old (same.symm.trans shard)
    · rw [native] at shard
      cases shard
      exact below
  · intro id rec' adapter found shard
    obtain ⟨rec, old, shard⟩ := above found shard
    exact h.loaded old shard
  · intro id id' rec₁ rec₂ adapter found shard found' inst
    obtain ⟨rec, old, shard⟩ := above found shard
    rcases inherits id' rec₂ found' with ⟨rec', old', same⟩ | ⟨o, native, below⟩
    · exact h.apart old shard old' (same ▸ inst)
    · rw [native] at inst
      have inst : o.inst = adapter.inst := inst
      rw [inst] at below
      exact absurd (h.loaded old shard) (Nat.not_le.mpr below)

theorem Tenants.added {sb sb' : Switchboard (Shard Object)} (h : Tenants start sb) (below : sb.Below)
    {rec : ShardRecord (Shard Object)} (shards : sb'.shards = sb.shards.emplace sb.nextShardId rec) {adapter : HostAdapter}
    (shard : rec.shard = .library adapter) (above : start ≤ adapter.inst)
    (unused : ∀ id rec, sb.find id = some rec → instOf rec.shard ≠ adapter.inst) : Tenants start sb' := by
  have inst : instOf rec.shard = adapter.inst := by rw [shard]; rfl
  constructor
  · intro id rec' o found native
    rw [below.find_added shards] at found
    split at found
    · cases found
      rw [shard] at native
      cases native
    · exact h.natives found native
  · intro id rec' adapter' found shard'
    rw [below.find_added shards] at found
    split at found
    · cases found
      cases shard.symm.trans shard'
      exact above
    · exact h.loaded found shard'
  · intro id id' rec₁ rec₂ adapter' found shard' found' inst'
    rw [below.find_added shards] at found found'
    split at found
    · rename_i new
      cases found
      cases shard.symm.trans shard'
      split at found'
      · rename_i new'
        exact new'.trans new.symm
      · exact absurd inst' (unused id' rec₂ found')
    · split at found'
      · cases found'
        have same : instOf rec₁.shard = adapter.inst := by
          rw [shard', ← inst, inst']
          rfl
        exact absurd same (unused id rec₁ found)
      · exact h.apart found shard' found' inst'

theorem Tenants.replaced {sb sb' : Switchboard (Shard Object)} (h : Tenants start sb) {id : ShardId} {adapter : HostAdapter}
    {f : ShardRecord (Shard Object) → ShardRecord (Shard Object)} (shards : sb'.shards = sb.shards.update id f)
    (shard : ∀ rec, (f rec).shard = .library adapter) (above : start ≤ adapter.inst)
    (unused : ∀ id rec, sb.find id = some rec → instOf rec.shard ≠ adapter.inst) : Tenants start sb' := by
  have split : ∀ {k rec'}, sb'.find k = some rec' → (k = id ∧ rec'.shard = .library adapter) ∨ (k ≠ id ∧ sb.find k = some rec') := by
    intro k rec' found
    rw [Switchboard.find, shards, OrdMap.find_update] at found
    split at found
    · rename_i here
      obtain ⟨rec, _, rfl⟩ := Option.map_eq_some_iff.mp found
      exact .inl ⟨here, shard rec⟩
    · rename_i other
      exact .inr ⟨other, found⟩
  constructor
  · intro k rec' o found native
    rcases split found with ⟨_, library⟩ | ⟨_, old⟩
    · cases library.symm.trans native
    · exact h.natives old native
  · intro k rec' adapter' found library'
    rcases split found with ⟨_, library⟩ | ⟨_, old⟩
    · cases library.symm.trans library'
      exact above
    · exact h.loaded old library'
  · intro k k' rec₁ rec₂ adapter' found library' found' inst
    rcases split found with ⟨here, library⟩ | ⟨other, old⟩
    · cases library.symm.trans library'
      rcases split found' with ⟨here', _⟩ | ⟨_, old'⟩
      · exact here'.trans here.symm
      · exact absurd inst (unused k' rec₂ old')
    · rcases split found' with ⟨_, library⟩ | ⟨_, old'⟩
      · refine absurd ?_ (unused k rec₁ old)
        rw [library', ← show instOf rec₂.shard = adapter.inst by rw [library]; rfl, inst]
        rfl
      · exact h.apart old library' old' inst

/-! ## Calls on the bus -/

/-- What the host calls: it registers what is compiled in, and what it sends gets through its doors. -/
def Fleet.Proper (fleet : Fleet τ) (start : Pointer) : Sb.Input Object (Image ς τ) → Prop
  | .registerShard incoming _ => ∀ o, incoming = some o → o.inst < start
  | .send _ msg | .publish msg | .sendAs _ _ msg | .publishAs _ msg => fleet.climate.carries msg.payload
  | .unregisterShard _ | .kill _ | .reload _ _ | .swapState _ _ | .stop | .pump => True
  | _ => False

def Fleet.Allows (fleet : Fleet τ) (start : Pointer) : Input Object (Image ς τ) → Prop
  | .bus call => fleet.Proper start call
  | _ => True

theorem proper_counterpart {live : Pointer → Prop} (resident : ∀ inst, inst < start → live inst)
    {call : Sb.Input Object (Image ς τ)} (proper : fleet.Proper start call) :
    Counterpart (bare (fleet.likeness (ς := ς) live)) fleet.climate (hosted call) call := by
  cases call with
  | registerShard incoming grant =>
      refine .registerShard ?_ grant
      cases incoming with
      | none => exact .none
      | some o => exact .some ⟨o, resident o.inst (proper o rfl), .compiled, .compiled⟩
  | send target msg => exact .send target ⟨rfl, proper⟩
  | publish msg => exact .publish ⟨rfl, proper⟩
  | sendAs asSender target msg => exact .sendAs asSender target ⟨rfl, proper⟩
  | publishAs asSender msg => exact .publishAs asSender ⟨rfl, proper⟩
  | unregisterShard id => exact .unregisterShard id
  | kill id => exact .kill id
  | reload id bytes => exact .reload id bytes
  | swapState id bytes => exact .swapState id bytes
  | stop => exact .stop
  | pump => exact .pump
  | turn | handlerSends | handlerPublishes | handlerReturns | handlerThrows | outside => cases proper

variable {loader : Loader ς} {cls : Pointer → ShardClass τ} {live : Pointer → Prop} {s : System Object (Image ς τ)}
  {d : Direct ς τ}

theorem proper_joining {call : Sb.Input Object (Image ς τ)} (proper : fleet.Proper start call) {shard : Shard Object}
    (joins : (hosted call).joining = some shard) : ∃ o, shard = .native o ∧ o.inst < start := by
  cases call with
  | registerShard incoming grant =>
      obtain ⟨o, there, rfl⟩ := Option.map_eq_some_iff.mp joins
      exact ⟨o, rfl, proper o there⟩
  | _ => cases joins

theorem run_tenants {ops : ShardOps (Shard Object) (Foreign (Image ς τ))} {k : Kernel Object (Image ς τ)}
    {inputs : List (Sb.Input (Shard Object) (Foreign (Image ς τ)))} {m m' : Machine (Shard Object) (Foreign (Image ς τ))}
    (run : Run (Machine.step ops) m inputs m')
    (natives : ∀ input ∈ inputs, ∀ shard, input.joining = some shard → ∃ o, shard = .native o ∧ o.inst < start)
    (ok : KernelOk { k with world := m.world }) (tenants : Tenants start m.world.sb) :
    KernelOk { k with world := m'.world } ∧ Tenants start m'.world.sb := by
  refine Run.preserves (I := fun m => KernelOk { k with world := m.world } ∧ Tenants start m.world.sb) ?_ run natives
    ⟨ok, tenants⟩
  rintro input m m' allowed ⟨ok, tenants⟩ action
  have reshaped := step_reshaped action
  constructor
  · have carried : Carried m.world.sb m'.world.sb := by
      refine reshaped_carried reshaped ok.below fun shard joins => ?_
      obtain ⟨o, rfl, _⟩ := allowed shard joins
      rfl
    exact ok.carried carried (fun l hl => ⟨l, hl, rfl⟩) [] (List.append_nil _).symm (fun _ h => nomatch h)
  · refine tenants.inherited fun id rec' found => ?_
    rcases reshaped.origin ok.below found with ⟨rec, old, kept, _⟩ | ⟨_, _, _, _, joins⟩
    · exact .inl ⟨rec, old, kept.shard⟩
    · exact .inr (allowed _ joins)

variable (loader) in
theorem direct_standin (portable : ∀ abi, Portable (cls abi) fleet abi) :
    Standin (hostOps (exported loader cls).toSeam (compiledOps cls)) (compiledOps cls)
      (bare (fleet.likeness (ς := ς) live)) :=
  standin_bare (loads_standin portable)

variable (loader) in
theorem direct_handles (portable : ∀ abi, Portable (cls abi) fleet abi) :
    HandlesAlike (bare (fleet.likeness (ς := ς) live)) fleet.climate
      (hostHandlers (exported loader cls) (compiledHandlers cls)) (compiledHandlers cls) :=
  handles_bare (@loads_handle _ _ _ live loader cls portable) fun kept => kept

variable (loader) in
theorem played (portable : ∀ abi, Portable (cls abi) fleet abi) (h : Housed fleet pool start live s d)
    (ok : KernelOk s.kernel) {call : Sb.Input Object (Image ς τ)} (proper : fleet.Proper start call) (fuel : Nat) :
    Option.Rel (fun m m' => Housed fleet pool start live (s.withMachine m) { d with machine := m' } ∧
        KernelOk (s.withMachine m).kernel)
      (play (hostOps (exported loader cls).toSeam (compiledOps cls)) (hostHandlers (exported loader cls) (compiledHandlers cls))
        fuel [hosted call] s.machine)
      (play (compiledOps cls) (compiledHandlers cls) fuel [call] d.machine) := by
  have both := play_stands (direct_standin loader portable) (direct_handles loader portable) fuel
    (.cons (proper_counterpart h.resident proper) .nil) h.standing
  generalize ends : play (hostOps (exported loader cls).toSeam (compiledOps cls)) _ fuel _ s.machine = result at both
  generalize play (compiledOps cls) _ fuel _ d.machine = result' at both
  cases both with
  | none => exact .none
  | some standing =>
      obtain ⟨inputs, run, known⟩ := play_run ends
      have natives : ∀ input ∈ inputs, ∀ shard, input.joining = some shard → ∃ o, shard = .native o ∧ o.inst < start := by
        intro input hinput shard joins
        rcases known input hinput with own | other
        · rw [List.mem_singleton.mp own] at joins
          exact proper_joining proper joins
        · rw [other] at joins
          cases joins
      obtain ⟨kernel, tenants⟩ := @run_tenants _ _ _ _ s.kernel _ _ _ run natives ok h.tenants
      exact .some ⟨⟨standing, h.names, h.pooled, tenants, h.resident⟩, kernel⟩

/-! ## Objects come and go -/

namespace Fleet.Kept

variable {objects objects' : Objects τ}

theorem created (h : fleet.Kept live objects objects') {s : τ} (same : fleet.same s s) :
    fleet.Kept (fun inst => live inst ∨ inst = objects.next) (objects.create s) (objects'.create s) := by
  refine ⟨congrArg (· + 1) h.next, ?_, ?_⟩
  · rintro inst (lives | rfl)
    · exact Nat.lt_succ_of_lt (h.made inst lives)
    · exact Nat.lt_succ_self _
  · intro inst lives
    by_cases new : inst = objects.next
    · subst new
      exact ⟨s, s, Function.update_self .., by rw [h.next]; exact Function.update_self .., same⟩
    · obtain ⟨t, t', here, here', related⟩ := h.there inst (lives.resolve_right new)
      refine ⟨t, t', (Function.update_of_ne new ..).trans here, ?_, related⟩
      rw [h.next] at new
      exact (Function.update_of_ne new ..).trans here'

theorem destroyed (h : fleet.Kept live objects objects') (gone : Pointer) :
    fleet.Kept (fun inst => live inst ∧ inst ≠ gone) (objects.destroy gone) (objects'.destroy gone) := by
  refine ⟨h.next, fun inst lives => h.made inst lives.1, ?_⟩
  rintro inst ⟨lives, other⟩
  obtain ⟨t, t', here, here', related⟩ := h.there inst lives
  exact ⟨t, t', (Function.update_of_ne other ..).trans here, (Function.update_of_ne other ..).trans here', related⟩

end Fleet.Kept

-- the adapter that the kernel makes for an object
abbrev Fleet.adapter (fleet : Fleet τ) (o : Object) : HostAdapter := ⟨o.cls, o.inst, fleet.doors o.cls, fleet.state o.cls⟩

theorem Hosts.inst {o : Object} {shard : Shard Object} (hosts : Hosts fleet o shard) : instOf shard = o.inst := by
  cases hosts <;> rfl

namespace Housed

def memoryOf (s : System Object (Image ς τ)) : Objects τ := s.kernel.world.env.memory.2

def objectsOf (d : Direct ς τ) : Objects τ := d.machine.world.env.2

theorem kept (h : Housed fleet pool start live s d) : fleet.Kept live (memoryOf s) (objectsOf d) := h.standing.world.env

theorem next (h : Housed fleet pool start live s d) : (memoryOf s).next = (objectsOf d).next := h.kept.next

theorem above (h : Housed fleet pool start live s d) : start ≤ (memoryOf s).next := by
  by_contra small
  exact Nat.lt_irrefl _ (h.kept.made _ (h.resident _ (Nat.lt_of_not_le small)))

-- what is behind a record is alive
theorem lives (h : Housed fleet pool start live s d) {id : ShardId} {rec : ShardRecord (Shard Object)}
    (found : s.kernel.world.sb.find id = some rec) : live (instOf rec.shard) := by
  have both := h.standing.world.find id
  rw [show s.machine.world.sb.find id = some rec from found] at both
  generalize d.machine.world.sb.find id = found' at both
  cases both with
  | some twins =>
      obtain ⟨o, lives, left, _⟩ := twins.shard
      rw [left.inst]
      exact lives

/-- Other objects, where those that are needed stay. -/
theorem moved (h : Housed fleet pool start live s d) {live' : Pointer → Prop} {env : Foreign (Image ς τ)} {env' : Image ς τ}
    (kept : fleet.Kept live' env.memory.2 env'.2) (resident : ∀ inst, inst < start → live' inst)
    (stays : ∀ id rec, s.kernel.world.sb.find id = some rec → live' (instOf rec.shard)) :
    Housed fleet pool start live' { s with kernel := s.kernel.behind env } (d.after { d.machine.world with env := env' }) := by
  refine ⟨h.standing.renewed ?_ kept, h.names, h.pooled, h.tenants, resident⟩
  rintro id rec rec' found found' ⟨⟨o, _, left, right⟩, state, doors⟩
  exact ⟨⟨o, left.inst ▸ stays id rec found, left, right⟩, state, doors⟩

/-- The kernel calls on a library, and no object knows. -/
theorem aside (h : Housed fleet pool start live s d) (memory : ς) (calls : List Call) :
    Housed fleet pool start live { s with kernel := s.kernel.behind ⟨(memory, memoryOf s), calls⟩ } d :=
  @moved _ _ _ _ _ _ _ _ h live ⟨(memory, memoryOf s), calls⟩ d.machine.world.env h.kept h.resident fun _ _ => h.lives

theorem created (h : Housed fleet pool start live s d) {t : τ} (same : fleet.same t t) (memory : ς) (calls : List Call) :
    Housed fleet pool start (fun inst => live inst ∨ inst = (memoryOf s).next)
      { s with kernel := s.kernel.behind ⟨(memory, (memoryOf s).create t), calls⟩ }
      (d.withObjects fun objects => objects.create t) :=
  h.moved (h.kept.created same) (fun inst small => .inl (h.resident inst small)) fun _ _ found => .inl (h.lives found)

theorem evicted (h : Housed fleet pool start live s d) (o : Object) (loaded : start ≤ o.inst)
    (unused : ∀ id rec, s.kernel.world.sb.find id = some rec → instOf rec.shard ≠ o.inst) (memory : ς) (calls : List Call) :
    Housed fleet pool start (fun inst => live inst ∧ inst ≠ o.inst)
      { s with kernel := s.kernel.behind ⟨(memory, (memoryOf s).destroy o.inst), calls⟩ } (d.dropped o) := by
  refine h.moved (h.kept.destroyed o.inst) (fun inst small => ⟨h.resident inst small, ?_⟩)
    fun id rec found => ⟨h.lives found, unused id rec found⟩
  exact Nat.ne_of_lt (Nat.lt_of_lt_of_le small loaded)

theorem find (h : Housed fleet pool start live s d) (name : ByteString) :
    d.find name = (Kernel.find s.kernel name).map Loaded.id := by
  rw [Direct.find, h.names, List.find?_map, Option.map_map]
  rfl

/-- An object is registered, behind an adapter and as it is. -/
theorem wp_registers (portable : ∀ abi, Portable (cls abi) fleet abi) (h : Housed fleet pool start live s d)
    (below : s.kernel.world.sb.Below) {o : Object} (lives : live o.inst) (above : start ≤ o.inst)
    (unused : ∀ id rec, s.kernel.world.sb.find id = some rec → instOf rec.shard ≠ o.inst)
    {Q : Except Exn ShardId → World (Shard Object) (Foreign (Image ς τ)) → Prop}
    (refused : ∀ e e' w w', (registerShard (compiledOps cls) (some o) allowAny).run d.machine.world = .error e' w' →
      Housed fleet pool start live { s with kernel := { s.kernel with world := w } } (d.after w') →
      w.sb.shards = s.kernel.world.sb.shards → Q (.error e) w)
    (registered : ∀ id w w', (registerShard (compiledOps cls) (some o) allowAny).run d.machine.world = .ok id w' →
      Housed fleet pool start live { s with kernel := { s.kernel with world := w } } (d.after w') → Q (.ok id) w) :
    wp (registerShard (hostOps (exported loader cls).toSeam (compiledOps cls)) (some (.library (fleet.adapter o))) allowAny)
      s.kernel.world Q := by
  have loads : (bare (fleet.likeness (ς := ς) live)).shard (.library (fleet.adapter o)) o := ⟨o, lives, .loaded, .compiled⟩
  have matched := registerShard_stands (direct_standin loader portable) (.some loads) allowAny _ _ h.standing.world
  have spec := registerShard_spec (hostOps (exported loader cls).toSeam (compiledOps cls))
    (some (.library (fleet.adapter o))) allowAny s.kernel.world
  have keeps := @registerShard_grows _ _ fleet.climate (hostOps (exported loader cls).toSeam (compiledOps cls))
    (some (.library (fleet.adapter o))) allowAny s.kernel.world h.standing.known
  unfold wp at spec keeps ⊢
  change Matched _ _ ((registerShard _ _ _).run s.kernel.world) _ at matched
  generalize (registerShard _ _ _).run s.kernel.world = r at matched spec keeps
  generalize ends : (registerShard _ _ _).run d.machine.world = r' at matched
  cases matched with
  | error world =>
      have within := h.standing.within world (congrArg Mail.queue spec.1) keeps
      refine refused _ _ _ _ ends ⟨within, h.names, h.pooled, h.tenants.inherited ?_, h.resident⟩ spec.2.2.1
      intro id rec' found
      rw [Switchboard.find, spec.2.2.1] at found
      exact .inl ⟨rec', found, rfl⟩
  | ok same world =>
      subst same
      have within := h.standing.within world (congrArg Mail.queue spec.1) keeps
      obtain ⟨_, _, rfl, _, rec, shards, fresh⟩ := spec
      have shard := (Option.some.inj fresh.shard).symm
      exact registered _ _ _ ends
        ⟨within, h.names, h.pooled, h.tenants.added below shards shard above unused, h.resident⟩

/-! ## Load -/

theorem unmade (h : Housed fleet pool start live s d) (id : ShardId) (rec : ShardRecord (Shard Object))
    (found : s.kernel.world.sb.find id = some rec) : instOf rec.shard ≠ (memoryOf s).next :=
  Nat.ne_of_lt (h.kept.made _ (h.lives found))

theorem recatalogued (h : Housed fleet pool start live s d) {registry : Registry} (pooled : Pooled pool registry) :
    Housed fleet pool start live { s with kernel := { s.kernel with registry } } d :=
  ⟨h.standing, h.names, pooled, h.tenants, h.resident⟩

theorem listed (h : Housed fleet pool start live s d) (name : ByteString) (lib abi : Pointer) (id : ShardId)
    (bound : List (ShardId × List Schema)) : Housed fleet pool start live
      { s with kernel := { s.kernel with libs := s.kernel.libs ++ [⟨name, lib, abi, id⟩], bound }
               registered := s.registered ++ [(id, allowAny)] }
      { machine := { d.machine with registered := d.machine.registered ++ [(id, allowAny)] }
        names := d.names ++ [(name, id)] } := by
  refine ⟨⟨h.standing.world, ?_, h.standing.traffic, h.standing.known⟩, ?_, h.pooled, h.tenants, h.resident⟩
  · exact congrArg (fun m : Machine Unit Unit => { m with registered := m.registered ++ [(id, allowAny)] }) h.standing.shown
  · simp only [h.names, List.map_append, List.map_singleton]

/-- A load that ends as registering the object itself has ended. -/
def Landed (fleet : Fleet τ) (pool : List Schema) (start : Pointer) (s : System Object (Image ς τ))
    (result : Option ShardId × Direct ς τ) : Except Exn LoadResult → Kernel Object (Image ς τ) → Prop
  | .error _, _ => False
  | .ok r, k' => result.1 = (if r.ok then some r.id else none) ∧ ∃ live', Housed fleet pool start live'
      { s with kernel := k', registered := if r.ok then s.registered ++ [(r.id, allowAny)] else s.registered } result.2

theorem construct_none {paths : ByteString → Option Pointer} {path : ByteString}
    (unmade : ∀ c t, paths path = some c → (cls c).doCreate ≠ some t) : d.construct cls (paths path) = none := by
  unfold Direct.construct
  cases here : paths path with
  | none => rfl
  | some c =>
      cases made : (cls c).doCreate with
      | none => simp only [made, Option.map_none]
      | some t => exact absurd made (unmade c t here)

theorem construct_some {paths : ByteString → Option Pointer} {path : ByteString} {c : Pointer} {t : τ}
    (here : paths path = some c) (made : (cls c).doCreate = some t) : d.construct cls (paths path) =
      some (⟨c, (objectsOf d).next⟩, d.withObjects fun objects => objects.create t) := by
  simp only [Direct.construct, here, made, Option.map_some]
  rfl

theorem create_eq {c : ShardClass τ} {t : τ} (made : c.doCreate = some t) : c.create = .ok t := by
  unfold ShardClass.doCreate at made
  cases created : c.create with
  | error e =>
      rw [created] at made
      cases made
  | ok t' =>
      rw [created] at made
      cases made
      rfl

variable {paths : ByteString → Option Pointer}

variable (loader) in
theorem load (catalogue : fleet.Catalogue pool) (portable : ∀ abi, Portable (cls abi) fleet abi)
    (creates : ∀ abi t, (cls abi).create = .ok t → fleet.same t t) (installed : loader.Installed paths)
    (h : Housed fleet pool start live s d) (below : s.kernel.world.sb.Below) (name path : ByteString) :
    wp (Kernel.load (exported loader cls).toSeam (compiledOps cls) name path) s.kernel
      (Landed fleet pool start s (d.load cls name (paths path))) := by
  rw [load_eq, wp_bind, wp_get, andThen_ok]
  unfold Direct.load
  rw [h.find, Option.isSome_map]
  split
  · exact ⟨rfl, live, h⟩
  · apply wp_exported_opening installed
    · intro unmade error memory calls
      rw [construct_none unmade]
      exact ⟨rfl, live, h.aside memory calls⟩
    · intro c t here made lib memory calls
      rw [construct_some here made]
      have same := creates c t (create_eq made)
      have object : ((memoryOf s).create t).at? (memoryOf s).next = some t := Function.update_self ..
      unfold settle mount
      rw [wp_bind, wp_attempt, wp_bind]
      refine @wp_exported_reconstruct _ _ _ _ _ _ _ catalogue c _ (portable c)
        (s.kernel.behind ⟨(memory, (memoryOf s).create t), calls⟩) h.pooled t object same _ ?_
      intro registry calls' pooled
      have fresh := (h.created same memory calls').recatalogued pooled
      simp only [andThen_ok, wp_bind, wp_onBus]
      rw [← h.next]
      refine wp_registers portable fresh below (o := ⟨c, (memoryOf s).next⟩) (.inr rfl) h.above h.unmade
        ?_ ?_
      · intro e e' w w' ends housed shards
        rw [ends]
        simp only [andThen_error, discard, wp_bind, wp_onSeam, wp_exported_destroy, wp_exported_libClose, andThen_ok,
          wp_pure]
        have unused : ∀ id rec, w.sb.find id = some rec → instOf rec.shard ≠ (memoryOf s).next := by
          intro id rec found
          rw [Switchboard.find, shards] at found
          exact h.unmade id rec found
        exact ⟨rfl, _, housed.evicted ⟨c, (memoryOf s).next⟩ h.above unused _ _⟩
      · intro id w w' ends housed
        rw [ends]
        exact ⟨rfl, _, housed.listed name lib c id _⟩

/-! ## Unload -/

theorem find_unregistered {σ : Type} (sb : Switchboard σ) (id k : ShardId) :
    (sb.unregisterShard id).1.find k = if k = id then none else sb.find k := by
  unfold Switchboard.unregisterShard
  cases found : sb.find id with
  | none =>
      by_cases here : k = id
      · rw [if_pos here, here]
        exact found
      · rw [if_neg here]
  | some rec => exact OrdMap.find_erase ..

theorem unregistered_released {σ : Type} (sb : Switchboard σ) (id : ShardId) :
    (sb.unregisterShard id).2 = (sb.find id).map ShardRecord.shard := by
  unfold Switchboard.unregisterShard
  cases sb.find id <;> rfl

theorem unregistered (h : Housed fleet pool start live s d) (name : ByteString) (id : ShardId) :
    Housed fleet pool start live
      { s with kernel := { s.kernel with
          libs := s.kernel.libs.filter fun l => !(l.name == name)
          world := { s.kernel.world with sb := (s.kernel.world.sb.unregisterShard id).1 } } }
      { d.after { d.machine.world with sb := (d.machine.world.sb.unregisterShard id).1 } with
        names := d.names.filter fun entry => !(entry.1 == name) } := by
  refine ⟨step_unregister h.standing id, ?_, h.pooled, h.tenants.inherited ?_, h.resident⟩
  · rw [h.names, List.filter_map]
    rfl
  · intro k rec found
    rw [find_unregistered] at found
    split at found
    · cases found
    · exact .inl ⟨rec, found, rfl⟩

variable (loader cls) in
theorem unload (h : Housed fleet pool start live s d) (ok : KernelOk s.kernel) (name : ByteString) :
    wp (Kernel.unload (exported loader cls).toSeam name : KernelM Object (Image ς τ) Bool) s.kernel fun r k' =>
      r = .ok (d.unload name).1 ∧ ∃ live', Housed fleet pool start live' { s with kernel := k' } (d.unload name).2 := by
  unfold Kernel.unload Direct.unload
  rw [wp_bind, wp_get, andThen_ok, h.find]
  cases loaded : Kernel.find s.kernel name with
  | none => exact ⟨rfl, live, h⟩
  | some l =>
      have gone := h.unregistered name l.id
      have twins := h.standing.world.find l.id
      simp only [Option.map_some, wp_bind, wp_modify, wp_get, andThen_ok]
      change Option.Rel _ (s.kernel.world.sb.find l.id) _ at twins
      rw [unregistered_released, unregistered_released]
      generalize found : s.kernel.world.sb.find l.id = there at twins ⊢
      generalize d.machine.world.sb.find l.id = there' at twins ⊢
      cases twins with
      | none =>
          simp only [Option.map_none, wp_bind, wp_onSeam, wp_exported_libClose, andThen_ok, wp_pure]
          exact ⟨trivial, live, gone.aside _ _⟩
      | @some rec rec' twins =>
          obtain ⟨adapter, shard, _⟩ := ok.loaded l (List.mem_of_find?_eq_some loaded) rec found
          obtain ⟨o, _, left, right⟩ := twins.shard
          have unused : ∀ id rec', (s.kernel.world.sb.unregisterShard l.id).1.find id = some rec' →
              instOf rec'.shard ≠ adapter.inst := by
            intro id rec' found' inst
            rw [find_unregistered] at found'
            split at found'
            · cases found'
            · rename_i other
              exact other (h.tenants.apart found shard found' inst)
          have above := h.tenants.loaded found shard
          rw [shard] at left
          have native : rec'.shard = o := by
            generalize rec'.shard = n at right
            cases right
            rfl
          cases left
          simp only [Option.map_some, shard, native, wp_bind, wp_onSeam, wp_exported_destroy, wp_exported_libClose,
            andThen_ok, wp_pure]
          exact ⟨trivial, _, gone.evicted o above unused _ _⟩

/-! ## Reload -/

/-- Something that the two buses do alike, and no Shard comes or goes. -/
theorem wp_alike {α : Type} {x : BusM (Shard Object) (Foreign (Image ς τ)) α} {y : BusM Object (Image ς τ) α}
    (h : Housed fleet pool start live s d)
    (matched : Matched (Stands (bare (fleet.likeness (ς := ς) live))) Eq (x.run s.kernel.world) (y.run d.machine.world))
    (spec : wp x s.kernel.world fun _ w => w.sb.queue = s.kernel.world.sb.queue ∧ w.sb.registry = s.kernel.world.sb.registry ∧
      ∀ id rec', w.sb.find id = some rec' → ∃ rec, s.kernel.world.sb.find id = some rec ∧ rec'.shard = rec.shard)
    {Q : Except Exn α → World (Shard Object) (Foreign (Image ς τ)) → Prop}
    (failed : ∀ e e' w w', x.run s.kernel.world = .error e w → y.run d.machine.world = .error e' w' →
      Housed fleet pool start live { s with kernel := { s.kernel with world := w } } (d.after w') → Q (.error e) w)
    (done : ∀ a w w', x.run s.kernel.world = .ok a w → y.run d.machine.world = .ok a w' →
      Housed fleet pool start live { s with kernel := { s.kernel with world := w } } (d.after w') → Q (.ok a) w) :
    wp x s.kernel.world Q := by
  unfold wp at spec ⊢
  generalize run : x.run s.kernel.world = r at matched spec
  generalize run' : y.run d.machine.world = r' at matched
  have known := h.standing.known
  cases matched with
  | error world =>
      obtain ⟨queue, registry, records⟩ := spec
      have within := h.standing.within world queue (by rw [registry]; exact known)
      exact failed _ _ _ _ run run'
        ⟨within, h.names, h.pooled, h.tenants.inherited fun id rec' found => .inl (records id rec' found), h.resident⟩
  | ok same world =>
      subst same
      obtain ⟨queue, registry, records⟩ := spec
      have within := h.standing.within world queue (by rw [registry]; exact known)
      exact done _ _ _ run run'
        ⟨within, h.names, h.pooled, h.tenants.inherited fun id rec' found => .inl (records id rec' found), h.resident⟩

theorem wp_snapshots (portable : ∀ abi, Portable (cls abi) fleet abi) (h : Housed fleet pool start live s d) (id : ShardId)
    {Q : Except Exn ByteString → World (Shard Object) (Foreign (Image ς τ)) → Prop}
    (failed : ∀ e e' w w', (snapshotBytes (compiledOps cls) id).run d.machine.world = .error e' w' →
      Housed fleet pool start live { s with kernel := { s.kernel with world := w } } (d.after w') → Q (.error e) w)
    (done : ∀ state w w', (snapshotBytes (compiledOps cls) id).run d.machine.world = .ok state w' →
      w.sb = s.kernel.world.sb → (∃ rec, s.kernel.world.sb.find id = some rec) →
      Housed fleet pool start live { s with kernel := { s.kernel with world := w } } (d.after w') → Q (.ok state) w) :
    wp (snapshotBytes (hostOps (exported loader cls).toSeam (compiledOps cls)) id) s.kernel.world Q := by
  have matched := snapshotBytes_stands (direct_standin loader portable) id _ _ h.standing.world
  have spec := snapshotBytes_spec (exported loader cls).toSeam (compiledOps cls) id s.kernel.world
  refine h.wp_alike matched (wp_mono spec ?_) (fun e e' w w' _ run' housed => failed e e' w w' run' housed) ?_
  · rintro r w ⟨bus, _, _⟩
    rw [bus]
    exact ⟨rfl, rfl, fun id rec found => ⟨rec, found, rfl⟩⟩
  · intro state w w' run run' housed
    refine done state w w' run' (wp_ok spec run).bus ?_ housed
    cases found : s.kernel.world.sb.find id with
    | some rec => exact ⟨rec, rfl⟩
    | none =>
        simp only [snapshotBytes, EStateM.run_bind, EStateM.run_get, found] at run
        cases run

theorem wp_swaps (portable : ∀ abi, Portable (cls abi) fleet abi) (h : Housed fleet pool start live s d)
    (below : s.kernel.world.sb.Below) (id : ShardId) (bytes : ByteString)
    {Q : Except Exn ReviveOutcome → World (Shard Object) (Foreign (Image ς τ)) → Prop}
    (failed : ∀ e e' w w', (swapState (compiledOps cls) id bytes).run d.machine.world = .error e' w' →
      Housed fleet pool start live { s with kernel := { s.kernel with world := w } } (d.after w') → Q (.error e) w)
    (done : ∀ out w w', (swapState (compiledOps cls) id bytes).run d.machine.world = .ok out w' →
      Housed fleet pool start live { s with kernel := { s.kernel with world := w } } (d.after w') → Q (.ok out) w) :
    wp (swapState (hostOps (exported loader cls).toSeam (compiledOps cls)) id bytes) s.kernel.world Q := by
  have matched := swapState_stands (direct_standin loader portable) id bytes _ _ h.standing.world
  have published := swapState_registry (hostOps (exported loader cls).toSeam (compiledOps cls)) id bytes s.kernel.world
  refine h.wp_alike matched ?_ (fun e e' w w' _ => failed e e' w w') fun out w w' _ => done out w w'
  have spec := swapState_spec (hostOps (exported loader cls).toSeam (compiledOps cls)) id bytes s.kernel.world
  unfold wp at spec ⊢
  generalize (swapState _ _ _).run s.kernel.world = r at spec published
  have kept : ∀ {r : Except Exn ReviveOutcome} {w}, Swapped id bytes s.kernel.world r w →
      w.sb.registry = s.kernel.world.sb.registry → w.sb.queue = s.kernel.world.sb.queue ∧
        w.sb.registry = s.kernel.world.sb.registry ∧ ∀ id rec', w.sb.find id = some rec' →
          ∃ rec, s.kernel.world.sb.find id = some rec ∧ rec'.shard = rec.shard := by
    intro r w swapped registry
    refine ⟨congrArg Mail.queue swapped.1, registry, ?_⟩
    intro id rec' found
    have reshaped : Reshaped none s.machine { s.machine with world := w } := reloaded_reshaped swapped.reloaded
    rcases reshaped.origin below found with ⟨rec, old, kept, _⟩ | ⟨_, _, _, _, joins⟩
    · exact ⟨rec, old, kept.shard⟩
    · cases joins
  cases r with
  | ok out w => exact kept spec published
  | error e w => exact kept spec published

theorem below_updated {σ : Type} {sb : Switchboard σ} (below : sb.Below) {id : ShardId}
    (f : ShardRecord σ → ShardRecord σ) : ({ sb with shards := sb.shards.update id f } : Switchboard σ).Below := by
  intro k rec found
  rw [Switchboard.find, OrdMap.find_update] at found
  split at found
  · obtain ⟨old, there, _⟩ := Option.map_eq_some_iff.mp found
    exact below k old there
  · exact below k rec found

/-- Another object of the same doors and state behind the record. -/
theorem replaced (h : Housed fleet pool start live s d) {id : ShardId} {rec : ShardRecord (Shard Object)} {old fresh : Object}
    (found : s.kernel.world.sb.find id = some rec) (behind : rec.shard = .library (fleet.adapter old))
    (doors : fleet.doors fresh.cls = fleet.doors old.cls) (state : fleet.state fresh.cls = fleet.state old.cls)
    (lives : live fresh.inst) (above : start ≤ fresh.inst)
    (unused : ∀ id rec, s.kernel.world.sb.find id = some rec → instOf rec.shard ≠ fresh.inst) :
    Housed fleet pool start live
      { s with kernel := { s.kernel with world := { s.kernel.world with sb := { s.kernel.world.sb with
          shards := s.kernel.world.sb.shards.update id fun rec => { rec with
            shard := .library { fleet.adapter old with abi := fresh.cls, inst := fresh.inst } } } } } }
      (d.after { d.machine.world with sb := { d.machine.world.sb with
          shards := d.machine.world.sb.shards.update id fun rec => { rec with shard := fresh } } }) := by
  have same : ({ fleet.adapter old with abi := fresh.cls, inst := fresh.inst } : HostAdapter) = fleet.adapter fresh := by
    simp only [Fleet.adapter, doors, state]
  rw [same]
  have stands : Stands (bare (fleet.likeness (ς := ς) live))
      { s.kernel.world with sb := { s.kernel.world.sb with
          shards := s.kernel.world.sb.shards.update id fun rec => { rec with shard := .library (fleet.adapter fresh) } } }
      { d.machine.world with sb := { d.machine.world.sb with
          shards := d.machine.world.sb.shards.update id fun rec => { rec with shard := fresh } } } := by
    refine updated_stands (g := fun rec => rec) h.standing.world id (fun _ => rfl) (fun _ => rfl) ?_
    intro rec₁ rec' here here'
    cases found.symm.trans here
    obtain ⟨_, good, declared, told, owned⟩ := h.standing.world.twins here here'
    have classes : classOf rec.shard = old.cls := by rw [behind]; rfl
    refine ⟨⟨fresh, lives, .loaded, .compiled⟩, ?_, declared, ?_, owned⟩
    · obtain ⟨door, schema, crosses⟩ := good
      refine ⟨door.trans ?_, schema, crosses⟩
      rw [classes, ← state]
      rfl
    · refine Eq.trans told ?_
      rw [classes, ← doors]
      rfl
  refine ⟨h.standing.within stands rfl h.standing.known, h.names, h.pooled, ?_, h.resident⟩
  refine @Tenants.replaced _ _ _ h.tenants id (fleet.adapter fresh)
    (fun rec => { rec with shard := .library (fleet.adapter fresh) }) rfl ?_ above unused
  exact fun _ => rfl

/-- A reload that ends as replacing the object itself has ended. -/
def Renewed (fleet : Fleet τ) (pool : List Schema) (start : Pointer) (s : System Object (Image ς τ)) (result : Bool × Direct ς τ)
    (r : Except Exn ReloadResult) (k' : Kernel Object (Image ς τ)) : Prop :=
  result.1 = r.toOption.any ReloadResult.reloaded ∧ ∃ live', Housed fleet pool start live' { s with kernel := k' } result.2

theorem relabelled (h : Housed fleet pool start live s d) (name : ByteString) (lib abi : Pointer)
    (bound : List (ShardId × List Schema)) : Housed fleet pool start live
      { s with kernel := { s.kernel with
          libs := s.kernel.libs.map fun l => if l.name == name then { l with abi, lib } else l
          bound } } d := by
  refine ⟨h.standing, ?_, h.pooled, h.tenants, h.resident⟩
  rw [h.names, List.map_map]
  apply List.map_congr_left
  intro l _
  simp only [Function.comp_apply]
  split <;> rfl

-- it makes no difference which comes first, dropping the old object or putting the new one in its place
theorem replace_eq (id : ShardId) (old fresh : Object) (state : ByteString) (d : Direct ς τ) :
    Direct.replace cls id old fresh state d =
      match (swapState (compiledOps cls) id state).run ((d.after { d.machine.world with sb := { d.machine.world.sb with
          shards := d.machine.world.sb.shards.update id fun rec => { rec with shard := fresh } } }).dropped old).machine.world with
      | .ok out w => (out.revived, d.after w)
      | .error _ w => (false, d.after w) := rfl

theorem commits (portable : ∀ abi, Portable (cls abi) fleet abi) (h : Housed fleet pool start live s d)
    (below : s.kernel.world.sb.Below) {l : Loaded} {rec : ShardRecord (Shard Object)} {old : Object}
    (fresh : Object) (found : s.kernel.world.sb.find l.id = some rec) (behind : rec.shard = .library (fleet.adapter old))
    (doors : fleet.doors fresh.cls = fleet.doors old.cls) (state : fleet.state fresh.cls = fleet.state old.cls)
    (lives : live fresh.inst) (above : start ≤ fresh.inst)
    (unused : ∀ id rec, s.kernel.world.sb.find id = some rec → instOf rec.shard ≠ fresh.inst)
    (snapshot : ByteString) (lib : Pointer) (described : List Schema) :
    wp (commit (exported loader cls).toSeam (compiledOps cls) l (fleet.adapter old) snapshot lib fresh.cls fresh.inst described)
      s.kernel (Renewed fleet pool start s (Direct.replace cls l.id old fresh snapshot d)) := by
  have loaded : start ≤ old.inst := h.tenants.loaded found behind
  have others : ∀ id rec', (s.kernel.world.sb.shards.update l.id fun rec => { rec with
      shard := .library { fleet.adapter old with abi := fresh.cls, inst := fresh.inst } }).find id = some rec' →
        instOf rec'.shard ≠ old.inst := by
    intro id rec' found'
    rw [OrdMap.find_update] at found'
    split at found'
    · obtain ⟨_, _, rfl⟩ := Option.map_eq_some_iff.mp found'
      intro same
      refine unused l.id rec found ?_
      rw [behind]
      exact same.symm
    · rename_i other
      exact fun inst => other (h.tenants.apart found behind found' inst)
  have moved := ((h.replaced found behind doors state lives above unused).evicted old loaded others s.kernel.world.env.memory.1
    (s.kernel.world.env.calls ++ [.destroy old.cls old.inst])).relabelled l.name lib fresh.cls
      (s.kernel.bound ++ [(l.id, described)])
  unfold commit rebind
  simp only [wp_bind, wp_onSeam, wp_exported_destroy, andThen_ok, wp_onBus, BusM.updateRecord, wp_modify]
  refine wp_swaps portable moved (below_updated below _) l.id snapshot ?_ ?_
  · intro e e' w w' ends housed
    have result : Direct.replace cls l.id old fresh snapshot d = (false, d.after w') := by
      rw [replace_eq, ends]
    rw [result]
    exact ⟨rfl, _, housed⟩
  · intro out w w' ends housed
    have result : Direct.replace cls l.id old fresh snapshot d = (out.revived, d.after w') := by
      rw [replace_eq, ends]
    rw [result]
    simp only [andThen_ok, wp_bind, wp_onSeam, wp_exported_libClose]
    cases out.revived with
    | false => exact ⟨rfl, _, housed.aside _ _⟩
    | true => exact ⟨rfl, _, housed.aside _ _⟩

theorem sameIdentity_iff {a b : Schema} (catalogue : fleet.Catalogue pool) (ha : a ∈ pool) (hb : b ∈ pool) :
    sameIdentity a b = true ↔ a = b := by
  constructor
  · intro same
    simp only [sameIdentity, Bool.and_eq_true, beq_iff_eq] at same
    exact catalogue.unique a ha b hb same.1.1 same.1.2
  · rintro rfl
    simp [sameIdentity]

/-- What a direct host does once it has a new object. -/
def renewal (cls : Pointer → ShardClass τ) (id : ShardId) (state : ByteString) (o : Object) (fresh : Direct ς τ) :
    Bool × Direct ς τ :=
  match fresh.machine.world.sb.find id, ((compiledOps cls).snapshot o).run fresh.machine.world.env with
  | some rec, .ok own _ =>
      if sameIdentity own.schema rec.stateSchema then Direct.replace cls id rec.shard o state fresh
      else (false, fresh.dropped o)
  | _, _ => (false, fresh.dropped o)

theorem replaces (catalogue : fleet.Catalogue pool) (portable : ∀ abi, Portable (cls abi) fleet abi)
    (h : Housed fleet pool start live s d) (ok : KernelOk s.kernel) {l : Loaded} (loaded : l ∈ s.kernel.libs)
    {rec : ShardRecord (Shard Object)} (found : s.kernel.world.sb.find l.id = some rec) (c : Pointer) {t : τ}
    (same : fleet.same t t) (state : ByteString) (lib : Pointer) (memory : ς) (calls : List Call) :
    wp (replace (exported loader cls).toSeam (compiledOps cls) l state lib c (memoryOf s).next)
      (s.kernel.behind ⟨(memory, (memoryOf s).create t), calls⟩) (Renewed fleet pool start s
        (renewal cls l.id state ⟨c, (objectsOf d).next⟩ (d.withObjects fun objects => objects.create t))) := by
  have object : ((memoryOf s).create t).at? (memoryOf s).next = some t := Function.update_self ..
  have object' : (d.machine.world.env.2.create t).at? (objectsOf d).next = some t := Function.update_self ..
  obtain ⟨adapter, shard, _⟩ := ok.loaded l loaded rec found
  have twins := h.standing.world.find l.id
  change Option.Rel _ (s.kernel.world.sb.find l.id) _ at twins
  rw [found] at twins
  generalize there : d.machine.world.sb.find l.id = found' at twins
  cases twins with
  | @some _ rec' twins =>
  obtain ⟨old, _, left, right⟩ := twins.shard
  have native : rec'.shard = old := by
    generalize rec'.shard = n at right
    cases right
    rfl
  have known := twins.state.1
  rw [twins.stateSchema] at known
  rw [shard] at left known
  cases left
  have known : rec'.stateSchema = fleet.state old.cls := known
  obtain ⟨own, _, taken, _, _, shape, _⟩ := (portable c).snapshot same
  have asked : ((compiledOps cls).snapshot ⟨c, (objectsOf d).next⟩).run
      (d.withObjects fun objects => objects.create t).machine.world.env =
        .ok own (d.withObjects fun objects => objects.create t).machine.world.env := by
    simp only [compiledOps, onObject, EStateM.run, Direct.withObjects, Direct.after, object', taken]
  have result : renewal cls l.id state ⟨c, (objectsOf d).next⟩ (d.withObjects fun objects => objects.create t) =
      if sameIdentity (fleet.state c) (fleet.state old.cls) then
        Direct.replace cls l.id old ⟨c, (objectsOf d).next⟩ state (d.withObjects fun objects => objects.create t)
      else (false, (d.withObjects fun objects => objects.create t).dropped ⟨c, (objectsOf d).next⟩) := by
    unfold renewal
    rw [show (d.withObjects fun objects => objects.create t).machine.world.sb.find l.id = some rec' from there, asked]
    simp only [shape, known, native]
  rw [result, ← h.next]
  unfold replace
  rw [wp_bind, wp_attempt]
  refine @wp_exported_reconstruct _ _ _ _ _ _ _ catalogue c _ (portable c)
    (s.kernel.behind ⟨(memory, (memoryOf s).create t), calls⟩) h.pooled t object same _ ?_
  intro registry calls' pooled
  have fresh := (h.created same memory calls').recatalogued pooled
  have adapts : adapterOf s.kernel.world.sb l.id = some (fleet.adapter old) := adapterOf_eq_some.mpr ⟨rec, found, shard⟩
  simp only [andThen_ok, wp_bind, wp_get, Kernel.behind, adapts]
  by_cases compatible : sameIdentity (fleet.state c) (fleet.state old.cls) = true
  · simp only [compatible, Bool.not_true, Bool.false_eq_true, ↓reduceIte]
    have state := (sameIdentity_iff catalogue (catalogue.listed c _ (by simp)) (catalogue.listed old.cls _ (by simp))).mp compatible
    have doors := catalogue.steady c old.cls state
    exact fresh.commits portable ok.below ⟨c, (memoryOf s).next⟩ found shard doors state (.inr rfl) h.above h.unmade _ _ _
  · simp only [compatible, Bool.not_false, ↓reduceIte, discard, wp_bind, wp_onSeam, wp_exported_destroy,
      wp_exported_libClose, andThen_ok, wp_pure]
    exact ⟨rfl, _, fresh.evicted ⟨c, (memoryOf s).next⟩ h.above h.unmade _ _⟩

variable (loader) in
theorem reload (catalogue : fleet.Catalogue pool) (portable : ∀ abi, Portable (cls abi) fleet abi)
    (creates : ∀ abi t, (cls abi).create = .ok t → fleet.same t t) (installed : loader.Installed paths)
    (h : Housed fleet pool start live s d) (ok : KernelOk s.kernel) (name newPath : ByteString) :
    wp (reloadFrom (exported loader cls).toSeam (compiledOps cls) name newPath) s.kernel
      (Renewed fleet pool start s (d.reload cls name (paths newPath))) := by
  rw [reloadFrom_eq, wp_bind, wp_get, andThen_ok]
  unfold Direct.reload
  rw [h.find]
  cases loaded : Kernel.find s.kernel name with
  | none => exact ⟨rfl, live, h⟩
  | some l =>
      simp only [Option.map_some, wp_bind, wp_attempt, wp_onBus]
      refine h.wp_snapshots portable l.id ?_ ?_
      · intro e e' w w' ends housed
        rw [ends]
        exact ⟨rfl, live, housed⟩
      · intro state w w' ends bus known housed
        obtain ⟨rec, found⟩ := known
        rw [ends]
        simp only [andThen_ok]
        apply wp_exported_opening installed
        · intro unmade error memory calls
          rw [construct_none unmade]
          exact ⟨rfl, live, housed.aside memory calls⟩
        · intro c t here made lib memory calls
          rw [construct_some here made]
          have idle : KernelOk ({ s.kernel with world := w } : Kernel Object (Image ς τ)) :=
            Idle.ok (k := s.kernel) ⟨congrArg Switchboard.shards bus, congrArg Switchboard.nextShardId bus, rfl, rfl⟩ ok
          rw [← bus] at found
          exact housed.replaces catalogue portable idle (List.mem_of_find?_eq_some loaded) found c
            (creates c t (create_eq made)) state lib memory calls

end Housed

/-! ## Runs -/

/-- What the host is told is the same, and the two stand for each other afterwards. -/
def Told (fleet : Fleet τ) (pool : List Schema) (start : Pointer) {α : Type} (x : α × System Object (Image ς τ))
    (y : α × Direct ς τ) : Prop :=
  x.1 = y.1 ∧ KernelOk x.2.kernel ∧ ∃ live, Housed fleet pool start live x.2 y.2

section
variable {paths : ByteString → Option Pointer} (catalogue : fleet.Catalogue pool)
  (portable : ∀ abi, Portable (cls abi) fleet abi) (creates : ∀ abi t, (cls abi).create = .ok t → fleet.same t t)
  (installed : loader.Installed paths)
include catalogue portable creates installed

theorem operate_told (ok : KernelOk s.kernel) (h : Housed fleet pool start live s d) {input : Input Object (Image ς τ)}
    (allowed : fleet.Allows start input) (fuel : Nat) : Option.Rel (Told fleet pool start)
      (System.operate (exported loader cls) (compiledOps cls) (compiledHandlers cls) fuel input s)
      (Direct.operate cls paths fuel input d) := by
  cases input with
  | bus call =>
      have both := played loader portable h ok allowed fuel
      unfold System.operate Direct.operate
      simp only
      generalize play _ _ fuel [hosted call] s.machine = result at both ⊢
      generalize play _ _ fuel [call] d.machine = result' at both ⊢
      cases both with
      | none => exact .none
      | some both => exact .some ⟨rfl, both.2, live, both.1⟩
  | load name path =>
      have spec := wp_and (h.load loader catalogue portable creates installed ok.below name path) (load_ok ok name path)
      unfold wp at spec
      unfold System.operate Direct.operate System.step System.outcome
      simp only
      generalize (load _ _ name path).run s.kernel = result at spec ⊢
      cases result with
      | error e k => cases spec.1
      | ok result k =>
          obtain ⟨⟨same, live', housed⟩, kernel⟩ := spec
          simp only [same]
          split
          · rename_i landed
            rw [if_pos landed] at housed
            exact .some ⟨rfl, kernel, live', housed⟩
          · rename_i refused
            rw [if_neg refused] at housed
            exact .some ⟨rfl, kernel, live', housed⟩
  | reloadFrom name newPath =>
      have spec := wp_and (h.reload loader catalogue portable creates installed ok name newPath)
        (reloadFrom_ok ok name newPath)
      unfold wp at spec
      unfold System.operate Direct.operate System.step System.outcome
      simp only
      generalize (reloadFrom _ _ name newPath).run s.kernel = result at spec ⊢
      cases result with
      | error e k =>
          obtain ⟨⟨same, live', housed⟩, kernel⟩ := spec
          exact .some ⟨congrArg Outcome.reloaded same.symm, kernel, live', housed⟩
      | ok result k =>
          obtain ⟨⟨same, live', housed⟩, kernel⟩ := spec
          exact .some ⟨congrArg Outcome.reloaded same.symm, kernel, live', housed⟩
  | unload name =>
      have spec := wp_and (h.unload loader cls ok name) (unload_ok ok name)
      unfold wp at spec
      unfold System.operate Direct.operate System.step System.outcome
      simp only
      generalize (unload _ name).run s.kernel = result at spec ⊢
      cases result with
      | error e k => cases spec.1.1
      | ok found k =>
          obtain ⟨⟨same, live', housed⟩, kernel⟩ := spec
          exact .some ⟨congrArg Outcome.unloaded (Except.ok.inj same), kernel, live', housed⟩

theorem run_told (ok : KernelOk s.kernel) (h : Housed fleet pool start live s d) {inputs : List (Input Object (Image ς τ))}
    (allowed : ∀ input ∈ inputs, fleet.Allows start input) (fuel : Nat) : Option.Rel (Told fleet pool start)
      ((inputs.mapM (System.operate (exported loader cls) (compiledOps cls) (compiledHandlers cls) fuel)).run s)
      ((inputs.mapM (Direct.operate cls paths fuel)).run d) := by
  induction inputs generalizing live s d with
  | nil => exact .some ⟨rfl, ok, live, h⟩
  | cons input inputs ih =>
      obtain ⟨first, rest⟩ := List.forall_mem_cons.mp allowed
      rw [List.mapM_cons, List.mapM_cons, StateT.run_bind, StateT.run_bind]
      refine rel_bind (operate_told catalogue portable creates installed ok h first fuel) ?_
      rintro ⟨outcome, s'⟩ ⟨_, d'⟩ ⟨rfl, ok', live', h'⟩
      rw [StateT.run_bind, StateT.run_bind]
      refine rel_bind (ih ok' h' rest) ?_
      rintro ⟨outcomes, s''⟩ ⟨_, d''⟩ ⟨rfl, told⟩
      exact .some ⟨rfl, told⟩

end

/-! ### The meter -/

theorem meters_catalogue : meters.Catalogue [Point] where
  listed _ s hs := by simpa [meters] using hs
  unique s hs s' hs' _ _ := (List.mem_singleton.mp hs).trans (List.mem_singleton.mp hs').symm
  distinct _ n hn := by
    rw [show references _ = [] from rfl] at hn
    exact absurd hn List.not_mem_nil
  resolves _ := by
    have free : ∀ n ∈ Point.raw.references, False := fun n hn => List.not_mem_nil (show n ∈ [] from hn)
    exact ⟨fun n hn => (free n hn).elim, fun n hn => (free n hn).elim, trivial⟩
  short _ := Nat.le_of_ble_eq_true rfl
  describable _ s hs := by
    have point : s = Point := by simpa [meters] using hs
    have fits : Point.raw.describable := by decide +kernel
    rw [point]
    exact fits
  steady _ _ _ := rfl

-- a meter is loaded, used, replaced by a new one that goes on from its sum, and unloaded
def meterSession : List (Input Object (Image Unit Int64)) :=
  [.load "meter" "a", .bus (.send 1 ⟨tallyOf 5, 0, 1, 9⟩), .bus .pump, .reloadFrom "meter" "b", .load "meter" "a",
    .unload "meter", .unload "meter"]

end Zen.Kernel
