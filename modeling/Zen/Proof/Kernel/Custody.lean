import Zen.Proof.Kernel.Opening
import Zen.Proof.Kernel.System
import Zen.Proof.Switchboard.Callbacks
import Zen.Spec.Custody

/-!
# No call lands in a closed library

Each record of the kernel keeps one opening of its library and one instance in it. What an operation
opens or creates besides, it closes and destroys again, unless it throws.
-/

namespace Zen.Kernel
open Lib Sb Custody KernelM BusM

variable {ν ς α : Type}

/-! ## Calls as acts -/

/-- What was written down since `start` is lawful, and takes `h₀` to `h`. -/
def Tracked (start : List Call) (h₀ h : Holdings) (env : Foreign ς) : Prop :=
  ∃ calls, env.calls = start ++ calls ∧ Obeys h₀ (calls.flatMap Call.acts) h

theorem Tracked.now (h : Holdings) (env : Foreign ς) : Tracked env.calls h h env :=
  ⟨[], (List.append_nil _).symm, .nil h⟩

theorem Tracked.more {start : List Call} {h₀ h h' : Holdings} {env env' : Foreign ς} (t : Tracked start h₀ h env)
    {calls : List Call} (grown : env'.calls = env.calls ++ calls) (obeys : Obeys h (calls.flatMap Call.acts) h') :
    Tracked start h₀ h' env' := by
  obtain ⟨before, same, first⟩ := t
  refine ⟨before ++ calls, by rw [grown, same, List.append_assoc], ?_⟩
  rw [List.flatMap_append]
  exact first.append obeys

/-- Only calls of `P` have been made. -/
def Grown (P : Call → Prop) (env env' : Foreign ς) : Prop :=
  ∃ calls, env'.calls = env.calls ++ calls ∧ ∀ c ∈ calls, P c

theorem Grown.refl {P : Call → Prop} (env : Foreign ς) : Grown P env env := ⟨[], by simp⟩

theorem Grown.trans {P : Call → Prop} (env mid env' : Foreign ς) (first : Grown P env mid) (second : Grown P mid env') :
    Grown P env env' := by
  obtain ⟨calls, same, each⟩ := first
  obtain ⟨more, same', each'⟩ := second
  refine ⟨calls ++ more, by rw [same', same, List.append_assoc], ?_⟩
  intro c member
  exact (List.mem_append.mp member).elim (each c) (each' c)

theorem Grown.one {P : Call → Prop} {env : Foreign ς} {c : Call} (memory : ς) (holds : P c) :
    Grown P env ⟨memory, env.calls ++ [c]⟩ := ⟨[c], rfl, by simpa using holds⟩

/-- The call uses an instance that is held. -/
def Asks (h : Holdings) (c : Call) : Prop := ∃ x, h.Has x ∧ c.acts = [.uses x.descriptor x.item]

theorem Tracked.asked {start : List Call} {h₀ h : Holdings} {env env' : Foreign ς} (t : Tracked start h₀ h env)
    (grown : Grown (Asks h) env env') : Tracked start h₀ h env' := by
  obtain ⟨calls, same, each⟩ := grown
  refine t.more same (.uses ?_)
  intro act member
  obtain ⟨c, called, acted⟩ := List.mem_flatMap.mp member
  obtain ⟨x, has, acts⟩ := each c called
  rw [acts] at acted
  exact ⟨x, has, List.mem_singleton.mp acted⟩

/-- The instance behind the adapter is held. -/
def Holds (h : Holdings) (abi inst : Pointer) : Prop := ∃ x, h.Has x ∧ x.descriptor = abi ∧ x.item = inst

theorem Holds.asks {h : Holdings} {abi inst : Pointer} (holds : Holds h abi inst) {c : Call}
    (acts : c.acts = [.uses abi inst]) : Asks h c := by
  obtain ⟨x, has, rfl, rfl⟩ := holds
  exact ⟨x, has, acts⟩

/-! ## Calls on a Shard -/

variable {seam : Seam ς} {native : ShardOps ν ς}

theorem native_within {P : Call → Prop} (shard : ν) : Within (hostOps seam native) (Grown P) (.native shard) := by
  have memory : ∀ {α : Type} (x : EStateM Exn ς α) (env : Foreign ς), wp (onMemory x) env fun _ env' => Grown P env env' := by
    intro α x env
    rw [wp_onMemory]
    exact wp_intro (fun _ _ _ => ⟨[], by simp⟩) (fun _ _ _ => ⟨[], by simp⟩)
  exact ⟨fun env => memory _ env, fun env => memory _ env, fun env => memory _ env, fun state env => memory _ env⟩

theorem library_within {h : Holdings} {adapter : HostAdapter} (holds : Holds h adapter.abi adapter.inst) :
    Within (hostOps seam native) (Grown (Asks h)) (.library adapter) := by
  refine ⟨fun env => .refl env, fun env => ?_, fun env => ?_, fun state env => ?_⟩
  · simp only [hostOps, HostAdapter.snapshot, wp_bind, SeamM.snapshot, wp_perform, andThen_ok]
    split
    · exact .one _ (holds.asks rfl)
    · rw [wp_admitBytes]
      split <;> exact .one _ (holds.asks rfl)
  · simp only [hostOps, HostAdapter.policy, wp_bind, SeamM.policy, wp_perform, andThen_ok]
    split
    · exact .one _ (holds.asks rfl)
    · rw [wp_admitBytes]
      split <;> exact .one _ (holds.asks rfl)
  · simp only [hostOps, HostAdapter.revive]
    cases serialize state with
    | error e => exact .refl env
    | ok bytes =>
        simp only [wp_bind, SeamM.revive, wp_perform, andThen_ok]
        split <;> exact .one _ (holds.asks rfl)

/-! ## Adapters on the bus -/

def SameAdapters (sb sb' : Switchboard (Shard ν)) : Prop := ∀ id, adapterOf sb' id = adapterOf sb id

def adapterIn : Shard ν → Option HostAdapter
  | .native _ => none
  | .library adapter => some adapter

theorem adapterOf_eq (sb : Switchboard (Shard ν)) (id : ShardId) :
    adapterOf sb id = (sb.shards.find id).bind fun rec => adapterIn rec.shard := by
  unfold adapterOf Switchboard.find
  cases sb.shards.find id with
  | none => rfl
  | some rec =>
      obtain ⟨_, shard, _⟩ := rec
      cases shard <;> rfl

theorem adapters_of_shards {sb sb' : Switchboard (Shard ν)} (same : sb'.shards = sb.shards) : SameAdapters sb sb' := by
  intro id
  rw [adapterOf_eq, adapterOf_eq, same]

theorem adapterOf_updated {sb sb' : Switchboard (Shard ν)} {id : ShardId} {f : ShardRecord (Shard ν) → ShardRecord (Shard ν)}
    (shards : sb'.shards = sb.shards.update id f) (kept : ∀ rec, (f rec).shard = rec.shard) : SameAdapters sb sb' := by
  intro j
  rw [adapterOf_eq, adapterOf_eq, shards, OrdMap.find_update]
  split
  · cases sb.shards.find j with
    | none => rfl
    | some rec => exact congrArg adapterIn (kept rec)
  · rfl

theorem adapterOf_emplaced {sb sb' : Switchboard (Shard ν)} {rec : ShardRecord (Shard ν)} (below : sb.Below)
    (shards : sb'.shards = sb.shards.emplace sb.nextShardId rec) (id : ShardId) : adapterOf sb' id =
      if id = sb.nextShardId then adapterIn rec.shard else adapterOf sb id := by
  rw [adapterOf_eq, adapterOf_eq, shards, OrdMap.find_emplace_last below.fresh]
  split <;> rfl

theorem adapterOf_fresh {sb : Switchboard (Shard ν)} (below : sb.Below) {id : ShardId} (large : sb.nextShardId ≤ id) :
    adapterOf sb id = none := by
  rw [adapterOf_eq]
  cases found : sb.shards.find id with
  | none => rfl
  | some rec => exact absurd (below id rec found) (Nat.not_lt.mpr large)

theorem adapterOf_erased {sb sb' : Switchboard (Shard ν)} {id : ShardId} (shards : sb'.shards = sb.shards.erase id)
    (j : ShardId) : adapterOf sb' j = if j = id then none else adapterOf sb j := by
  rw [adapterOf_eq, adapterOf_eq, shards, OrdMap.find_erase]
  split <;> rfl

/-! ## Steps of the bus -/

theorem revival_adapters {w w' : World (Shard ν) (Foreign ς)} {id : ShardId} {bytes : ByteString}
    {r : Except Exn ReviveOutcome} (h : Reloaded id bytes w r w') : SameAdapters w.sb w'.sb := by
  obtain ⟨-, unrevived | ⟨rec, state, f, -, revived⟩⟩ := h
  · exact adapters_of_shards (congrArg Switchboard.shards unrevived.bus)
  · have bus := revived.bus
    cases r with
    | error e => exact adapters_of_shards (congrArg Switchboard.shards bus)
    | ok out => exact adapterOf_updated (congrArg Switchboard.shards bus.2) fun rec => (revived.kept rec).shard

theorem registered_adapters {w w' : World (Shard ν) (Foreign ς)} {incoming : Option ν} {grant : Grant}
    {r : Except Exn ShardId} (below : w.sb.Below)
    (h : Registered (hostOps seam native) w (incoming.map .native) grant r w') : SameAdapters w.sb w'.sb := by
  obtain ⟨-, -, h⟩ := h
  cases r with
  | error e => exact adapters_of_shards h.1
  | ok id =>
      obtain ⟨rfl, -, rec, shards, fresh⟩ := h
      obtain ⟨n, -, native⟩ := Option.map_eq_some_iff.mp fresh.shard
      intro id
      rw [adapterOf_emplaced below shards, ← native]
      split
      · rename_i new
        exact (adapterOf_fresh below (Nat.le_of_eq new.symm)).symm
      · rfl

theorem bus_adapters {input : Sb.Input ν ς} {m m' : Machine (Shard ν) (Foreign ς)} (below : m.world.sb.Below)
    (leaves : ∀ id, input = .unregisterShard id → adapterOf m.world.sb id = none)
    (action : Machine.step (hostOps seam native) (hosted input) m = some m') :
    SameAdapters m.world.sb m'.world.sb := by
  have revival : ∀ {id : ShardId} {bytes : ByteString} {x : BusM (Shard ν) (Foreign ς) ReviveOutcome},
      wp x m.world (Reloaded id bytes m.world) → SameAdapters m.world.sb (m.ended (x.run m.world)).world.sb := by
    intro id bytes x spec
    rw [ended_world]
    exact wp_leaves (wp_mono spec fun _ _ => revival_adapters)
  cases input with
  | registerShard incoming grant =>
      have spec := registerShard_spec (hostOps seam native) (incoming.map .native) grant m.world
      rw [step_registers action]
      exact wp_leaves (wp_mono spec fun _ _ => registered_adapters below)
  | unregisterShard id =>
      cases action
      simp only [Machine.withBus, Switchboard.unregisterShard]
      split
      · exact fun _ => rfl
      · intro j
        rw [adapterOf_erased rfl]
        split
        · rename_i here
          rw [here, leaves id rfl]
        · rfl
  | reload id bytes =>
      cases action
      exact revival (reload_spec _ id bytes m.world)
  | swapState id bytes =>
      cases action
      exact revival (wp_mono (swapState_spec _ id bytes m.world) fun _ _ h => h.reloaded)
  | kill id =>
      cases action
      simp only [World.kill]
      split
      · exact fun _ => rfl
      · exact @adapterOf_updated _ _ _ id (fun rec => { rec with alive := false }) rfl fun _ => rfl
  | turn =>
      rw [hosted, Machine.step] at action
      split at action
      · cases action
        exact adapters_of_shards (turn_turned _ _).shards
      · cases action
  | pump =>
      cases action
      unfold Machine.pump
      split <;> exact fun _ => rfl
  | publish msg | publishAs asSender msg =>
      cases action
      refine adapters_of_shards ?_
      simp only [Machine.enqueued, Machine.withBus, Switchboard.publish, Switchboard.publishAs, fanout_eq]
      rfl
  | handlerPublishes msg =>
      rw [hosted, Machine.step] at action
      split at action
      · cases action
        refine adapters_of_shards ?_
        simp only [Machine.enqueued, Machine.withBus, Switchboard.publishAs, fanout_eq]
        rfl
      · cases action
  | handlerSends | handlerReturns | handlerThrows =>
      rw [hosted, Machine.step] at action
      split at action
      · cases action
        exact fun _ => rfl
      · cases action
  | _ =>
      cases action
      exact fun _ => rfl

theorem bus_grown {h : Holdings} {input : Sb.Input ν ς} {m m' : Machine (Shard ν) (Foreign ς)}
    (holds : ∀ id adapter, adapterOf m.world.sb id = some adapter → Holds h adapter.abi adapter.inst)
    (action : Machine.step (hostOps seam native) (hosted input) m = some m') :
    Grown (Asks h) m.world.env m'.world.env := by
  refine step_within (R := Grown (Asks h)) .refl .trans ?_ ?_ action
  · intro shard touches
    cases shard with
    | native n => exact native_within n
    | library adapter =>
        have recorded : ∀ id, (m.world.sb.find id).map ShardRecord.shard = some (.library adapter) →
            Holds h adapter.abi adapter.inst := by
          intro id found
          obtain ⟨rec, there, shard⟩ := Option.map_eq_some_iff.mp found
          exact holds id adapter (adapterOf_eq_some.mpr ⟨rec, there, shard⟩)
        cases input with
        | registerShard incoming grant =>
            obtain ⟨n, -, other⟩ := Option.map_eq_some_iff.mp touches
            cases other
        | reload id bytes | swapState id bytes => exact library_within (recorded id touches)
        | _ => cases touches
  · intro change outside
    cases input with
    | outside change' =>
        cases outside
        exact ⟨[], by simp⟩
    | _ => cases outside

/-! ## What the kernel keeps between operations -/

/-- `leaked` are the openings that belong to no record. -/
structure Settled (leaked : Multiset Pointer) (h : Holdings) (k : Kernel ν ς) : Prop where
  names : (k.libs.map Loaded.name).Nodup
  ids : (k.libs.map Loaded.id).Nodup
  adapters : ∀ l ∈ k.libs, ∃ adapter, adapterOf k.world.sb l.id = some adapter ∧ adapter.abi = l.abi
  owned : ∀ id adapter, adapterOf k.world.sb id = some adapter → ∃ l ∈ k.libs, l.id = id
  opened : h.opened = leaked + k.libs.map Loaded.lib
  live : h.live = k.libs.map (held k.world.sb)

theorem Settled.start (memory : ς) : Settled 0 {} (System.start memory : System ν ς).kernel where
  names := .nil
  ids := .nil
  adapters := by intro l hl; cases hl
  owned := by intro id adapter found; cases found
  opened := rfl
  live := rfl

theorem held_congr {sb sb' : Switchboard (Shard ν)} {l : Loaded} (same : adapterOf sb' l.id = adapterOf sb l.id) :
    held sb' l = held sb l := by
  unfold held
  rw [same]

namespace Settled

variable {leaked : Multiset Pointer} {h h' : Holdings} {k k' : Kernel ν ς}

theorem covered (settled : Settled leaked h k) : h.Covered := by
  have containers : h.live.map Custody.Holding.container = k.libs.map Loaded.lib := by
    rw [settled.live, Multiset.map_coe, List.map_map]
    rfl
  rw [Custody.Holdings.Covered, containers, settled.opened]
  exact Multiset.le_add_left _ _

theorem record_live (settled : Settled leaked h k) {l : Loaded} (loaded : l ∈ k.libs) : held k.world.sb l ∈ h.live := by
  rw [settled.live]
  exact Multiset.mem_coe.mpr (List.mem_map_of_mem loaded)

theorem holds (settled : Settled leaked h k) (id : ShardId) (adapter : HostAdapter)
    (found : adapterOf k.world.sb id = some adapter) : Holds h adapter.abi adapter.inst := by
  obtain ⟨l, loaded, rfl⟩ := settled.owned id adapter found
  obtain ⟨adapter', found', abi⟩ := settled.adapters l loaded
  obtain rfl := Option.some.inj (found.symm.trans found')
  refine ⟨held k.world.sb l, settled.covered.has (settled.record_live loaded), abi.symm, ?_⟩
  simp only [held, found, Option.map_some, Option.getD_some]

theorem congr (settled : Settled leaked h k) (same : Custody.Holdings.Same h h') (libs : k'.libs = k.libs)
    (adapters : SameAdapters k.world.sb k'.world.sb) : Settled leaked h' k' where
  names := by rw [libs]; exact settled.names
  ids := by rw [libs]; exact settled.ids
  adapters l hl := by
    rw [adapters]
    exact settled.adapters l (libs ▸ hl)
  owned id adapter found := by
    rw [adapters] at found
    rw [libs]
    exact settled.owned id adapter found
  opened := by rw [same.1, libs, settled.opened]
  live := by
    rw [same.2, libs, settled.live]
    exact congrArg _ (List.map_congr_left fun l _ => (held_congr (adapters l.id)).symm)

end Settled

/-! ## Opening a library and giving it up again -/

/-- The holdings with one more library and an instance in it. -/
def withInstance (h : Holdings) (lib abi inst : Pointer) : Holdings :=
  { opened := lib ::ₘ h.opened, asked := none, live := ⟨lib, abi, inst⟩ ::ₘ h.live }

theorem withInstance_covered {h : Holdings} (covered : h.Covered) (lib abi inst : Pointer) :
    (withInstance h lib abi inst).Covered := by
  rw [Custody.Holdings.Covered, withInstance, Multiset.map_cons]
  exact Multiset.cons_le_cons lib covered

theorem withInstance_holds {h : Holdings} (covered : h.Covered) (lib abi inst : Pointer) :
    Holds (withInstance h lib abi inst) abi inst :=
  ⟨⟨lib, abi, inst⟩, (withInstance_covered covered lib abi inst).has (Multiset.mem_cons_self _ _), rfl, rfl⟩

theorem opening_obeys (h : Holdings) (o : Opening ς) (path : ByteString) :
    Obeys h ((o.calls path).flatMap Call.acts) (withInstance h o.lib o.abi o.inst) :=
  .cons (.opens h o.lib) (.cons (.asks (Multiset.mem_cons_self _ _))
    (.one (.creates rfl (Multiset.mem_cons_self _ _) o.abi o.inst)))

theorem closes_again {h : Holdings} (covered : h.Covered) (lib : Pointer) (asked : Option Pointer) :
    Lawful ⟨lib ::ₘ h.opened, asked, h.live⟩ (.closes lib) ⟨h.opened, asked, h.live⟩ := by
  have closes := @Lawful.closes Pointer Pointer Pointer _ _ _ ⟨lib ::ₘ h.opened, asked, h.live⟩ lib
    (Multiset.mem_cons_self _ _)
  simp only [Multiset.erase_cons_head] at closes
  exact closes covered

theorem abandoned_obeys {h : Holdings} (covered : h.Covered) {path : ByteString} {calls : List Call}
    (abandoned : Abandoned path calls) : ∃ h', Obeys h (calls.flatMap Call.acts) h' ∧ Custody.Holdings.Same h h' := by
  cases abandoned with
  | unopened => exact ⟨h, .nil h, rfl, rfl⟩
  | unexported lib =>
      exact ⟨_, .cons (.opens h lib) (.cons (.asks (Multiset.mem_cons_self _ _))
        (.one (closes_again covered lib (some lib)))), rfl, rfl⟩
  | uncreated lib abi =>
      exact ⟨_, .cons (.opens h lib) (.cons (.asks (Multiset.mem_cons_self _ _))
        (.cons (.fails rfl (Multiset.mem_cons_self _ _) abi) (.one (closes_again covered lib none)))), rfl, rfl⟩

theorem discard_obeys {h : Holdings} (covered : h.Covered) (lib abi inst : Pointer) :
    ∃ h', Obeys (withInstance h lib abi inst) [.destroys abi inst, .closes lib] h' ∧ Custody.Holdings.Same h h' := by
  have has := (withInstance_covered covered lib abi inst).has (Multiset.mem_cons_self ⟨lib, abi, inst⟩ h.live)
  have destroys := Lawful.destroys has
  simp only [withInstance, Multiset.erase_cons_head] at destroys
  exact ⟨_, .cons destroys (.one (closes_again covered lib none)), rfl, rfl⟩

/-! ## Load -/

theorem reconstruct_grown {h : Holdings} {abi inst : Pointer} (holds : Holds h abi inst) (k : Kernel ν ς) :
    wp (reconstruct seam abi inst) k fun _ k' => Grown (Asks h) k.world.env k'.world.env ∧
      k'.world.sb = k.world.sb ∧ k'.libs = k.libs := by
  unfold reconstruct
  simp only [wp_bind, wp_onSeam, SeamM.describe, wp_perform, andThen_ok]
  split
  · exact ⟨.one _ (holds.asks rfl), rfl, rfl⟩
  · rw [wp_onRegistry]
    exact wp_intro (fun _ _ _ => ⟨.one _ (holds.asks rfl), rfl, rfl⟩) (fun _ _ _ => ⟨.one _ (holds.asks rfl), rfl, rfl⟩)

theorem mount_custody {h : Holdings} {lib abi inst : Pointer} (holds : Holds h abi inst) {k : Kernel ν ς}
    (below : k.world.sb.Below) (name : ByteString) : wp (mount seam native name lib abi inst) k fun r k' =>
      Grown (Asks h) k.world.env k'.world.env ∧
      match r with
      | .error _ => k'.libs = k.libs ∧ SameAdapters k.world.sb k'.world.sb
      | .ok _ => k'.libs = k.libs ++ [⟨name, lib, abi, k.world.sb.nextShardId⟩] ∧
          ∃ adapter, adapter.abi = abi ∧ adapter.inst = inst ∧ ∀ id, adapterOf k'.world.sb id =
            if id = k.world.sb.nextShardId then some adapter else adapterOf k.world.sb id := by
  unfold mount
  rw [wp_bind]
  apply wp_mono (reconstruct_grown holds k)
  rintro (e | mf) mid ⟨described, bus, libs⟩
  · exact ⟨described, libs, by rw [bus]; exact fun _ => rfl⟩
  · rw [← bus] at below ⊢
    have each : ∀ shard, some (Shard.library ⟨abi, inst, mf.accepted, mf.state⟩) = some shard →
        Within (hostOps seam native) (Grown (Asks h)) shard := by
      rintro _ ⟨⟩
      exact library_within holds
    simp only [andThen_ok, wp_bind, wp_onBus]
    apply wp_mono (wp_and (registerShard_spec (hostOps seam native) _ allowAny mid.world)
      (registerShard_within .refl .trans each allowAny mid.world))
    rintro (e | id) w ⟨registered, snapshotted⟩
    · exact ⟨.trans _ _ _ described snapshotted, libs, adapters_of_shards registered.2.2.1⟩
    · obtain ⟨-, -, rfl, -, rec, shards, fresh⟩ := registered
      simp only [andThen_ok, wp_bind, wp_modify, wp_pure]
      refine ⟨.trans _ _ _ described snapshotted, by rw [libs], ⟨abi, inst, mf.accepted, mf.state⟩, rfl, rfl, ?_⟩
      intro id
      rw [adapterOf_emplaced below shards, ← Option.some.inj fresh.shard]
      rfl

/-- The operation has kept to the law, and the kernel's records are covered. -/
def Kept (leaked : Multiset Pointer) (start : List Call) (h : Holdings) (k' : Kernel ν ς) : Prop :=
  ∃ h', Tracked start h h' k'.world.env ∧ Settled leaked h' k'

theorem Settled.mounted {leaked : Multiset Pointer} {h : Holdings} {k k' : Kernel ν ς} (settled : Settled leaked h k)
    (ok : KernelOk k) {name : ByteString} (unused : find k name = none) {lib abi inst : Pointer}
    (libs : k'.libs = k.libs ++ [⟨name, lib, abi, k.world.sb.nextShardId⟩]) {adapter : HostAdapter}
    (behind : adapter.abi = abi ∧ adapter.inst = inst) (adapters : ∀ id, adapterOf k'.world.sb id =
      if id = k.world.sb.nextShardId then some adapter else adapterOf k.world.sb id) :
    Settled leaked (withInstance h lib abi inst) k' := by
  obtain ⟨rfl, rfl⟩ := behind
  have old : ∀ l ∈ k.libs, adapterOf k'.world.sb l.id = adapterOf k.world.sb l.id := by
    intro l hl
    rw [adapters, if_neg (Nat.ne_of_lt (ok.known l hl))]
  have new : adapterOf k'.world.sb k.world.sb.nextShardId = some adapter := by rw [adapters, if_pos rfl]
  refine ⟨?_, ?_, ?_, ?_, ?_, ?_⟩
  · rw [libs, List.map_append]
    refine List.Nodup.append settled.names (List.nodup_singleton _) ?_
    intro used known member
    obtain ⟨l, hl, rfl⟩ := List.mem_map.mp known
    have different := List.find?_eq_none.mp unused l hl
    simp_all
  · rw [libs, List.map_append]
    refine List.Nodup.append settled.ids (List.nodup_singleton _) ?_
    intro id known member
    obtain ⟨l, hl, rfl⟩ := List.mem_map.mp known
    exact Nat.ne_of_lt (ok.known l hl) (List.mem_singleton.mp member)
  · intro l hl
    rw [libs, List.mem_append, List.mem_singleton] at hl
    obtain hl | rfl := hl
    · rw [old l hl]
      exact settled.adapters l hl
    · exact ⟨adapter, new, rfl⟩
  · intro id adapter' found
    rw [adapters] at found
    rw [libs]
    split at found
    · rename_i here
      exact ⟨_, List.mem_append_right _ (List.mem_singleton_self _), here.symm⟩
    · obtain ⟨l, hl, same⟩ := settled.owned id adapter' found
      exact ⟨l, List.mem_append_left _ hl, same⟩
  · rw [libs, List.map_append, ← Multiset.coe_add, ← Multiset.add_assoc, ← settled.opened]
    exact (Multiset.singleton_add lib h.opened).symm.trans (Multiset.add_comm _ _)
  · have last : held k'.world.sb ⟨name, lib, adapter.abi, k.world.sb.nextShardId⟩ = ⟨lib, adapter.abi, adapter.inst⟩ := by
      simp only [held, new, Option.map_some, Option.getD_some]
    have same : k.libs.map (held k'.world.sb) = k.libs.map (held k.world.sb) :=
      List.map_congr_left fun l hl => held_congr (old l hl)
    rw [libs, List.map_append, ← Multiset.coe_add, same, ← settled.live, List.map_singleton, last]
    exact (Multiset.singleton_add _ h.live).symm.trans (Multiset.add_comm _ _)

theorem load_settled {leaked : Multiset Pointer} {h : Holdings} {k : Kernel ν ς} (ok : KernelOk k)
    (settled : Settled leaked h k) (name path : ByteString) :
    wp (load seam native name path) k fun _ k' => Kept leaked k.world.env.calls h k' := by
  rw [load_eq, wp_bind, wp_get, andThen_ok]
  split
  · exact ⟨h, .now h k.world.env, settled⟩
  · rename_i unused
    have unused : find k name = none := by simpa using unused
    refine wp_opening ?_ ?_
    · intro _ error memory calls abandoned
      obtain ⟨h', obeys, same⟩ := abandoned_obeys settled.covered abandoned
      exact ⟨h', ⟨calls, rfl, obeys⟩, settled.congr same rfl fun _ => rfl⟩
    · intro o _
      have opened : Tracked k.world.env.calls h (withInstance h o.lib o.abi o.inst)
          (k.after o.afterCreate (o.calls path)).world.env := ⟨_, rfl, opening_obeys h o path⟩
      have holds := withInstance_holds settled.covered o.lib o.abi o.inst
      simp only [settle, wp_bind, wp_attempt]
      apply wp_mono (mount_custody holds (k := k.after o.afterCreate (o.calls path)) ok.below name)
      rintro (e | id) k' ⟨grown, ended⟩
      · obtain ⟨h', obeys, same⟩ := discard_obeys settled.covered o.lib o.abi o.inst
        refine ⟨h', (opened.asked grown).more (List.append_assoc _ [_] [_]) obeys, ?_⟩
        exact settled.congr same ended.1 ended.2
      · obtain ⟨libs, adapter, abi, inst, adapters⟩ := ended
        exact ⟨_, opened.asked grown, settled.mounted ok unused libs ⟨abi, inst⟩ adapters⟩

/-! ## One record among the others -/

theorem coe_middle {β : Type} (f : Loaded → β) (front back : List Loaded) (rec : Loaded) :
    (((front ++ rec :: back).map f : List β) : Multiset β) = f rec ::ₘ ((front ++ back).map f : List β) := by
  rw [Multiset.cons_coe, Multiset.coe_eq_coe, ← List.map_cons]
  exact List.perm_middle.map f

theorem find_loaded {k : Kernel ν ς} {name : ByteString} {rec : Loaded} (found : find k name = some rec) :
    rec ∈ k.libs ∧ rec.name = name :=
  ⟨List.mem_of_find?_eq_some found, by simpa using List.find?_some found⟩

structure Beside (k : Kernel ν ς) (rec : Loaded) (front back : List Loaded) : Prop where
  libs : k.libs = front ++ rec :: back
  names : ∀ l ∈ front ++ back, l.name ≠ rec.name
  ids : ∀ l ∈ front ++ back, l.id ≠ rec.id

namespace Settled

variable {leaked : Multiset Pointer} {h : Holdings} {k k' : Kernel ν ς}

theorem beside (settled : Settled leaked h k) {rec : Loaded} (loaded : rec ∈ k.libs) :
    ∃ front back, Beside k rec front back := by
  obtain ⟨front, back, same⟩ := List.append_of_mem loaded
  have different : ∀ {β : Type} (f : Loaded → β), (k.libs.map f).Nodup → ∀ l ∈ front ++ back, f l ≠ f rec := by
    intro β f distinct l member equal
    rw [same, (List.perm_middle.map f).nodup_iff, List.map_cons, List.nodup_cons] at distinct
    exact distinct.1 (equal ▸ List.mem_map_of_mem member)
  exact ⟨front, back, same, different _ settled.names, different _ settled.ids⟩

theorem live_middle (settled : Settled leaked h k) {rec : Loaded} {front back : List Loaded}
    (beside : Beside k rec front back) :
    h.live = held k.world.sb rec ::ₘ ((front ++ back).map (held k.world.sb) : List Holding) := by
  rw [settled.live, beside.libs, coe_middle]

theorem opened_middle (settled : Settled leaked h k) {rec : Loaded} {front back : List Loaded}
    (beside : Beside k rec front back) :
    h.opened = (rec.lib ::ₘ leaked) + ((front ++ back).map Loaded.lib : List Pointer) := by
  rw [settled.opened, beside.libs, coe_middle, Multiset.add_cons, Multiset.cons_add]

theorem release {lib : Pointer} (settled : Settled (lib ::ₘ leaked) h k) :
    ∃ h', Lawful h (.closes lib) h' ∧ Settled leaked h' k := by
  have opened : h.opened.erase lib = leaked + k.libs.map Loaded.lib := by
    rw [settled.opened, Multiset.cons_add, Multiset.erase_cons_head]
  refine ⟨_, .closes ?_ ?_, settled.names, settled.ids, settled.adapters, settled.owned, opened, settled.live⟩
  · rw [settled.opened, Multiset.cons_add]
    exact Multiset.mem_cons_self _ _
  · have containers : h.live.map Custody.Holding.container = k.libs.map Loaded.lib := by
      rw [settled.live, Multiset.map_coe, List.map_map]
      rfl
    rw [containers, opened]
    exact Multiset.le_add_left _ _

theorem dropped (settled : Settled leaked h k) {rec : Loaded} {front back : List Loaded}
    (beside : Beside k rec front back) (libs : k'.libs = front ++ back)
    (adapters : ∀ id, adapterOf k'.world.sb id = if id = rec.id then none else adapterOf k.world.sb id) :
    Settled (rec.lib ::ₘ leaked) { h with live := h.live.erase (held k.world.sb rec) } k' := by
  have part : ∀ l ∈ front ++ back, l ∈ k.libs := by
    intro l hl
    rw [beside.libs]
    exact (List.perm_middle.mem_iff).mpr (List.mem_cons_of_mem _ hl)
  have shorter : (front ++ back).Sublist k.libs := by
    rw [beside.libs]
    exact (List.sublist_cons_self rec back).append_left front
  have old : ∀ l ∈ front ++ back, adapterOf k'.world.sb l.id = adapterOf k.world.sb l.id := by
    intro l hl
    rw [adapters, if_neg (beside.ids l hl)]
  refine ⟨?_, ?_, ?_, ?_, ?_, ?_⟩
  · rw [libs]
    exact settled.names.sublist (shorter.map _)
  · rw [libs]
    exact settled.ids.sublist (shorter.map _)
  · intro l hl
    rw [libs] at hl
    rw [old l hl]
    exact settled.adapters l (part l hl)
  · intro id adapter found
    rw [adapters] at found
    split at found
    · cases found
    · rename_i other
      obtain ⟨l, hl, rfl⟩ := settled.owned id adapter found
      rw [beside.libs] at hl
      rw [libs]
      obtain rfl | rest := List.mem_cons.mp (List.perm_middle.mem_iff.mp hl)
      · exact absurd rfl other
      · exact ⟨l, rest, rfl⟩
  · rw [libs]
    exact settled.opened_middle beside
  · have same : (front ++ back).map (held k'.world.sb) = (front ++ back).map (held k.world.sb) :=
      List.map_congr_left fun l hl => held_congr (old l hl)
    simp only [settled.live_middle beside, Multiset.erase_cons_head, libs, same]

end Settled

/-! ## Unload -/

theorem Beside.filtered {k : Kernel ν ς} {rec : Loaded} {front back : List Loaded} (beside : Beside k rec front back) :
    (k.libs.filter fun l => !(l.name == rec.name)) = front ++ back := by
  have others : ∀ l ∈ front ++ back, (!(l.name == rec.name)) = true := by
    intro l hl
    simpa using beside.names l hl
  have itself : (rec :: back).filter (fun l => !(l.name == rec.name)) = back.filter fun l => !(l.name == rec.name) := by
    simp
  rw [beside.libs, List.filter_append, itself, ← List.filter_append, List.filter_eq_self.mpr others]

theorem unload_settled {leaked : Multiset Pointer} {h : Holdings} {k : Kernel ν ς} (settled : Settled leaked h k)
    (name : ByteString) :
    wp (unload seam name : KernelM ν ς Bool) k fun _ k' => Kept leaked k.world.env.calls h k' := by
  unfold unload
  rw [wp_bind, wp_get, andThen_ok]
  cases loaded : find k name with
  | none => exact ⟨h, .now h k.world.env, settled⟩
  | some rec =>
      obtain ⟨member, rfl⟩ := find_loaded loaded
      obtain ⟨front, back, beside⟩ := settled.beside member
      obtain ⟨adapter, adapts, abi⟩ := settled.adapters rec member
      obtain ⟨bus, found, shard⟩ := adapterOf_eq_some.mp adapts
      have released : k.world.sb.unregisterShard rec.id =
          ({ k.world.sb with shards := k.world.sb.shards.erase rec.id }, some (.library adapter)) := by
        rw [Switchboard.unregisterShard, found, ← shard]
      have has := settled.covered.has (settled.record_live member)
      have inst : (held k.world.sb rec).item = adapter.inst := by
        simp only [held, adapts, Option.map_some, Option.getD_some]
      simp only [wp_bind, wp_get, andThen_ok, wp_modify, released, wp_onSeam, SeamM.destroy, SeamM.libClose, wp_perform,
        wp_pure, beside.filtered]
      have dropped : Settled (rec.lib ::ₘ leaked) { h with live := h.live.erase (held k.world.sb rec) } { k with
          libs := front ++ back
          world := { k.world with sb := { k.world.sb with shards := k.world.sb.shards.erase rec.id } } } :=
        settled.dropped beside rfl (adapterOf_erased rfl)
      obtain ⟨h', closes, settled'⟩ := dropped.release
      refine ⟨h', ⟨[.destroy adapter.abi adapter.inst, .libClose rec.lib], List.append_assoc _ [_] [_], ?_⟩,
        settled'.congr ⟨rfl, rfl⟩ rfl fun _ => rfl⟩
      have destroys := Lawful.destroys has
      rw [inst, show (held k.world.sb rec).descriptor = adapter.abi from abi.symm] at destroys
      exact .cons destroys (.one closes)

/-! ## Reload -/

theorem adapterOf_rebound {sb sb' : Switchboard (Shard ν)} {id : ShardId} {adapter adapter' : HostAdapter}
    (adapts : adapterOf sb id = some adapter)
    (shards : sb'.shards = sb.shards.update id fun rec => { rec with shard := .library adapter' }) (j : ShardId) :
    adapterOf sb' j = if j = id then some adapter' else adapterOf sb j := by
  obtain ⟨rec, found, -⟩ := adapterOf_eq_some.mp adapts
  rw [adapterOf_eq, adapterOf_eq, shards, OrdMap.find_update]
  split
  · rename_i here
    rw [here, show sb.shards.find id = some rec from found]
    rfl
  · rfl

def relabel (rec : Loaded) (newLib newAbi : Pointer) (l : Loaded) : Loaded :=
  if l.name == rec.name then { l with abi := newAbi, lib := newLib } else l

theorem Beside.relabelled {k : Kernel ν ς} {rec : Loaded} {front back : List Loaded} (beside : Beside k rec front back)
    (newLib newAbi : Pointer) :
    k.libs.map (relabel rec newLib newAbi) = front ++ { rec with abi := newAbi, lib := newLib } :: back := by
  have others : ∀ l ∈ front ++ back, relabel rec newLib newAbi l = l := by
    intro l hl
    rw [relabel, if_neg (by simpa using beside.names l hl)]
  have itself : relabel rec newLib newAbi rec = { rec with abi := newAbi, lib := newLib } := by
    rw [relabel, if_pos (by simp)]
  have same : ∀ part : List Loaded, (∀ l ∈ part, l ∈ front ++ back) → part.map (relabel rec newLib newAbi) = part := by
    intro part known
    exact (List.map_congr_left fun l hl => others l (known l hl)).trans (List.map_id part)
  rw [beside.libs, List.map_append, List.map_cons, itself, same front fun l hl => List.mem_append_left _ hl,
    same back fun l hl => List.mem_append_right _ hl]

/-- The new instance stands where the old one stood, whose library is still open. -/
theorem Settled.replaced {leaked : Multiset Pointer} {h : Holdings} {k k' : Kernel ν ς} (settled : Settled leaked h k)
    {rec : Loaded} {front back : List Loaded} (beside : Beside k rec front back) {adapter : HostAdapter} {newLib : Pointer}
    (libs : k'.libs = front ++ { rec with abi := adapter.abi, lib := newLib } :: back)
    (adapters : ∀ id, adapterOf k'.world.sb id = if id = rec.id then some adapter else adapterOf k.world.sb id)
    {live : Multiset Holding} (swapped : live = ⟨newLib, adapter.abi, adapter.inst⟩ ::ₘ h.live.erase (held k.world.sb rec)) :
    Settled (rec.lib ::ₘ leaked) ⟨newLib ::ₘ h.opened, none, live⟩ k' := by
  have old : ∀ l ∈ front ++ back, adapterOf k'.world.sb l.id = adapterOf k.world.sb l.id := by
    intro l hl
    rw [adapters, if_neg (beside.ids l hl)]
  have new : adapterOf k'.world.sb rec.id = some adapter := by rw [adapters, if_pos rfl]
  have labels : ∀ {β : Type} (f : Loaded → β), f { rec with abi := adapter.abi, lib := newLib } = f rec →
      k'.libs.map f = k.libs.map f := by
    intro β f same
    rw [libs, beside.libs, List.map_append, List.map_append, List.map_cons, List.map_cons, same]
  refine ⟨?_, ?_, ?_, ?_, ?_, ?_⟩
  · rw [labels Loaded.name rfl]
    exact settled.names
  · rw [labels Loaded.id rfl]
    exact settled.ids
  · intro l hl
    rw [libs] at hl
    obtain rfl | rest := List.mem_cons.mp (List.perm_middle.mem_iff.mp hl)
    · exact ⟨adapter, new, rfl⟩
    · rw [old l rest]
      refine settled.adapters l ?_
      rw [beside.libs]
      exact List.perm_middle.mem_iff.mpr (List.mem_cons_of_mem _ rest)
  · intro id adapter' found
    rw [adapters] at found
    rw [libs]
    split at found
    · rename_i here
      exact ⟨_, List.mem_append_right _ List.mem_cons_self, here.symm⟩
    · rename_i other
      obtain ⟨l, hl, rfl⟩ := settled.owned id adapter' found
      rw [beside.libs] at hl
      obtain rfl | rest := List.mem_cons.mp (List.perm_middle.mem_iff.mp hl)
      · exact absurd rfl other
      · exact ⟨l, List.perm_middle.mem_iff.mpr (List.mem_cons_of_mem _ rest), rfl⟩
  · rw [libs, coe_middle, Multiset.add_cons, ← settled.opened_middle beside]
  · have same : (front ++ back).map (held k'.world.sb) = (front ++ back).map (held k.world.sb) :=
      List.map_congr_left fun l hl => held_congr (old l hl)
    have itself : held k'.world.sb { rec with abi := adapter.abi, lib := newLib } =
        ⟨newLib, adapter.abi, adapter.inst⟩ := by
      simp only [held, new, Option.map_some, Option.getD_some]
    rw [libs, coe_middle, same, itself, swapped, settled.live_middle beside, Multiset.erase_cons_head]

theorem swapState_custody {h : Holdings} {id : ShardId} {bytes : ByteString} {w : World (Shard ν) (Foreign ς)}
    (holds : ∀ id adapter, adapterOf w.sb id = some adapter → Holds h adapter.abi adapter.inst) :
    wp (swapState (hostOps seam native) id bytes) w fun _ w' =>
      Grown (Asks h) w.env w'.env ∧ SameAdapters w.sb w'.sb := by
  have each : ∀ rec, w.sb.find id = some rec → Within (hostOps seam native) (Grown (Asks h)) rec.shard := by
    intro rec found
    cases shard : rec.shard with
    | native n => exact native_within n
    | library adapter => exact library_within (holds id adapter (adapterOf_eq_some.mpr ⟨rec, found, shard⟩))
  apply wp_mono (wp_and (swapState_within .refl .trans each bytes) (swapState_spec _ id bytes w))
  intro r w' both
  exact ⟨both.1, revival_adapters both.2.reloaded⟩

/-- What the commit leaves: an exception keeps the old library open. -/
def Recommitted (leaked : Multiset Pointer) (start : List Call) (h : Holdings) {α : Type} (r : Except Exn α)
    (k' : Kernel ν ς) : Prop :=
  ∃ more, Kept (more + leaked) start h k' ∧ ((∃ a, r = .ok a) → more = 0)

theorem Kept.recommitted {leaked : Multiset Pointer} {start : List Call} {h : Holdings} {r : Except Exn α}
    {k' : Kernel ν ς} (kept : Kept leaked start h k') : Recommitted leaked start h r k' :=
  ⟨0, (Multiset.zero_add leaked).symm ▸ kept, fun _ => rfl⟩

theorem commit_custody {leaked : Multiset Pointer} {start : List Call} {h₀ h : Holdings} {k : Kernel ν ς}
    (settled : Settled leaked h k) {rec : Loaded} (loaded : rec ∈ k.libs) {adapter : HostAdapter}
    (adapts : adapterOf k.world.sb rec.id = some adapter) {newLib newAbi newInst : Pointer}
    (tracked : Tracked start h₀ (withInstance h newLib newAbi newInst) k.world.env) (snapshot : ByteString)
    (described : List Schema) :
    wp (commit seam native rec adapter snapshot newLib newAbi newInst described) k (Recommitted leaked start h₀) := by
  obtain ⟨front, back, beside⟩ := settled.beside loaded
  obtain ⟨adapter', adapts', abi⟩ := settled.adapters rec loaded
  obtain rfl := Option.some.inj (adapts.symm.trans adapts')
  have inst : (held k.world.sb rec).item = adapter.inst := by
    simp only [held, adapts, Option.map_some, Option.getD_some]
  have has : (withInstance h newLib newAbi newInst).Has (held k.world.sb rec) :=
    (withInstance_covered settled.covered _ _ _).has (Multiset.mem_cons_of_mem (settled.record_live loaded))
  have destroys := Lawful.destroys has
  rw [inst, show (held k.world.sb rec).descriptor = adapter.abi from abi.symm] at destroys
  let rebound : HostAdapter := { adapter with abi := newAbi, inst := newInst }
  let shards := k.world.sb.shards.update rec.id fun bus => { bus with shard := Shard.library rebound }
  let live := (withInstance h newLib newAbi newInst).live.erase (held k.world.sb rec)
  have swapped : live = ⟨newLib, newAbi, newInst⟩ ::ₘ h.live.erase (held k.world.sb rec) :=
    Multiset.erase_cons_tail_of_mem (settled.record_live loaded)
  have replaced : ∀ env log bound, Settled (rec.lib ::ₘ leaked) ⟨newLib ::ₘ h.opened, none, live⟩
      { k with world := ⟨{ k.world.sb with shards }, env, log⟩, libs := k.libs.map (relabel rec newLib newAbi), bound } :=
    fun _ _ _ => @Settled.replaced _ _ leaked h k _ settled rec front back beside rebound newLib
      (beside.relabelled newLib newAbi) (adapterOf_rebound adapts rfl) live swapped
  have standing : ∀ (w : World (Shard ν) (Foreign ς)) bound, SameAdapters { k.world.sb with shards } w.sb →
      Settled (rec.lib ::ₘ leaked) ⟨newLib ::ₘ h.opened, none, live⟩
        { k with world := w, libs := k.libs.map (relabel rec newLib newAbi), bound } :=
    fun w bound adapters => (replaced w.env w.log bound).congr ⟨rfl, rfl⟩ rfl adapters
  have destroyed : ∀ memory, Tracked start h₀ ⟨newLib ::ₘ h.opened, none, live⟩
      (⟨memory, k.world.env.calls ++ [.destroy adapter.abi adapter.inst]⟩ : Foreign ς) :=
    fun _ => tracked.more rfl (.one destroys)
  unfold commit rebind
  simp only [wp_bind, wp_onSeam, SeamM.destroy, wp_perform, andThen_ok, wp_onBus, wp_updateRecord, wp_modify]
  apply wp_mono (swapState_custody (replaced _ _ k.bound).holds)
  rintro (e | ro) w ⟨grown, adapters⟩
  · refine ⟨{rec.lib}, ⟨_, (destroyed _).asked grown, ?_⟩, by rintro ⟨_, ⟨⟩⟩⟩
    rw [Multiset.singleton_add]
    exact standing w _ adapters
  · obtain ⟨h', closes, settled'⟩ := (standing w (k.bound ++ [(rec.id, described)]) adapters).release
    have kept : Kept leaked start h₀ { k with
        world := { w with env := ⟨seam.libClose rec.lib w.env.memory, w.env.calls ++ [.libClose rec.lib]⟩ }
        libs := k.libs.map (relabel rec newLib newAbi), bound := k.bound ++ [(rec.id, described)] } :=
      ⟨h', ((destroyed _).asked grown).more rfl (.one closes), settled'.congr ⟨rfl, rfl⟩ rfl fun _ => rfl⟩
    simp only [andThen_ok, wp_bind, wp_onSeam, SeamM.libClose, wp_perform]
    split <;> exact kept.recommitted

theorem replace_custody {leaked : Multiset Pointer} {start : List Call} {h₀ h : Holdings} {k : Kernel ν ς}
    (settled : Settled leaked h k) {rec : Loaded} (loaded : rec ∈ k.libs) {newLib newAbi newInst : Pointer}
    (tracked : Tracked start h₀ (withInstance h newLib newAbi newInst) k.world.env) (snapshot : ByteString) :
    wp (replace seam native rec snapshot newLib newAbi newInst) k (Recommitted leaked start h₀) := by
  have holds : Holds (withInstance h newLib newAbi newInst) newAbi newInst := withInstance_holds settled.covered _ _ _
  obtain ⟨h', discards, same⟩ := discard_obeys settled.covered newLib newAbi newInst
  unfold replace
  rw [wp_bind, wp_attempt]
  apply wp_mono (reconstruct_grown holds k)
  rintro r mid ⟨grown, bus, libs⟩
  have described := tracked.asked grown
  have settled' : Settled leaked h mid := settled.congr ⟨rfl, rfl⟩ libs (by rw [bus]; exact fun _ => rfl)
  have discarded : ∀ memory, Kept leaked start h₀ { mid with world := { mid.world with
      env := ⟨memory, (mid.world.env.calls ++ [.destroy newAbi newInst]) ++ [.libClose newLib]⟩ } } := fun memory =>
    ⟨h', described.more (List.append_assoc _ [_] [_]) discards, settled'.congr same rfl fun _ => rfl⟩
  cases r with
  | error e =>
      simp only [andThen_ok, discard, wp_bind, wp_onSeam, SeamM.destroy, SeamM.libClose, wp_perform, wp_pure]
      exact (discarded _).recommitted
  | ok mf =>
      obtain ⟨adapter, adapts, -⟩ := settled'.adapters rec (libs ▸ loaded)
      simp only [andThen_ok, wp_bind, wp_get, adapts]
      split
      · simp only [discard, wp_bind, wp_onSeam, SeamM.destroy, SeamM.libClose, wp_perform, wp_pure, andThen_ok]
        exact (discarded _).recommitted
      · exact commit_custody settled' (libs ▸ loaded) adapts described snapshot _

theorem snapshotBytes_grown {h : Holdings} (id : ShardId) {w : World (Shard ν) (Foreign ς)}
    (holds : ∀ id adapter, adapterOf w.sb id = some adapter → Holds h adapter.abi adapter.inst) :
    wp (snapshotBytes (hostOps seam native) id) w fun _ w' => Grown (Asks h) w.env w'.env ∧ w'.sb = w.sb := by
  unfold snapshotBytes
  rw [wp_bind, wp_get, andThen_ok]
  cases found : w.sb.find id with
  | none => exact ⟨.refl _, rfl⟩
  | some rec =>
      have within : Within (hostOps seam native) (Grown (Asks h)) rec.shard := by
        cases shard : rec.shard with
        | native n => exact native_within n
        | library adapter => exact library_within (holds id adapter (adapterOf_eq_some.mpr ⟨rec, found, shard⟩))
      simp only [wp_bind, wp_callback]
      apply wp_mono (within.snapshot w.env)
      rintro (e | state) env grown
      · exact ⟨grown, rfl⟩
      · rw [andThen_ok]
        cases serialize state <;> exact ⟨grown, rfl⟩

theorem reload_settled {leaked : Multiset Pointer} {h : Holdings} {k : Kernel ν ς} (settled : Settled leaked h k)
    (name newPath : ByteString) :
    wp (reloadFrom seam native name newPath) k (Recommitted leaked k.world.env.calls h) := by
  rw [reloadFrom_eq, wp_bind, wp_get, andThen_ok]
  cases found : find k name with
  | none => exact Kept.recommitted ⟨h, .now h k.world.env, settled⟩
  | some rec =>
      obtain ⟨loaded, -⟩ := find_loaded found
      simp only [wp_bind, wp_attempt, wp_onBus]
      apply wp_mono (snapshotBytes_grown rec.id settled.holds)
      rintro r w ⟨grown, bus⟩
      have asked : Tracked k.world.env.calls h h w.env := (Tracked.now h k.world.env).asked grown
      have settled' : ∀ env, Settled leaked h { k with world := { w with env } } := fun env =>
        settled.congr ⟨rfl, rfl⟩ rfl (adapters_of_shards (congrArg Switchboard.shards bus))
      cases r with
      | error e => exact Kept.recommitted ⟨h, asked, settled' w.env⟩
      | ok snapshot =>
          rw [andThen_ok]
          refine wp_opening ?_ ?_
          · intro _ error memory calls abandoned
            obtain ⟨h', obeys, same⟩ := abandoned_obeys settled.covered abandoned
            exact Kept.recommitted ⟨h', asked.more rfl obeys, (settled' w.env).congr same rfl fun _ => rfl⟩
          · intro o _
            exact replace_custody (settled' _) loaded (asked.more rfl (opening_obeys h o newPath)) snapshot

end Zen.Kernel
