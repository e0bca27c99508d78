import Zen.Proof.Kernel.Reload
import Zen.Proof.Switchboard.Records

/-!
# Runs of the kernel

What a library described when it was loaded is what its adapter and its record on the bus keep, over
every order of loads, reloads, unloads and everything that happens on the bus in between.
-/

namespace Zen.Kernel
open Lib Sb KernelM BusM

variable {ν ς : Type}

/-! ## Records -/

/-- What an adapter was made with. -/
def face : Shard ν → Option (List Schema × Schema)
  | .native _ => none
  | .library adapter => some (adapter.accepted, adapter.stateSchema)

structure SameFace (rec rec' : ShardRecord (Shard ν)) : Prop where
  stateSchema : rec'.stateSchema = rec.stateSchema
  accept : rec'.accept = rec.accept
  face : face rec'.shard = face rec.shard

/-- A record is one from before, with the same face, or a new one of a native Shard. -/
structure Carried (sb sb' : Switchboard (Shard ν)) : Prop where
  ids : sb.nextShardId ≤ sb'.nextShardId
  records : ∀ id rec', sb'.find id = some rec' →
    (∃ rec, sb.find id = some rec ∧ SameFace rec rec') ∨
    id = sb.nextShardId ∧ id < sb'.nextShardId ∧ face rec'.shard = none

/-- What the library described that the Shard was loaded from. -/
def loadedWith (k : Kernel ν ς) (id : ShardId) : Option (List Schema) :=
  (k.bound.find? fun b => b.1 == id).map Prod.snd

structure KernelOk (k : Kernel ν ς) : Prop where
  below : k.world.sb.Below
  adapters : AdaptersOk k.world.sb
  known : ∀ l ∈ k.libs, l.id < k.world.sb.nextShardId
  loaded : ∀ l ∈ k.libs, ∀ rec, k.world.sb.find l.id = some rec →
    ∃ adapter, rec.shard = .library adapter ∧ loadedWith k l.id = some adapter.accepted
  used : ∀ b ∈ k.bound, b.1 < k.world.sb.nextShardId

theorem KernelOk.start (memory : ς) : KernelOk (System.start memory : System ν ς).kernel where
  below := by intro id rec found; cases found
  adapters := by intro id rec adapter found; cases found
  known := by intro l hl; cases hl
  loaded := by intro l hl; cases hl
  used := by intro b hb; cases hb

theorem face_library {shard : Shard ν} {adapter : HostAdapter} (h : shard = .library adapter) :
    face shard = some (adapter.accepted, adapter.stateSchema) := by
  rw [h]
  rfl

theorem library_of_face {shard : Shard ν} {accepted : List Schema} {state : Schema}
    (h : face shard = some (accepted, state)) :
    ∃ adapter, shard = .library adapter ∧ adapter.accepted = accepted ∧ adapter.stateSchema = state := by
  cases shard with
  | native n => cases h
  | library adapter =>
      cases h
      exact ⟨adapter, rfl, rfl, rfl⟩

theorem loadedWith_append {k k' : Kernel ν ς} {more : List (ShardId × List Schema)} {id : ShardId}
    {accepted : List Schema} (bound : k'.bound = k.bound ++ more) (h : loadedWith k id = some accepted) :
    loadedWith k' id = some accepted := by
  obtain ⟨b, first, rfl⟩ := Option.map_eq_some_iff.mp h
  rw [loadedWith, bound, List.find?_append, first]
  rfl

theorem KernelOk.carried {k k' : Kernel ν ς} (ok : KernelOk k)
    (carried : Carried k.world.sb k'.world.sb) (libs : ∀ l' ∈ k'.libs, ∃ l ∈ k.libs, l.id = l'.id)
    (more : List (ShardId × List Schema)) (bound : k'.bound = k.bound ++ more)
    (used : ∀ b ∈ more, b.1 < k.world.sb.nextShardId) : KernelOk k' := by
  have ids := carried.ids
  refine ⟨?_, ?_, ?_, ?_, ?_⟩
  · intro id rec' found
    rcases carried.records id rec' found with ⟨rec, old, _⟩ | ⟨_, small, _⟩
    · exact Nat.lt_of_lt_of_le (ok.below id rec old) ids
    · exact small
  · intro id rec' adapter' found shard
    have seen := face_library shard
    rcases carried.records id rec' found with ⟨rec, old, same⟩ | ⟨_, _, native⟩
    · rw [same.face] at seen
      obtain ⟨adapter, shard', accepted, state⟩ := library_of_face seen
      rw [same.stateSchema, same.accept, ← accepted, ← state]
      exact ok.adapters id rec adapter old shard'
    · rw [native] at seen
      cases seen
  · intro l' hl'
    obtain ⟨l, hl, same⟩ := libs l' hl'
    rw [← same]
    exact Nat.lt_of_lt_of_le (ok.known l hl) ids
  · intro l' hl' rec' found
    obtain ⟨l, hl, sameId⟩ := libs l' hl'
    rw [← sameId] at found ⊢
    rcases carried.records l.id rec' found with ⟨rec, old, same⟩ | ⟨new, _⟩
    · obtain ⟨adapter, shard, described⟩ := ok.loaded l hl rec old
      have seen := face_library shard
      rw [← same.face] at seen
      obtain ⟨adapter', shard', accepted, _⟩ := library_of_face seen
      exact ⟨adapter', shard', accepted ▸ loadedWith_append bound described⟩
    · exact absurd new (Nat.ne_of_lt (ok.known l hl))
  · intro b hb
    rw [bound, List.mem_append] at hb
    rcases hb with old | new
    · exact Nat.lt_of_lt_of_le (ok.used b old) ids
    · exact Nat.lt_of_lt_of_le (used b new) ids

/-! ## Steps of the bus -/

theorem hosted_joining (input : Sb.Input ν ς) {shard : Shard ν}
    (joins : (hosted input).joining = some shard) : face shard = none := by
  cases input with
  | registerShard incoming grant =>
      obtain ⟨n, _, rfl⟩ := Option.map_eq_some_iff.mp joins
      rfl
  | _ => cases joins

theorem reshaped_carried {joining : Option (Shard ν)} {m m' : Machine (Shard ν) (Foreign ς)}
    (h : Reshaped joining m m') (below : m.world.sb.Below)
    (native : ∀ shard, joining = some shard → face shard = none) : Carried m.world.sb m'.world.sb := by
  constructor
  · rcases h.ids with ids | ⟨next, _⟩
    · exact Nat.le_of_eq ids.nextShardId.symm
    · rw [next]
      exact Nat.le_succ _
  · intro id rec' found
    rcases h.origin below found with ⟨rec, old, kept, _⟩ | ⟨new, _, registered, _, joins⟩
    · exact Or.inl ⟨rec, old, kept.stateSchema, kept.accept, by rw [kept.shard]⟩
    · refine Or.inr ⟨new, ?_, native _ joins⟩
      rcases h.ids with ids | ⟨next, _⟩
      · have shorter := congrArg List.length (ids.registered.symm.trans registered)
        simp at shorter
      · rw [new, next]
        exact Nat.lt_succ_self _

/-! ## Load -/

structure Idle (k k' : Kernel ν ς) : Prop where
  shards : k'.world.sb.shards = k.world.sb.shards
  nextShardId : k'.world.sb.nextShardId = k.world.sb.nextShardId
  libs : k'.libs = k.libs
  bound : k'.bound = k.bound

theorem Idle.trans {k mid k' : Kernel ν ς} (first : Idle k mid) (second : Idle mid k') : Idle k k' :=
  ⟨second.shards.trans first.shards, second.nextShardId.trans first.nextShardId,
    second.libs.trans first.libs, second.bound.trans first.bound⟩

theorem Idle.carried {k k' : Kernel ν ς} (h : Idle k k') : Carried k.world.sb k'.world.sb := by
  constructor
  · exact Nat.le_of_eq h.nextShardId.symm
  · intro id rec found
    rw [Switchboard.find, h.shards] at found
    exact Or.inl ⟨rec, found, rfl, rfl, rfl⟩

theorem Idle.ok {k k' : Kernel ν ς} (h : Idle k k') (ok : KernelOk k) : KernelOk k' := by
  refine ok.carried h.carried ?_ [] (by rw [h.bound, List.append_nil]) (by simp)
  intro l hl
  exact ⟨l, h.libs ▸ hl, rfl⟩

structure Mounted (k k' : Kernel ν ς) (rec : ShardRecord (Shard ν)) (adapter : HostAdapter) : Prop where
  shards : k'.world.sb.shards = k.world.sb.shards.emplace k.world.sb.nextShardId rec
  nextShardId : k'.world.sb.nextShardId = k.world.sb.nextShardId + 1
  shard : rec.shard = .library adapter
  stateSchema : rec.stateSchema = adapter.stateSchema
  accept : rec.accept.map Schema.identity = adapter.accepted.map Schema.identity
  libs : ∃ l : Loaded, l.id = k.world.sb.nextShardId ∧ k'.libs = k.libs ++ [l]
  bound : k'.bound = k.bound ++ [(k.world.sb.nextShardId, adapter.accepted)]

theorem reconstruct_idle (seam : Seam ς) (abi inst : Pointer) (k : Kernel ν ς) :
    wp (reconstruct seam abi inst) k fun _ k' => Idle k k' := by
  unfold reconstruct
  simp only [wp_bind, wp_onSeam, SeamM.describe, wp_perform, andThen_ok]
  split
  · exact ⟨rfl, rfl, rfl, rfl⟩
  · rw [wp_onRegistry]
    exact wp_intro (fun _ _ _ => ⟨rfl, rfl, rfl, rfl⟩) (fun _ _ _ => ⟨rfl, rfl, rfl, rfl⟩)

theorem adapter_snapshot_schema {seam : Seam ς} {adapter : HostAdapter} {w w' : Foreign ς} {v : Value}
    (taken : (adapter.snapshot seam).run w = .ok v w') : v.schema = adapter.stateSchema := by
  have spec : wp (adapter.snapshot seam) w fun r _ => ∀ v, r = .ok v → v.schema = adapter.stateSchema := by
    unfold HostAdapter.snapshot
    simp only [wp_bind, SeamM.snapshot, wp_perform, andThen_ok]
    split
    · simp
    · rw [wp_admitBytes]
      split
      · rename_i verdict
        rintro _ ⟨⟩
        exact (Proof.accepted_written verdict).1
      · simp
  exact wp_ok spec taken v rfl

theorem fresh_adapter {seam : Seam ς} {native : ShardOps ν ς} {w : World (Shard ν) (Foreign ς)}
    {adapter : HostAdapter} {id : ShardId} {grant : Grant} {rec : ShardRecord (Shard ν)}
    (fresh : Fresh (hostOps seam native) w (some (.library adapter)) id grant rec) :
    rec.shard = .library adapter ∧ rec.stateSchema = adapter.stateSchema ∧
      rec.accept.map Schema.identity = adapter.accepted.map Schema.identity := by
  have shard : rec.shard = .library adapter := Option.some.inj fresh.shard.symm
  obtain ⟨declared, env, asked, owners⟩ := fresh.accept
  obtain ⟨before, after, taken, stateSchema⟩ := fresh.snapshot
  rw [shard] at asked taken
  cases asked
  refine ⟨shard, stateSchema.trans (adapter_snapshot_schema taken), ?_⟩
  rw [List.map_map] at owners
  have same : adapter.accepted.map (some ∘ Schema.identity) = rec.accept.map (some ∘ Schema.identity) := owners
  rw [← List.map_map, ← List.map_map] at same
  exact ((List.map_injective_iff.mpr (Option.some_injective _)) same).symm

theorem mount_spec (seam : Seam ς) (native : ShardOps ν ς) (name : ByteString) (lib abi inst : Pointer)
    (k : Kernel ν ς) : wp (mount seam native name lib abi inst) k fun r k' =>
      match r with
      | .error _ => Idle k k'
      | .ok _ => ∃ rec adapter, Mounted k k' rec adapter := by
  unfold mount
  rw [wp_bind]
  apply wp_mono (reconstruct_idle seam abi inst k)
  rintro (e | mf) mid idle
  · exact idle
  · simp only [andThen_ok, wp_bind, wp_onBus]
    apply wp_mono (registerShard_spec (hostOps seam native) _ allowAny mid.world)
    rintro (e | id) w registered
    · obtain ⟨_, _, shards, nextShardId⟩ := registered
      exact idle.trans ⟨shards, nextShardId, rfl, rfl⟩
    · obtain ⟨_, _, rfl, next, rec, shards, fresh⟩ := registered
      obtain ⟨shard, stateSchema, accept⟩ := fresh_adapter fresh
      simp only [andThen_ok, wp_bind, wp_modify, wp_pure]
      refine ⟨rec, _, ?_, ?_, shard, stateSchema, accept, ⟨⟨name, lib, abi, _⟩, idle.nextShardId, ?_⟩, ?_⟩
      · rw [← idle.nextShardId, ← idle.shards]
        exact shards
      · rw [← idle.nextShardId]
        exact next
      · rw [← idle.libs]
      · rw [← idle.bound, ← idle.nextShardId]

theorem Mounted.find {k k' : Kernel ν ς} {rec : ShardRecord (Shard ν)} {adapter : HostAdapter}
    (h : Mounted k k' rec adapter) (below : k.world.sb.Below) (id : ShardId) : k'.world.sb.find id =
      if id = k.world.sb.nextShardId then some rec else k.world.sb.find id :=
  below.find_added h.shards id

theorem Mounted.loadedWith {k k' : Kernel ν ς} {rec : ShardRecord (Shard ν)} {adapter : HostAdapter}
    (h : Mounted k k' rec adapter) (used : ∀ b ∈ k.bound, b.1 < k.world.sb.nextShardId) :
    loadedWith k' k.world.sb.nextShardId = some adapter.accepted := by
  -- the id is new, so no earlier library was behind it
  have unbound : (k.bound.find? fun b => b.1 == k.world.sb.nextShardId) = none := by
    rw [List.find?_eq_none]
    intro b hb same
    exact Nat.ne_of_lt (used b hb) (beq_iff_eq.mp same)
  rw [Kernel.loadedWith, h.bound, List.find?_append, unbound]
  simp

theorem Mounted.ok {k k' : Kernel ν ς} {rec : ShardRecord (Shard ν)} {adapter : HostAdapter}
    (h : Mounted k k' rec adapter) (ok : KernelOk k) : KernelOk k' := by
  have lookup := h.find ok.below
  have old : ∀ {id}, id < k.world.sb.nextShardId → k'.world.sb.find id = k.world.sb.find id := by
    intro id small
    rw [lookup, if_neg (Nat.ne_of_lt small)]
  have grown : ∀ {n}, n < k.world.sb.nextShardId → n < k'.world.sb.nextShardId := by
    intro n small
    rw [h.nextShardId]
    exact Nat.lt_succ_of_lt small
  have last : k.world.sb.nextShardId < k'.world.sb.nextShardId := by
    rw [h.nextShardId]
    exact Nat.lt_succ_self _
  obtain ⟨l, id, libs⟩ := h.libs
  refine ⟨?_, ?_, ?_, ?_, ?_⟩
  · intro id' rec' found
    rw [lookup] at found
    split at found
    · rename_i new
      rw [new]
      exact last
    · exact grown (ok.below id' rec' found)
  · intro id' rec' adapter' found shard'
    rw [lookup] at found
    split at found
    · cases found
      rw [h.shard] at shard'
      cases shard'
      exact ⟨h.stateSchema, h.accept⟩
    · exact ok.adapters id' rec' adapter' found shard'
  · intro l' hl'
    rw [libs, List.mem_append, List.mem_singleton] at hl'
    rcases hl' with hl' | rfl
    · exact grown (ok.known l' hl')
    · rw [id]
      exact last
  · intro l' hl' rec' found
    rw [libs, List.mem_append, List.mem_singleton] at hl'
    rcases hl' with hl' | rfl
    · rw [old (ok.known l' hl')] at found
      obtain ⟨adapter', shard', described⟩ := ok.loaded l' hl' rec' found
      exact ⟨adapter', shard', loadedWith_append h.bound described⟩
    · rw [lookup, if_pos id] at found
      cases found
      rw [id]
      exact ⟨adapter, h.shard, h.loadedWith ok.used⟩
  · intro b hb
    rw [h.bound, List.mem_append, List.mem_singleton] at hb
    rcases hb with hb | rfl
    · exact grown (ok.used b hb)
    · exact last

theorem load_ok {seam : Seam ς} {native : ShardOps ν ς} {k : Kernel ν ς} (ok : KernelOk k)
    (name path : ByteString) : wp (load seam native name path) k fun _ k' => KernelOk k' := by
  have idle : ∀ {k'}, Idle k k' → KernelOk k' := fun h => h.ok ok
  unfold load
  rw [wp_bind, wp_get, andThen_ok]
  split
  · exact ok
  · simp only [wp_bind, wp_onSeam, SeamM.libOpen, wp_perform, andThen_ok]
    split
    · exact idle ⟨rfl, rfl, rfl, rfl⟩
    · simp only [wp_bind, wp_onSeam]
      refine wp_fetchAbi rfl ?_ ?_
      · intro _ error
        exact idle ⟨rfl, rfl, rfl, rfl⟩
      · intro abi _ _
        simp only [andThen_ok, wp_bind, wp_onSeam, SeamM.create, wp_perform]
        split
        · exact idle ⟨rfl, rfl, rfl, rfl⟩
        · rw [wp_bind, wp_attempt]
          apply wp_mono (mount_spec seam native name _ abi _ _)
          rintro (e | id) k' mounted
          · have before : Idle k k' := by
              refine Idle.trans ?_ mounted
              exact ⟨rfl, rfl, rfl, rfl⟩
            exact idle (before.trans ⟨rfl, rfl, rfl, rfl⟩)
          · obtain ⟨rec, adapter, mounted⟩ := mounted
            exact Mounted.ok (k := { k with world := _ }) mounted (idle ⟨rfl, rfl, rfl, rfl⟩)

/-! ## Reload and unload -/

theorem updated_carried {sb sb' : Switchboard (Shard ν)} {id : ShardId}
    {f : ShardRecord (Shard ν) → ShardRecord (Shard ν)} {rec : ShardRecord (Shard ν)}
    (found : sb.find id = some rec) (nextShardId : sb'.nextShardId = sb.nextShardId)
    (lookup : ∀ j, sb'.find j = if j = id then (sb.find j).map f else sb.find j)
    (same : SameFace rec (f rec)) : Carried sb sb' := by
  constructor
  · exact Nat.le_of_eq nextShardId.symm
  · intro j rec' found'
    rw [lookup] at found'
    split at found'
    · rename_i here
      rw [here, found] at found'
      cases found'
      rw [here]
      exact Or.inl ⟨rec, found, same⟩
    · exact Or.inl ⟨rec', found', rfl, rfl, rfl⟩

theorem relabelled_id (st : Stage ς) (l : Loaded) : (st.relabelled l).id = l.id := by
  unfold Stage.relabelled
  split <;> rfl

theorem committed_find {st : Stage ς} {sb sb' : Switchboard (Shard ν)} {state : Value}
    (bus : sb' = { sb with
      shards := (sb.shards.update st.loaded.id st.rebound).update st.loaded.id fun rec =>
        { rec with lastKnownGood := state, alive := true } }) (j : ShardId) :
    sb'.find j = if j = st.loaded.id then
      (sb.find j).map fun rec => { st.rebound rec with lastKnownGood := state, alive := true }
    else sb.find j := by
  rw [bus, Switchboard.find, OrdMap.find_update, OrdMap.find_update]
  split
  · exact Option.map_map _ _ _
  · rfl

theorem Committed.ok {st : Stage ς} {seam : Seam ς} {state : Value} {k k' : Kernel ν ς}
    {rec : ShardRecord (Shard ν)} {r : Except Exn ReloadResult} (h : Committed st seam state k r k')
    (found : k.world.sb.find st.loaded.id = some rec) (shard : rec.shard = .library st.adapter)
    (ok : KernelOk k) : KernelOk k' := by
  have carried : Carried k.world.sb k'.world.sb := by
    cases r with
    | error e =>
        have bus := h.ended.2
        refine updated_carried found (by rw [bus]) (f := st.rebound) ?_ ⟨rfl, rfl, by rw [shard]; rfl⟩
        intro j
        rw [bus]
        exact OrdMap.find_update _ _ _ _
    | ok result =>
        obtain ⟨_, _, bus, _⟩ := h.ended
        exact updated_carried found (by rw [bus]) (committed_find bus) ⟨rfl, rfl, by rw [shard]; rfl⟩
  refine ok.carried carried ?_ _ h.bound ?_
  · intro l' hl'
    rw [h.libs] at hl'
    obtain ⟨l, hl, rfl⟩ := List.mem_map.mp hl'
    exact ⟨l, hl, (relabelled_id st l).symm⟩
  · intro b hb
    rw [List.mem_singleton.mp hb]
    exact ok.below _ _ found

theorem KeepsOld.idle {k k' : Kernel ν ς} (h : KeepsOld k k') : Idle k k' :=
  ⟨by rw [h.bus], by rw [h.bus], h.libs, h.bound⟩

theorem reloadFrom_ok {seam : Seam ς} {native : ShardOps ν ς} {k : Kernel ν ς} (ok : KernelOk k)
    (name newPath : ByteString) :
    wp (reloadFrom seam native name newPath) k fun _ k' => KernelOk k' := by
  apply wp_mono (reloadFrom_spec seam native ok.adapters name newPath)
  intro r k' ended
  cases ended with
  | committed st rec state reached found shard accepted committed =>
      have staged : KernelOk (st.staged k newPath) := Idle.ok (k := k) ⟨rfl, rfl, rfl, rfl⟩ ok
      exact committed.ok found shard staged
  | refused refused =>
      obtain ⟨_, _, _, kept⟩ := refused
      exact kept.idle.ok ok

theorem erased_carried {sb : Switchboard (Shard ν)} (id : ShardId) :
    Carried sb (sb.unregisterShard id).1 := by
  unfold Switchboard.unregisterShard
  cases sb.find id with
  | none => exact ⟨Nat.le_refl _, fun _ rec found => Or.inl ⟨rec, found, rfl, rfl, rfl⟩⟩
  | some _ =>
      refine ⟨Nat.le_refl _, ?_⟩
      intro j rec found
      rw [Switchboard.find, OrdMap.find_erase] at found
      split at found
      · cases found
      · exact Or.inl ⟨rec, found, rfl, rfl, rfl⟩

theorem unload_ok {seam : Seam ς} {k : Kernel ν ς} (ok : KernelOk k) (name : ByteString) :
    wp (unload seam name : KernelM ν ς Bool) k fun _ k' => KernelOk k' := by
  unfold unload
  rw [wp_bind, wp_get, andThen_ok]
  cases find k name with
  | none => exact ok
  | some rec =>
      let erased : Kernel ν ς := { k with
        libs := k.libs.filter fun l => !(l.name == name)
        world := { k.world with sb := (k.world.sb.unregisterShard rec.id).1 } }
      have erasedOk : KernelOk erased := by
        refine ok.carried (erased_carried rec.id) ?_ [] (List.append_nil _).symm (by simp)
        intro l hl
        exact ⟨l, List.mem_of_mem_filter hl, rfl⟩
      simp only [wp_bind, wp_get, andThen_ok, wp_modify]
      split
      · exact Idle.ok (k := erased) ⟨rfl, rfl, rfl, rfl⟩ erasedOk
      · exact Idle.ok (k := erased) ⟨rfl, rfl, rfl, rfl⟩ erasedOk

/-! ## Runs -/

theorem ended_ok {α : Type} {x : KernelM ν ς α} {s : System ν ς}
    (h : wp x s.kernel fun _ k' => KernelOk k') : KernelOk (s.ended (x.run s.kernel)).kernel := by
  cases run : x.run s.kernel with
  | ok a k' => exact wp_ok h run
  | error e k' => exact wp_error h run

theorem step_ok {seam : Seam ς} {native : ShardOps ν ς} {input : Input ν ς} {s s' : System ν ς}
    (ok : KernelOk s.kernel) (action : System.step seam native input s = some s') : KernelOk s'.kernel := by
  cases input with
  | bus input =>
      obtain ⟨m, moved, rfl⟩ := Option.map_eq_some_iff.mp action
      have carried : Carried s.kernel.world.sb m.world.sb :=
        reshaped_carried (step_reshaped moved) ok.below fun _ joins => hosted_joining input joins
      exact ok.carried carried (fun l hl => ⟨l, hl, rfl⟩) [] (List.append_nil _).symm (by simp)
  | load name path =>
      have spec : wp (load seam native name path) s.kernel fun _ k' => KernelOk k' := load_ok ok name path
      rw [System.step] at action
      cases run : (load seam native name path).run s.kernel with
      | ok result k' =>
          simp only [run] at action
          split at action <;> cases action <;> exact wp_ok spec run
      | error e k' =>
          rw [run] at action
          cases action
          exact wp_error spec run
  | reloadFrom name newPath =>
      cases action
      exact ended_ok (reloadFrom_ok ok name newPath)
  | unload name =>
      cases action
      exact ended_ok (unload_ok ok name)

theorem kernel_ok {seam : Seam ς} {native : ShardOps ν ς} {memory : ς} {inputs : List (Input ν ς)}
    {s : System ν ς} (run : Reaches seam native (.start memory) inputs s) : KernelOk s.kernel :=
  run.invariant (I := fun s : System ν ς => KernelOk s.kernel) (fun _ _ _ ok action => step_ok ok action)
    (KernelOk.start memory)

end Zen.Kernel
