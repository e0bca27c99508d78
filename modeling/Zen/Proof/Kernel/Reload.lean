import Zen.Proof.Kernel.Manifest

/-!
# Hot reload

Up to its commit a reload only asks: the old instance for a snapshot, the new library for itself.
The commit destroys the old instance before the new one is revived, and that can still fail.
-/

namespace Zen.Kernel
open Lib Sb KernelM BusM

variable {ν ς : Type}

/-! ## What a reload finds -/

/-- The Shard, its snapshot and the new library, with the memory behind the seam after each call. -/
structure Stage (ς : Type) where
  loaded : Loaded
  adapter : HostAdapter
  snapshot : ByteString
  newLib : Pointer
  newAbi : Pointer
  newInst : Pointer
  manifest : ByteString
  mf : Manifest
  registry : Registry
  afterSnapshot : ς
  afterOpen : ς
  afterAbi : ς
  afterCreate : ς
  afterDescribe : ς

namespace Stage

/-- Every check before the commit passes. -/
structure Reached (st : Stage ς) (seam : Seam ς) (k : Kernel ν ς) (name newPath : ByteString) : Prop where
  loaded : find k name = some st.loaded
  adapter : adapterOf k.world.sb st.loaded.id = some st.adapter
  snapshot : seam.snapshot st.adapter.abi st.adapter.inst k.world.env.memory =
    ((zenOk, st.snapshot), st.afterSnapshot)
  conforms : (admitUnverified (parse st.snapshot) st.adapter.stateSchema .firstError).ok = true
  opened : seam.libOpen newPath st.afterSnapshot = (.ok st.newLib, st.afterOpen)
  exported : seam.shardAbi st.newLib st.afterOpen = (some (some st.newAbi), st.afterAbi)
  version : seam.abiVersion st.newAbi st.afterAbi = zenAbiVersion
  created : seam.create st.newAbi st.afterAbi = (some st.newInst, st.afterCreate)
  described : seam.describe st.newAbi st.newInst st.afterCreate = ((zenOk, st.manifest), st.afterDescribe)
  rebuilt : (reconstructManifest st.manifest).run k.registry = .ok st.mf st.registry
  compatible : sameIdentity st.mf.state st.adapter.stateSchema = true

/-- What the new library answers when its new instance is revived from the snapshot. -/
def reviveStatus (st : Stage ς) (seam : Seam ς) : ZenStatus :=
  (seam.revive st.newAbi st.newInst st.snapshot
    (seam.destroy st.adapter.abi st.adapter.inst st.afterDescribe)).1

def calls (st : Stage ς) (newPath : ByteString) : List Call :=
  [.snapshot st.adapter.abi st.adapter.inst zenOk st.snapshot, .libOpen newPath (some st.newLib),
    .shardAbi st.newLib, .create st.newAbi (some st.newInst),
    .describe st.newAbi st.newInst zenOk st.manifest]

-- the kernel at the commit
def staged (st : Stage ς) (k : Kernel ν ς) (newPath : ByteString) : Kernel ν ς :=
  { k with
    world := { k.world with env := ⟨st.afterDescribe, k.world.env.calls ++ st.calls newPath⟩ }
    registry := st.registry }

end Stage

/-! ## The snapshot -/

theorem adapterOf_eq_some {sb : Switchboard (Shard ν)} {id : ShardId} {adapter : HostAdapter} :
    adapterOf sb id = some adapter ↔ ∃ rec, sb.find id = some rec ∧ rec.shard = .library adapter := by
  unfold adapterOf
  cases found : sb.find id with
  | none => simp
  | some rec =>
      obtain ⟨_, shard, _⟩ := rec
      cases shard <;> simp

structure Snapshotted (seam : Seam ς) (id : ShardId) (w : World (Shard ν) (Foreign ς))
    (r : Except Exn ByteString) (w' : World (Shard ν) (Foreign ς)) : Prop where
  bus : w'.sb = w.sb
  calls : ∃ calls, w'.env.calls = w.env.calls ++ calls ∧
    ∀ c ∈ calls, ∃ abi inst status bytes, c = .snapshot abi inst status bytes
  taken : ∀ bytes adapter, r = .ok bytes → adapterOf w.sb id = some adapter →
    seam.snapshot adapter.abi adapter.inst w.env.memory = ((zenOk, bytes), w'.env.memory) ∧
      (admitUnverified (parse bytes) adapter.stateSchema .firstError).ok = true

theorem snapshotBytes_spec (seam : Seam ς) (native : ShardOps ν ς) (id : ShardId)
    (w : World (Shard ν) (Foreign ς)) :
    wp (snapshotBytes (hostOps seam native) id) w (Snapshotted seam id w) := by
  unfold snapshotBytes
  rw [wp_bind, wp_get, andThen_ok]
  cases found : w.sb.find id with
  | none => exact ⟨rfl, ⟨[], by simp⟩, by simp⟩
  | some rec =>
      simp only [wp_bind, wp_callback]
      cases shard : rec.shard with
      | native n =>
          have unadapted : ∀ adapter, adapterOf w.sb id ≠ some adapter := by
            intro adapter h
            obtain ⟨rec', found', shard'⟩ := adapterOf_eq_some.mp h
            rw [found] at found'
            cases found'
            rw [shard] at shard'
            cases shard'
          simp only [hostOps, wp_onMemory]
          refine wp_intro ?_ ?_
          · intro v memory _
            rw [andThen_ok]
            cases serialize v <;>
              exact ⟨rfl, ⟨[], by simp⟩, fun _ adapter _ h => absurd h (unadapted adapter)⟩
          · intro e memory _
            exact ⟨rfl, ⟨[], by simp⟩, by simp⟩
      | library adapter =>
          simp only [hostOps, HostAdapter.snapshot, wp_bind, SeamM.snapshot, wp_perform, andThen_ok]
          generalize taken : seam.snapshot adapter.abi adapter.inst w.env.memory = result
          obtain ⟨⟨status, bytes⟩, memory⟩ := result
          have asked : ∃ calls, w.env.calls ++ [Call.snapshot adapter.abi adapter.inst status bytes] =
              w.env.calls ++ calls ∧ ∀ c ∈ calls, ∃ abi inst status bytes, c = .snapshot abi inst status bytes :=
            ⟨_, rfl, by simp⟩
          split
          · exact ⟨rfl, asked, by simp⟩
          · rename_i good
            rw [ne_eq, Decidable.not_not] at good
            subst good
            rw [wp_admitBytes]
            cases verdict : admitUnverified (parse bytes) adapter.stateSchema .firstError with
            | reject errors => exact ⟨rfl, asked, by simp⟩
            | accept v =>
                simp only [andThen_ok, (Proof.accepted_written verdict).2]
                refine ⟨rfl, asked, ?_⟩
                rintro _ adapter' ⟨⟩ h
                obtain ⟨rec', found', shard'⟩ := adapterOf_eq_some.mp h
                rw [found] at found'
                cases found'
                rw [shard] at shard'
                cases shard'
                exact ⟨taken, by rw [verdict]; rfl⟩

theorem snapshotBytes_taken {seam : Seam ς} (native : ShardOps ν ς) {id : ShardId}
    {w : World (Shard ν) (Foreign ς)} {adapter : HostAdapter} {bytes : ByteString} {memory : ς}
    (adapts : adapterOf w.sb id = some adapter)
    (taken : seam.snapshot adapter.abi adapter.inst w.env.memory = ((zenOk, bytes), memory))
    (conforms : (admitUnverified (parse bytes) adapter.stateSchema .firstError).ok = true)
    {Q : Except Exn ByteString → World (Shard ν) (Foreign ς) → Prop}
    (h : Q (.ok bytes) { w with env := ⟨memory, w.env.calls ++
      [.snapshot adapter.abi adapter.inst zenOk bytes]⟩ }) :
    wp (snapshotBytes (hostOps seam native) id) w Q := by
  obtain ⟨rec, found, shard⟩ := adapterOf_eq_some.mp adapts
  obtain ⟨v, verdict⟩ := Proof.ok_accepts conforms
  unfold snapshotBytes
  rw [wp_bind, wp_get, andThen_ok, found]
  simp only [shard, hostOps, HostAdapter.snapshot, wp_bind, wp_callback, SeamM.snapshot, wp_perform, taken,
    andThen_ok, ne_eq, not_true_eq_false, ↓reduceIte, wp_admitBytes, verdict, (Proof.accepted_written verdict).2]
  exact h

/-! ## The commit -/

def Stage.rebound (st : Stage ς) (rec : ShardRecord (Shard ν)) : ShardRecord (Shard ν) :=
  { rec with shard := .library { st.adapter with abi := st.newAbi, inst := st.newInst } }

def Stage.relabelled (st : Stage ς) (l : Loaded) : Loaded :=
  if l.name == st.loaded.name then { l with abi := st.newAbi, lib := st.newLib } else l

structure Committed (st : Stage ς) (seam : Seam ς) (state : Value) (k : Kernel ν ς)
    (r : Except Exn ReloadResult) (k' : Kernel ν ς) : Prop where
  libs : k'.libs = k.libs.map st.relabelled
  bound : k'.bound = k.bound ++ [(st.loaded.id, st.mf.accepted)]
  ended : match r with
    | .ok result => st.reviveStatus seam = zenOk ∧ result.reloaded = true ∧
        k'.world.sb = { k.world.sb with
          shards := (k.world.sb.shards.update st.loaded.id st.rebound).update st.loaded.id fun rec =>
            { rec with lastKnownGood := state, alive := true } } ∧
        k'.world.env.calls = k.world.env.calls ++ [.destroy st.adapter.abi st.adapter.inst,
          .revive st.newAbi st.newInst st.snapshot zenOk, .libClose st.loaded.lib]
    | .error _ => st.reviveStatus seam ≠ zenOk ∧
        k'.world.sb = { k.world.sb with shards := k.world.sb.shards.update st.loaded.id st.rebound }

theorem swapState_revives {ops : ShardOps ν ς} {id : ShardId} {candidateBytes : ByteString} {w : World ν ς}
    {rec : ShardRecord ν} {state : Value} {Q : Except Exn ReviveOutcome → World ν ς → Prop}
    (found : w.sb.find id = some rec)
    (accepted : admitUnverified (parse candidateBytes) rec.stateSchema .firstError = .accept state)
    (h : ∀ log log', wp (ops.revive rec.shard state) w.env fun r env =>
      match r with
      | .ok _ => Q (.ok { revived := true }) ⟨{ w.sb with shards := w.sb.shards.update id fun rec =>
          { rec with lastKnownGood := state, alive := true } }, env, log⟩
      | .error e => Q (.error e) ⟨w.sb, env, log'⟩) :
    wp (swapState ops id candidateBytes) w Q := by
  unfold swapState
  rw [wp_bind, wp_get, andThen_ok, found]
  simp only [accepted, wp_bind, wp_revive]
  let called : Log := { w.log with revived := w.log.revived ++ [(rec.id, rec.stateSchema, state)] }
  let announced : Log :=
    { called with events := w.log.events ++ [World.stateEvent rec id .revived] }
  apply wp_mono (h announced called)
  rintro (e | _) env result
  · exact result
  · exact result

theorem commit_spec {st : Stage ς} (seam : Seam ς) (native : ShardOps ν ς) {k : Kernel ν ς}
    {rec : ShardRecord (Shard ν)} {state : Value} (found : k.world.sb.find st.loaded.id = some rec)
    (schema : rec.stateSchema = st.adapter.stateSchema)
    (accepted : admitUnverified (parse st.snapshot) st.adapter.stateSchema .firstError = .accept state)
    (memory : k.world.env.memory = st.afterDescribe) :
    wp (commit seam native st.loaded st.adapter st.snapshot st.newLib st.newAbi st.newInst st.mf.accepted) k
      (Committed st seam state k) := by
  have after : (k.world.sb.shards.update st.loaded.id st.rebound).find st.loaded.id =
      some (st.rebound rec) := by
    rw [OrdMap.find_update, if_pos rfl]
    exact congrArg (Option.map st.rebound) found
  unfold commit rebind
  simp only [wp_bind, wp_onSeam, SeamM.destroy, wp_perform, andThen_ok, wp_onBus, wp_updateRecord,
    wp_modify]
  refine swapState_revives after (by rw [← accepted, ← schema]; rfl) ?_
  intro log log'
  simp only [Stage.rebound, hostOps, HostAdapter.revive, (Proof.accepted_written accepted).2, wp_bind,
    SeamM.revive, wp_perform, andThen_ok, memory]
  have status : (seam.revive st.newAbi st.newInst st.snapshot
    (seam.destroy st.adapter.abi st.adapter.inst st.afterDescribe)).1 = st.reviveStatus seam := rfl
  split
  · rename_i failed
    exact ⟨rfl, rfl, failed, rfl⟩
  · rename_i good
    rw [ne_eq, Decidable.not_not, status] at good
    simp only [wp_pure, andThen_ok, wp_onSeam, SeamM.libClose, wp_perform, Bool.not_true,
      Bool.false_eq_true, ↓reduceIte]
    refine ⟨rfl, rfl, good, rfl, rfl, ?_⟩
    rw [status, good, List.append_assoc, List.append_assoc]
    rfl

/-- What the kernel's adapters and the records they are in agree on. -/
def AdaptersOk (sb : Switchboard (Shard ν)) : Prop :=
  ∀ id rec adapter, sb.find id = some rec → rec.shard = .library adapter →
    rec.stateSchema = adapter.stateSchema ∧
      rec.accept.map Schema.identity = adapter.accepted.map Schema.identity

theorem reloadFrom_commits {seam : Seam ς} (native : ShardOps ν ς) {k : Kernel ν ς}
    {name newPath : ByteString} {st : Stage ς} {state : Value} (ok : AdaptersOk k.world.sb)
    (reached : st.Reached seam k name newPath)
    (accepted : admitUnverified (parse st.snapshot) st.adapter.stateSchema .firstError = .accept state) :
    wp (reloadFrom seam native name newPath) k (Committed st seam state (st.staged k newPath)) := by
  obtain ⟨rec, found, shard⟩ := adapterOf_eq_some.mp reached.adapter
  unfold reloadFrom
  rw [wp_bind, wp_get, andThen_ok, reached.loaded]
  simp only [wp_bind, wp_attempt, wp_onBus]
  apply snapshotBytes_taken native reached.adapter reached.snapshot reached.conforms
  simp only [andThen_ok, wp_bind, wp_onSeam, SeamM.libOpen, wp_perform, reached.opened]
  refine wp_fetchAbi reached.exported ?_ ?_
  · intro unsupported
    exact absurd reached.version (unsupported _ rfl)
  · rintro _ ⟨⟩ _
    simp only [andThen_ok, wp_bind, wp_onSeam, SeamM.create, wp_perform, reached.created, replace,
      wp_attempt, reconstruct, SeamM.describe, reached.described, ne_eq, not_true_eq_false, ↓reduceIte,
      wp_onRegistry, wp_of_ok reached.rebuilt, wp_get, reached.adapter, reached.compatible, Bool.not_true,
      Bool.false_eq_true]
    have spec := commit_spec (k := st.staged k newPath) seam native found (ok _ _ _ found shard).1 accepted rfl
    simp only [Stage.staged, Stage.calls] at spec ⊢
    simp only [List.append_assoc, List.cons_append, List.nil_append]
    exact spec

/-! ## Refusals -/

/-- No instance is revived, and only what was opened and created on the way is closed and destroyed. -/
structure Spares (calls : List Call) : Prop where
  revive : ∀ abi inst state status, .revive abi inst state status ∉ calls
  destroy : ∀ abi inst, .destroy abi inst ∈ calls → .create abi (some inst) ∈ calls
  close : ∀ lib, .libClose lib ∈ calls → ∃ path, .libOpen path (some lib) ∈ calls

structure KeepsOld (k k' : Kernel ν ς) : Prop where
  bus : k'.world.sb = k.world.sb
  libs : k'.libs = k.libs
  bound : k'.bound = k.bound
  calls : ∃ calls, k'.world.env.calls = k.world.env.calls ++ calls ∧ Spares calls

def Refuses (k : Kernel ν ς) (r : Except Exn ReloadResult) (k' : Kernel ν ς) : Prop :=
  ∃ result, r = .ok result ∧ result.reloaded = false ∧ KeepsOld k k'

theorem Spares.asked {asked calls : List Call}
    (snapshots : ∀ c ∈ asked, ∃ abi inst status bytes, c = .snapshot abi inst status bytes)
    (h : Spares calls) : Spares (asked ++ calls) := by
  have other : ∀ c, (∀ abi inst status bytes, c ≠ .snapshot abi inst status bytes) →
      c ∈ asked ++ calls → c ∈ calls := by
    intro c different hc
    rcases List.mem_append.mp hc with hc | hc
    · obtain ⟨abi, inst, status, bytes, rfl⟩ := snapshots c hc
      exact absurd rfl (different abi inst status bytes)
    · exact hc
  refine ⟨?_, ?_, ?_⟩
  · intro abi inst state status hc
    exact h.revive abi inst state status (other _ (by simp) hc)
  · intro abi inst hc
    exact List.mem_append_right _ (h.destroy abi inst (other _ (by simp) hc))
  · intro lib hc
    obtain ⟨path, opened⟩ := h.close lib (other _ (by simp) hc)
    exact ⟨path, List.mem_append_right _ opened⟩

theorem Snapshotted.refuses {seam : Seam ς} {id : ShardId} {k k' : Kernel ν ς}
    {w : World (Shard ν) (Foreign ς)} {r : Except Exn ByteString} (snap : Snapshotted seam id k.world r w)
    {result : ReloadResult} (calls : List Call) (refused : result.reloaded = false)
    (bus : k'.world.sb = w.sb) (libs : k'.libs = k.libs) (bound : k'.bound = k.bound)
    (grown : k'.world.env.calls = w.env.calls ++ calls) (spares : Spares calls) : Refuses k (.ok result) k' := by
  obtain ⟨asked, first, snapshots⟩ := snap.calls
  refine ⟨result, rfl, refused, by rw [bus, snap.bus], libs, bound, asked ++ calls, ?_,
    spares.asked snapshots⟩
  rw [grown, first, List.append_assoc]

theorem replace_refuses {seam : Seam ς} (native : ShardOps ν ς) {k k₁ : Kernel ν ς} {rec : Loaded}
    {snapshot : ByteString} (newPath : ByteString) {newLib newAbi newInst : Pointer}
    {w : World (Shard ν) (Foreign ς)} (snap : Snapshotted seam rec.id k.world (.ok snapshot) w)
    (bus : k₁.world.sb = w.sb) (libs : k₁.libs = k.libs) (bound : k₁.bound = k.bound)
    (registry : k₁.registry = k.registry)
    (grown : k₁.world.env.calls = w.env.calls ++ [.libOpen newPath (some newLib), .shardAbi newLib,
      .create newAbi (some newInst)])
    (unfit : ∀ manifest mf registry adapter memory,
      seam.describe newAbi newInst k₁.world.env.memory = ((zenOk, manifest), memory) →
      (reconstructManifest manifest).run k.registry = .ok mf registry →
      adapterOf k.world.sb rec.id = some adapter → sameIdentity mf.state adapter.stateSchema = false) :
    wp (replace seam native rec snapshot newLib newAbi newInst) k₁ (Refuses k) := by
  unfold replace
  simp only [wp_bind, wp_attempt, reconstruct, wp_onSeam, SeamM.describe, wp_perform, andThen_ok]
  generalize described : seam.describe newAbi newInst k₁.world.env.memory = result
  obtain ⟨⟨status, manifest⟩, afterDescribe⟩ := result
  -- both ways to fail end with the new instance destroyed and the new library closed
  have discarded : Spares [.libOpen newPath (some newLib), .shardAbi newLib, .create newAbi (some newInst),
      .describe newAbi newInst status manifest, .destroy newAbi newInst, .libClose newLib] :=
    ⟨by simp, by simp, by simp⟩
  split
  · simp only [wp_throw, andThen_ok, discard, wp_bind, wp_onSeam, SeamM.destroy, SeamM.libClose, wp_perform,
      wp_pure]
    exact snap.refuses _ rfl bus libs bound (by simp [grown]) discarded
  · rename_i good
    rw [ne_eq, Decidable.not_not] at good
    subst good
    rw [wp_onRegistry]
    refine wp_intro ?_ ?_
    · intro mf after rebuilt
      simp only [andThen_ok, wp_bind, wp_get]
      cases adapts : adapterOf k₁.world.sb rec.id with
      | none =>
          exact snap.refuses [.libOpen newPath (some newLib), .shardAbi newLib, .create newAbi (some newInst),
            .describe newAbi newInst zenOk manifest] rfl bus libs bound (by simp [grown])
            ⟨by simp, by simp, by simp⟩
      | some adapter =>
          rw [registry] at rebuilt
          rw [bus, snap.bus] at adapts
          simp only [unfit manifest mf after adapter afterDescribe described rebuilt adapts, Bool.not_false,
            ↓reduceIte, discard, wp_bind, wp_onSeam, SeamM.destroy, SeamM.libClose, wp_perform, andThen_ok,
            wp_pure]
          exact snap.refuses _ rfl bus libs bound (by simp [grown]) discarded
    · intro e after _
      simp only [andThen_ok, discard, wp_bind, wp_onSeam, SeamM.destroy, SeamM.libClose, wp_perform, wp_pure]
      exact snap.refuses _ rfl bus libs bound (by simp [grown]) discarded

theorem reloadFrom_refuses {seam : Seam ς} (native : ShardOps ν ς) {k : Kernel ν ς}
    {name newPath : ByteString} (unreached : ¬ ∃ st : Stage ς, st.Reached seam k name newPath) :
    wp (reloadFrom seam native name newPath) k (Refuses k) := by
  unfold reloadFrom
  rw [wp_bind, wp_get, andThen_ok]
  cases loaded : find k name with
  | none => exact ⟨_, rfl, rfl, rfl, rfl, rfl, [], by simp, by simp, by simp, by simp⟩
  | some rec =>
      simp only [wp_bind, wp_attempt, wp_onBus]
      apply wp_mono (snapshotBytes_spec seam native rec.id k.world)
      rintro (e | snapshot) w snap
      · exact snap.refuses [] rfl rfl rfl rfl (by simp) ⟨by simp, by simp, by simp⟩
      · simp only [andThen_ok, wp_bind, wp_onSeam, SeamM.libOpen, wp_perform]
        generalize opened : seam.libOpen newPath w.env.memory = result
        obtain ⟨answer, afterOpen⟩ := result
        cases answer with
        | error error =>
            exact snap.refuses [.libOpen newPath none] rfl rfl rfl rfl rfl ⟨by simp, by simp, by simp⟩
        | ok newLib =>
            simp only [wp_bind, wp_onSeam]
            generalize exported : seam.shardAbi newLib afterOpen = result
            obtain ⟨symbol, afterAbi⟩ := result
            refine wp_fetchAbi exported ?_ ?_
            · intro _ error
              simp only [andThen_ok, wp_bind, wp_onSeam, SeamM.libClose, wp_perform, wp_pure]
              exact snap.refuses [.libOpen newPath (some newLib), .shardAbi newLib, .libClose newLib] rfl rfl
                rfl rfl (by simp [Except.toOption]) ⟨by simp, by simp, by simp⟩
            · rintro newAbi rfl version
              simp only [andThen_ok, wp_bind, wp_onSeam, SeamM.create, wp_perform]
              generalize created : seam.create newAbi afterAbi = result
              obtain ⟨inst, afterCreate⟩ := result
              cases inst with
              | none =>
                  simp only [andThen_ok, wp_bind, wp_onSeam, SeamM.libClose, wp_perform, wp_pure]
                  exact snap.refuses [.libOpen newPath (some newLib), .shardAbi newLib, .create newAbi none,
                    .libClose newLib] rfl rfl rfl rfl (by simp [Except.toOption])
                    ⟨by simp, by simp, by simp⟩
              | some newInst =>
                  refine replace_refuses native newPath snap rfl rfl rfl rfl (by simp [Except.toOption]) ?_
                  intro manifest mf registry adapter afterDescribe described rebuilt adapts
                  by_contra compatible
                  obtain ⟨taken, conforms⟩ := snap.taken snapshot adapter rfl adapts
                  exact unreached ⟨⟨rec, adapter, snapshot, newLib, newAbi, newInst, manifest, mf, registry,
                    w.env.memory, afterOpen, afterAbi, afterCreate, afterDescribe⟩, loaded, adapts, taken,
                    conforms, opened, exported, version, created, described, rebuilt,
                    Bool.eq_true_of_not_eq_false compatible⟩

/-! ## Both ends of a reload -/

inductive ReloadEnded (seam : Seam ς) (k : Kernel ν ς) (name newPath : ByteString)
    (r : Except Exn ReloadResult) (k' : Kernel ν ς) : Prop where
  | committed (st : Stage ς) (rec : ShardRecord (Shard ν)) (state : Value)
      (reached : st.Reached seam k name newPath) (found : k.world.sb.find st.loaded.id = some rec)
      (shard : rec.shard = .library st.adapter)
      (accepted : admitUnverified (parse st.snapshot) st.adapter.stateSchema .firstError = .accept state)
      (h : Committed st seam state (st.staged k newPath) r k')
  | refused (h : Refuses k r k')

theorem reloadFrom_spec (seam : Seam ς) (native : ShardOps ν ς) {k : Kernel ν ς} (ok : AdaptersOk k.world.sb)
    (name newPath : ByteString) :
    wp (reloadFrom seam native name newPath) k (ReloadEnded seam k name newPath) := by
  by_cases reached : ∃ st : Stage ς, st.Reached seam k name newPath
  · obtain ⟨st, reached⟩ := reached
    obtain ⟨rec, found, shard⟩ := adapterOf_eq_some.mp reached.adapter
    obtain ⟨state, accepted⟩ := Proof.ok_accepts reached.conforms
    apply wp_mono (reloadFrom_commits native ok reached accepted)
    intro r k' committed
    exact .committed st rec state reached found shard accepted committed
  · apply wp_mono (reloadFrom_refuses native reached)
    intro r k' refused
    exact .refused refused

end Zen.Kernel
