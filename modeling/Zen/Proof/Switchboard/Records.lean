import Zen.Proof.Switchboard.Refinement

/-!
# The records of the bus

An input adds a record under a fresh id, removes one, changes one record's life, or leaves the
records alone. From that: keys and ids agree, ids are never used twice, each record keeps the grant
of its registration, and what a Shard is revived from has passed the gate.
-/

namespace Zen.Sb
open Lib BusM

variable {σ ω : Type}

def Accepted (door : Schema) (v : Value) : Prop := (admitLive v door .firstError).ok

theorem accepted_of_live {door : Schema} {v : Value} (h : admitLive v door .firstError = .accept v) :
    Accepted door v := by
  rw [Accepted, h]
  rfl

theorem accepted_of_bytes {door : Schema} {bytes : ByteString} {v : Value} {report : Report}
    (h : admitUnverified (parse bytes) door report = .accept v) : Accepted door v := by
  obtain ⟨_, _, _, _, _, valid⟩ := Proof.admit_parse_accept.mp h
  exact Proof.admitLive_ok.mpr (Raw.validateInto_eq_nil.mp valid)

structure SameIds (m m' : Machine σ ω) : Prop where
  nextShardId : m'.world.sb.nextShardId = m.world.sb.nextShardId
  registered : m'.registered = m.registered

inductive Reshaped (joining : Option σ) (m m' : Machine σ ω) : Prop where
  | same (shards : m'.world.sb.shards = m.world.sb.shards) (ids : SameIds m m')
  | updated (id : ShardId) (f : ShardRecord σ → ShardRecord σ)
      (shards : m'.world.sb.shards = m.world.sb.shards.update id f) (ids : SameIds m m')
      (kept : ∀ rec, Kept rec (f rec)) (spent : ∀ rec, rec.reloadsUsed ≤ (f rec).reloadsUsed)
      (saved : ∀ rec, m.world.sb.find id = some rec →
        (f rec).lastKnownGood = rec.lastKnownGood ∨ Accepted rec.stateSchema (f rec).lastKnownGood)
  | removed (id : ShardId) (shards : m'.world.sb.shards = m.world.sb.shards.erase id) (ids : SameIds m m')
  | added (rec : ShardRecord σ) (grant : Grant)
      (shards : m'.world.sb.shards = m.world.sb.shards.emplace m.world.sb.nextShardId rec)
      (nextShardId : m'.world.sb.nextShardId = m.world.sb.nextShardId + 1)
      (registered : m'.registered = m.registered ++ [(m.world.sb.nextShardId, grant)])
      (id : rec.id = m.world.sb.nextShardId) (grants : rec.grant = grant)
      (seeded : Accepted rec.stateSchema rec.lastKnownGood) (joins : joining = some rec.shard)

variable {joining : Option σ}

theorem revival_reshaped {m : Machine σ ω} {w : World σ ω} {r : Except Exn ReviveOutcome} {id : ShardId}
    {state : Value} {rec : ShardRecord σ} {f : ShardRecord σ → ShardRecord σ}
    (h : RevivedWith id state rec f m.world r w)
    (good : Accepted rec.stateSchema state ∨ state = rec.lastKnownGood) :
    Reshaped joining m { m with world := w } := by
  cases r with
  | error e => exact .same (congrArg Switchboard.shards h.bus) ⟨congrArg Switchboard.nextShardId h.bus, rfl⟩
  | ok out =>
      have shards : w.sb.shards = m.world.sb.shards.update id f := by rw [h.bus.2]
      have nextShardId : w.sb.nextShardId = m.world.sb.nextShardId := by rw [h.bus.2]
      refine .updated id f shards ⟨nextShardId, rfl⟩ h.kept h.spent ?_
      intro rec' found
      rw [h.found] at found
      cases found
      rw [h.saved]
      exact good.symm

theorem unrevived_reshaped {m : Machine σ ω} {w : World σ ω} {r : Except Exn ReviveOutcome}
    (h : Unrevived m.world r w) : Reshaped joining m { m with world := w } :=
  .same (congrArg Switchboard.shards h.bus) ⟨congrArg Switchboard.nextShardId h.bus, rfl⟩

theorem reloaded_reshaped {m : Machine σ ω} {w : World σ ω} {r : Except Exn ReviveOutcome} {id : ShardId}
    {bytes : ByteString} (h : Reloaded id bytes m.world r w) : Reshaped joining m { m with world := w } := by
  obtain ⟨_, unrevived | ⟨rec, state, f, source, revived⟩⟩ := h
  · exact unrevived_reshaped unrevived
  · refine revival_reshaped revived ?_
    rcases source with accepted | lastGood
    · exact Or.inl (accepted_of_bytes accepted)
    · exact Or.inr lastGood

theorem registered_reshaped {ops : ShardOps σ ω} {m : Machine σ ω} {w : World σ ω} {incoming : Option σ}
    {grant : Grant} {id : ShardId} (h : Registered ops m.world incoming grant (.ok id) w) :
    Reshaped incoming m { m with world := w, registered := m.registered ++ [(id, grant)] } := by
  obtain ⟨_, _, rfl, nextShardId, rec, shards, fresh⟩ := h
  exact .added rec grant shards nextShardId rfl fresh.id fresh.grant (accepted_of_live fresh.seeded) fresh.shard

theorem kill_reshaped (m : Machine σ ω) (id : ShardId) :
    Reshaped joining m { m with world := m.world.kill id } := by
  unfold World.kill
  cases m.world.sb.find id with
  | none => exact .same rfl ⟨rfl, rfl⟩
  | some rec =>
      exact .updated id (fun rec => { rec with alive := false }) rfl ⟨rfl, rfl⟩
        (fun _ => ⟨rfl, rfl, rfl, rfl, rfl⟩) (fun _ => Nat.le_refl _) (fun _ _ => Or.inl rfl)

theorem unregister_reshaped (m : Machine σ ω) (id : ShardId) :
    Reshaped joining m (m.withBus (m.world.sb.unregisterShard id).1) := by
  unfold Switchboard.unregisterShard
  cases m.world.sb.find id with
  | none => exact .same rfl ⟨rfl, rfl⟩
  | some rec => exact .removed id rfl ⟨rfl, rfl⟩

theorem Turned.reshaped {m m' : Machine σ ω} {frames : List Frame} (h : Turned m frames m') :
    Reshaped joining m m' := by
  cases h with
  | ended => exact .same rfl ⟨rfl, rfl⟩
  | refused e queue w front turn => exact .same turn.shards.1 ⟨turn.shards.2, rfl⟩
  | called e queue trusted w front turn => exact .same turn.shards.1 ⟨turn.shards.2, rfl⟩

-- an input registers the Shard that it brings, or adds no record
theorem step_joined {ops : ShardOps σ ω} {input : Input σ ω} {m m' : Machine σ ω}
    (action : Machine.step ops input m = some m') :
    (∃ grant id w, Registered ops m.world input.joining grant (.ok id) w ∧
      m' = { m with world := w, registered := m.registered ++ [(id, grant)] }) ∨
    ∀ joining, Reshaped joining m m' := by
  cases step_acted action with
  | registered grant id w h state => exact Or.inl ⟨grant, id, w, h, state⟩
  | unregistrable grant e w h state =>
      subst state
      exact Or.inr fun joining => .same h.2.2.1 ⟨h.2.2.2, rfl⟩
  | unregistered id state =>
      subst state
      exact Or.inr fun joining => unregister_reshaped m id
  | killed id state =>
      subst state
      exact Or.inr fun joining => kill_reshaped m id
  | reloaded id bytes r w h state =>
      subst state
      exact Or.inr fun joining => reloaded_reshaped h
  | turned frames top h => exact Or.inr fun joining => h.reshaped
  | enqueued es origin numbers stamped state | aside stop env state | began idle state
  | returned e trusted frames top state =>
      subst state
      exact Or.inr fun joining => .same rfl ⟨rfl, rfl⟩
  | threw throws e h =>
      rw [h.state]
      exact Or.inr fun joining => .same rfl ⟨rfl, rfl⟩

theorem step_reshaped {ops : ShardOps σ ω} {input : Input σ ω} {m m' : Machine σ ω}
    (action : Machine.step ops input m = some m') : Reshaped input.joining m m' := by
  rcases step_joined action with ⟨grant, id, w, h, state⟩ | reshaped
  · subst state
    exact registered_reshaped h
  · exact reshaped input.joining

/-! ## The invariant -/

def Switchboard.Below (sb : Switchboard σ) : Prop := ∀ k rec, sb.find k = some rec → k < sb.nextShardId

theorem Switchboard.Below.fresh {sb : Switchboard σ} (below : sb.Below) :
    ∀ entry ∈ sb.shards.entries, entry.1 < sb.nextShardId :=
  fun entry h => below entry.1 entry.2 (OrdMap.find_eq_some.mpr h)

theorem Switchboard.Below.find_added {sb sb' : Switchboard σ} {rec : ShardRecord σ} (below : sb.Below)
    (shards : sb'.shards = sb.shards.emplace sb.nextShardId rec) (k : ShardId) :
    sb'.find k = if k = sb.nextShardId then some rec else sb.find k := by
  rw [Switchboard.find, shards]
  exact OrdMap.find_emplace_last below.fresh rec k

structure RecordsOk (m : Machine σ ω) : Prop where
  keyed : ∀ k rec, m.world.sb.find k = some rec → rec.id = k
  below : m.world.sb.Below
  granted : ∀ k rec, m.world.sb.find k = some rec → (k, rec.grant) ∈ m.registered
  good : ∀ k rec, m.world.sb.find k = some rec → Accepted rec.stateSchema rec.lastKnownGood
  unique : (m.registered.map Prod.fst).Nodup
  used : ∀ entry ∈ m.registered, entry.1 < m.world.sb.nextShardId

theorem RecordsOk.start (env : ω) : RecordsOk (Machine.start env : Machine σ ω) where
  keyed := by intro k rec found; cases found
  below := by intro k rec found; cases found
  granted := by intro k rec found; cases found
  good := by intro k rec found; cases found
  unique := List.nodup_nil
  used := by intro entry h; cases h

/-- A record found after an input was there before it, or is the one just added. -/
theorem Reshaped.origin {m m' : Machine σ ω} (h : Reshaped joining m m') (below : m.world.sb.Below) {k : ShardId}
    {rec' : ShardRecord σ} (found : m'.world.sb.find k = some rec') :
    (∃ rec, m.world.sb.find k = some rec ∧ Kept rec rec' ∧ rec.reloadsUsed ≤ rec'.reloadsUsed ∧
      (rec'.lastKnownGood = rec.lastKnownGood ∨ Accepted rec.stateSchema rec'.lastKnownGood)) ∨
    k = m.world.sb.nextShardId ∧ rec'.id = k ∧
      m'.registered = m.registered ++ [(k, rec'.grant)] ∧
      Accepted rec'.stateSchema rec'.lastKnownGood ∧ joining = some rec'.shard := by
  have unchanged : ∀ rec : ShardRecord σ, Kept rec rec := fun _ => ⟨rfl, rfl, rfl, rfl, rfl⟩
  rw [Switchboard.find] at found
  cases h with
  | same shards ids =>
      rw [shards] at found
      exact Or.inl ⟨rec', found, unchanged rec', Nat.le_refl _, Or.inl rfl⟩
  | updated id f shards ids kept spent saved =>
      rw [shards, OrdMap.find_update] at found
      split at found
      · rename_i here
        subst here
        obtain ⟨rec, old, rfl⟩ := Option.map_eq_some_iff.mp found
        exact Or.inl ⟨rec, old, kept rec, spent rec, saved rec old⟩
      · exact Or.inl ⟨rec', found, unchanged rec', Nat.le_refl _, Or.inl rfl⟩
  | removed id shards ids =>
      rw [shards, OrdMap.find_erase] at found
      split at found
      · cases found
      · exact Or.inl ⟨rec', found, unchanged rec', Nat.le_refl _, Or.inl rfl⟩
  | added rec grant shards nextShardId registered id grants seeded joins =>
      rw [shards, OrdMap.find_emplace_last below.fresh] at found
      split at found
      · rename_i new
        subst new
        cases found
        exact Or.inr ⟨rfl, id, by rw [registered, grants], seeded, joins⟩
      · exact Or.inl ⟨rec', found, unchanged rec', Nat.le_refl _, Or.inl rfl⟩

theorem Reshaped.ids {m m' : Machine σ ω} (h : Reshaped joining m m') :
    SameIds m m' ∨ m'.world.sb.nextShardId = m.world.sb.nextShardId + 1 ∧
      ∃ grant, m'.registered = m.registered ++ [(m.world.sb.nextShardId, grant)] := by
  cases h with
  | same shards ids => exact Or.inl ids
  | updated id f shards ids kept spent saved => exact Or.inl ids
  | removed id shards ids => exact Or.inl ids
  | added rec grant shards nextShardId registered id grants seeded joins =>
      exact Or.inr ⟨nextShardId, grant, registered⟩

theorem Reshaped.registered_mono {m m' : Machine σ ω} (h : Reshaped joining m m') {entry : ShardId × Grant}
    (he : entry ∈ m.registered) : entry ∈ m'.registered := by
  rcases h.ids with ids | ⟨_, grant, registered⟩
  · rwa [ids.registered]
  · rw [registered]
    exact List.mem_append_left _ he

theorem Reshaped.ok {m m' : Machine σ ω} (h : Reshaped joining m m') (ok : RecordsOk m) : RecordsOk m' := by
  have grown : m.world.sb.nextShardId ≤ m'.world.sb.nextShardId := by
    rcases h.ids with ids | ⟨next, _⟩
    · exact Nat.le_of_eq ids.nextShardId.symm
    · rw [next]
      exact Nat.le_succ _
  constructor
  · intro k rec' found
    rcases h.origin ok.below found with ⟨rec, old, kept, _⟩ | ⟨_, id, _⟩
    · rw [kept.id, ok.keyed k rec old]
    · exact id
  · intro k rec' found
    rcases h.origin ok.below found with ⟨rec, old, _⟩ | ⟨new, _, registered, _⟩
    · exact Nat.lt_of_lt_of_le (ok.below k rec old) grown
    · rcases h.ids with ids | ⟨next, _⟩
      · have shorter := congrArg List.length (ids.registered.symm.trans registered)
        simp at shorter
      · rw [new, next]
        exact Nat.lt_succ_self _
  · intro k rec' found
    rcases h.origin ok.below found with ⟨rec, old, kept, _⟩ | ⟨_, _, registered, _⟩
    · rw [kept.grant]
      exact h.registered_mono (ok.granted k rec old)
    · rw [registered]
      exact List.mem_append_right _ (by simp)
  · intro k rec' found
    rcases h.origin ok.below found with ⟨rec, old, kept, _, same | accepted⟩ | ⟨_, _, _, seeded, _⟩
    · rw [kept.stateSchema, same]
      exact ok.good k rec old
    · rw [kept.stateSchema]
      exact accepted
    · exact seeded
  · rcases h.ids with ids | ⟨_, grant, registered⟩
    · rw [ids.registered]
      exact ok.unique
    · rw [registered, List.map_append, List.nodup_append]
      refine ⟨ok.unique, by simp, ?_⟩
      intro k hk k' hk'
      obtain ⟨entry, he, rfl⟩ := List.mem_map.mp hk
      have small := ok.used entry he
      simp only [List.map_cons, List.map_nil, List.mem_singleton] at hk'
      rw [hk']
      exact Nat.ne_of_lt small
  · intro entry he
    rcases h.ids with ids | ⟨next, grant, registered⟩
    · rw [ids.nextShardId]
      rw [ids.registered] at he
      exact ok.used entry he
    · rw [registered] at he
      rcases List.mem_append.mp he with he | he
      · rw [next]
        exact Nat.lt_succ_of_lt (ok.used entry he)
      · rw [List.mem_singleton.mp he, next]
        exact Nat.lt_succ_self _

theorem records_ok {ops : ShardOps σ ω} {env : ω} {inputs : List (Input σ ω)} {m : Machine σ ω}
    (run : Reaches ops (.start env) inputs m) : RecordsOk m :=
  run.invariant (fun _ _ _ ok action => (step_reshaped action).ok ok) (RecordsOk.start env)

theorem values_ascending {m : Machine σ ω} (ok : RecordsOk m) :
    (m.world.sb.shards.values.map ShardRecord.id).Pairwise (· < ·) := by
  have keys : m.world.sb.shards.values.map ShardRecord.id = m.world.sb.shards.entries.map Prod.fst := by
    rw [OrdMap.values, List.map_map]
    apply List.map_congr_left
    intro entry he
    exact ok.keyed entry.1 entry.2 (OrdMap.find_eq_some.mpr he)
  rw [keys]
  exact m.world.sb.shards.ascending

end Zen.Sb
