import Zen.Proof.Switchboard.Fifo

/-!
# Kill, reload and swap

What a Shard is revived from has passed the gate at the schema of its state, whichever of the two
ways it comes back. A swap is not a reload: it knows neither the budget nor the last known good.
-/

namespace Zen.Sb
open Lib BusM

variable {σ ω α : Type}

/-! ## What a step revives -/

inductive Revival (m m' : Machine σ ω) : Prop where
  | none (same : m'.world.log.revived = m.world.log.revived)
  | one (k : ShardId) (rec : ShardRecord σ) (state : Value) (found : m.world.sb.find k = some rec)
      (called : m'.world.log.revived = m.world.log.revived ++ [(rec.id, rec.stateSchema, state)])
      (good : Accepted rec.stateSchema state ∨ state = rec.lastKnownGood)

theorem reloaded_revival {m : Machine σ ω} {w : World σ ω} {r : Except Exn ReviveOutcome} {id : ShardId}
    {bytes : ByteString} (h : Reloaded id bytes m.world r w) : Revival m { m with world := w } := by
  obtain ⟨_, unrevived | ⟨rec, state, f, source, revived⟩⟩ := h
  · exact .none unrevived.revived
  · exact .one id rec state revived.found revived.called (source.imp_left accepted_of_bytes)

theorem kill_revived (w : World σ ω) (id : ShardId) : (w.kill id).log.revived = w.log.revived := by
  unfold World.kill
  cases w.sb.find id <;> rfl

theorem Turned.revived {m m' : Machine σ ω} {frames : List Frame} (h : Turned m frames m') :
    m'.world.log.revived = m.world.log.revived := by
  cases h with
  | ended => rfl
  | refused e queue w front turn => exact turn.revived
  | called e queue trusted w front turn => exact turn.revived

theorem step_revival {ops : ShardOps σ ω} {input : Input σ ω} {m m' : Machine σ ω}
    (action : Machine.step ops input m = some m') : Revival m m' := by
  cases step_acted action with
  | registered grant id w h state | unregistrable grant e w h state =>
      subst state
      exact .none h.2.1
  | reloaded id bytes r w h state =>
      subst state
      exact reloaded_revival h
  | killed id state =>
      subst state
      exact .none (kill_revived m.world id)
  | turned frames top h => exact .none h.revived
  | unregistered id state | enqueued es origin numbers stamped state | aside stop env state
  | began idle state | returned e trusted frames top state =>
      subst state
      exact .none rfl
  | threw throws e h =>
      rw [h.state]
      exact .none rfl

/-! ## Every revival of a run -/

/-- The schema the value was checked against is still the one of the record, if there is one. -/
structure RevivedOk (m : Machine σ ω) (entry : ShardId × Schema × Value) : Prop where
  accepted : Accepted entry.2.1 entry.2.2
  known : entry.1 < m.world.sb.nextShardId
  schema : ∀ rec, m.world.sb.find entry.1 = some rec → rec.stateSchema = entry.2.1

theorem RevivedOk.reshaped {m m' : Machine σ ω} {entry : ShardId × Schema × Value} (h : RevivedOk m entry)
    {joining : Option σ} (ok : RecordsOk m) (reshaped : Reshaped joining m m') : RevivedOk m' entry := by
  refine ⟨h.accepted, ?_, ?_⟩
  · rcases reshaped.ids with ids | ⟨next, _⟩
    · rw [ids.nextShardId]
      exact h.known
    · rw [next]
      exact Nat.lt_succ_of_lt h.known
  · intro rec' found
    rcases reshaped.origin ok.below found with ⟨rec, old, kept, _⟩ | ⟨new, _⟩
    · rw [kept.stateSchema]
      exact h.schema rec old
    · exact absurd new (Nat.ne_of_lt h.known)

theorem revivedOk_of_found {m : Machine σ ω} (ok : RecordsOk m) {k : ShardId} {rec : ShardRecord σ}
    {state : Value} (found : m.world.sb.find k = some rec)
    (good : Accepted rec.stateSchema state ∨ state = rec.lastKnownGood) :
    RevivedOk m (rec.id, rec.stateSchema, state) := by
  have key := ok.keyed k rec found
  subst key
  refine ⟨?_, ok.below _ rec found, ?_⟩
  · rcases good with accepted | rfl
    · exact accepted
    · exact ok.good _ rec found
  · intro rec' found'
    rw [found] at found'
    cases found'
    rfl

theorem revivals_ok {ops : ShardOps σ ω} {env : ω} {inputs : List (Input σ ω)} {m : Machine σ ω}
    (run : Reaches ops (.start env) inputs m) : ∀ entry ∈ m.world.log.revived, RevivedOk m entry := by
  refine (run.invariant (I := fun m => RecordsOk m ∧ ∀ entry ∈ m.world.log.revived, RevivedOk m entry)
    ?_ ⟨RecordsOk.start env, ?_⟩).2
  · rintro input m m' ⟨ok, revivals⟩ action
    have reshaped := step_reshaped action
    refine ⟨reshaped.ok ok, ?_⟩
    intro entry he
    cases step_revival action with
    | none same => exact (revivals entry (same ▸ he)).reshaped ok reshaped
    | one k rec state found called good =>
        rw [called] at he
        rcases List.mem_append.mp he with old | new
        · exact (revivals entry old).reshaped ok reshaped
        · rw [List.mem_singleton.mp new]
          exact (revivedOk_of_found ok found good).reshaped ok reshaped
  · intro entry he
    cases he

/-! ## A swap reads no budget -/

def World.withUsed (w : World σ ω) (k : ShardId) (used : Nat) : World σ ω :=
  { w with sb := { w.sb with shards := w.sb.shards.update k fun rec => { rec with reloadsUsed := used } } }

def onState (f : World σ ω → World σ ω) :
    EStateM.Result Exn (World σ ω) α → EStateM.Result Exn (World σ ω) α
  | .ok a w => .ok a (f w)
  | .error e w => .error e (f w)

theorem find_withUsed (w : World σ ω) (k : ShardId) (used : Nat) (id : ShardId) :
    (w.withUsed k used).sb.find id = if id = k then
      (w.sb.find id).map fun rec => { rec with reloadsUsed := used } else w.sb.find id :=
  OrdMap.find_update _ _ _ _

theorem callback_run (call : EStateM Exn ω α) (w : World σ ω) : (callback call).run w =
    match call.run w.env with
    | .ok a env => .ok a { w with env }
    | .error e env => .error e { w with env } := rfl

-- how a swap ends once the candidate has passed the gate
def swapRevive (ops : ShardOps σ ω) (id : ShardId) (rec : ShardRecord σ) (state : Value) :
    BusM σ ω ReviveOutcome := do
  revive ops rec state
  updateRecord id fun r => { r with lastKnownGood := state, alive := true }
  modify fun w => w.emit (World.stateEvent rec id .revived)
  return { revived := true }

theorem swapRevive_withUsed (ops : ShardOps σ ω) (id : ShardId) {rec rec' : ShardRecord σ} (state : Value)
    (same : Kept rec rec') (w : World σ ω) (k : ShardId) (used : Nat) :
    (swapRevive ops id rec' state).run (w.withUsed k used) =
      onState (fun w => w.withUsed k used) ((swapRevive ops id rec state).run w) := by
  have event : World.stateEvent rec' id .revived = World.stateEvent rec id .revived := by
    rw [World.stateEvent, same.stateSchema]
    rfl
  have env : (w.withUsed k used).env = w.env := rfl
  simp only [swapRevive, revive, updateRecord, EStateM.run_bind, EStateM.run_modify, EStateM.run_pure,
    callback_run, same.id, same.shard, same.stateSchema, event, env]
  cases (ops.revive rec.shard state).run w.env with
  | error e env => rfl
  | ok _ env =>
      simp only [onState, World.withUsed, World.emit]
      rw [OrdMap.update_comm]
      exact fun _ => rfl

theorem swapState_withUsed (ops : ShardOps σ ω) (id : ShardId) (candidateBytes : ByteString)
    (w : World σ ω) (k : ShardId) (used : Nat) :
    (swapState ops id candidateBytes).run (w.withUsed k used) =
      onState (fun w => w.withUsed k used) ((swapState ops id candidateBytes).run w) := by
  unfold swapState
  rw [EStateM.run_bind, EStateM.run_bind]
  simp only [EStateM.run_get]
  cases found : w.sb.find id with
  | none =>
      have absent : (w.withUsed k used).sb.find id = none := by
        simp [find_withUsed, found]
      rw [absent]
      rfl
  | some rec =>
      obtain ⟨rec', found', same⟩ : ∃ rec', (w.withUsed k used).sb.find id = some rec' ∧ Kept rec rec' := by
        rw [find_withUsed, found]
        split
        · exact ⟨_, rfl, rfl, rfl, rfl, rfl, rfl⟩
        · exact ⟨_, rfl, rfl, rfl, rfl, rfl, rfl⟩
      rw [found']
      simp only [same.stateSchema]
      cases admitUnverified (parse candidateBytes) rec.stateSchema .firstError with
      | reject errors =>
          have event : ∀ kind, World.stateEvent rec' id kind = World.stateEvent rec id kind := by
            intro kind
            rw [World.stateEvent, same.stateSchema]
            rfl
          simp only [event]
          rfl
      | accept state => exact swapRevive_withUsed ops id state same w k used

structure SwapSound (id : ShardId) (candidateBytes : ByteString) (w w' : World σ ω) : Prop where
  used : ∀ k, (w'.sb.find k).map ShardRecord.reloadsUsed = (w.sb.find k).map ShardRecord.reloadsUsed
  revived : w'.log.revived = w.log.revived ∨ ∃ rec state, w.sb.find id = some rec ∧
    w'.log.revived = w.log.revived ++ [(rec.id, rec.stateSchema, state)] ∧
    admitUnverified (parse candidateBytes) rec.stateSchema .firstError = .accept state

theorem Swapped.sound {id : ShardId} {candidateBytes : ByteString} {w w' : World σ ω}
    {r : Except Exn ReviveOutcome} (h : Swapped id candidateBytes w r w') :
    SwapSound id candidateBytes w w' := by
  obtain ⟨_, unrevived | ⟨rec, state, accepted, revived⟩⟩ := h
  · exact ⟨fun k => by rw [unrevived.bus], Or.inl unrevived.revived⟩
  · refine ⟨?_, Or.inr ⟨rec, state, revived.found, revived.called, accepted⟩⟩
    intro k
    have bus := revived.bus
    cases r with
    | error e => rw [bus]
    | ok out =>
        rw [bus.2, Switchboard.find, Switchboard.find, OrdMap.find_update]
        split
        · rw [Option.map_map]
          rfl
        · rfl

/-! ## Soundness of the life cycle -/

/-- What holds of an operation that answers `revived = false`. -/
def Unchanged (x : BusM σ ω ReviveOutcome) (w : World σ ω) : Prop :=
  ∀ out w', x.run w = .ok out w' → out.revived = false → w'.log.revived = w.log.revived ∧ w'.sb = w.sb

theorem RevivedWith.answers {id : ShardId} {state : Value} {rec : ShardRecord σ}
    {f : ShardRecord σ → ShardRecord σ} {w w' : World σ ω} {out : ReviveOutcome}
    (h : RevivedWith id state rec f w (.ok out) w') : out.revived = true :=
  h.bus.1

theorem reload_unchanged (ops : ShardOps σ ω) (id : ShardId) (candidateBytes : ByteString)
    (w : World σ ω) : Unchanged (reload ops id candidateBytes) w := by
  intro out w' run refused
  obtain ⟨_, unrevived | ⟨rec, state, f, _, revived⟩⟩ := wp_ok (reload_spec ops id candidateBytes w) run
  · exact ⟨unrevived.revived, unrevived.bus⟩
  · rw [revived.answers] at refused
    cases refused

theorem swapState_unchanged (ops : ShardOps σ ω) (id : ShardId) (candidateBytes : ByteString)
    (w : World σ ω) : Unchanged (swapState ops id candidateBytes) w := by
  intro out w' run refused
  obtain ⟨_, unrevived | ⟨rec, state, _, revived⟩⟩ := wp_ok (swapState_spec ops id candidateBytes w) run
  · exact ⟨unrevived.revived, unrevived.bus⟩
  · rw [revived.answers] at refused
    cases refused

theorem lifecycle_sound {ops : ShardOps σ ω} {env : ω} {inputs : List (Input σ ω)} {m : Machine σ ω}
    (run : Reaches ops (.start env) inputs m) :
    (∀ k rec, m.world.sb.find k = some rec → Accepted rec.stateSchema rec.lastKnownGood) ∧
    (∀ entry ∈ m.world.log.revived, RevivedOk m entry) ∧
    ∀ id candidateBytes,
      wp (swapState ops id candidateBytes) m.world (fun _ w' => SwapSound id candidateBytes m.world w') ∧
      (∀ k used, (swapState ops id candidateBytes).run (m.world.withUsed k used) =
        onState (fun w => w.withUsed k used) ((swapState ops id candidateBytes).run m.world)) ∧
      Unchanged (reload ops id candidateBytes) m.world ∧
      Unchanged (swapState ops id candidateBytes) m.world := by
  refine ⟨(records_ok run).good, revivals_ok run, ?_⟩
  intro id candidateBytes
  refine ⟨?_, swapState_withUsed ops id candidateBytes m.world, reload_unchanged ops id candidateBytes m.world,
    swapState_unchanged ops id candidateBytes m.world⟩
  exact wp_mono (swapState_spec ops id candidateBytes m.world) fun _ _ swapped => swapped.sound

-- killed, brought back as its last known good, then swapped to 5
def pingLife : List (Input Unit Unit) :=
  [.registerShard (some ()) {}, .kill 1, .reload 1 (ascii "no state"),
    .reload 1 (Proof.Schema.header Ping ++ [1, 8]), .swapState 1 (Proof.Schema.header Ping ++ [1, 10])]

theorem lifecycle_sound_ping : ∃ m, Reaches pingOps (.start ()) pingLife m ∧
    m.world.log.revived.map Prod.fst = [1, 1] ∧
    (∀ entry ∈ m.world.log.revived, Accepted entry.2.1 entry.2.2) ∧
    (m.world.sb.find 1).map ShardRecord.reloadsUsed = some 1 := by
  have evaluated : (exec (Machine.step pingOps) pingLife (.start ())).map (fun m =>
      (m.world.log.revived.map Prod.fst, (m.world.sb.find 1).map ShardRecord.reloadsUsed)) =
        some ([1, 1], some 1) := by
    decide +kernel
  obtain ⟨m, reached, seen⟩ := Option.map_eq_some_iff.mp evaluated
  simp only [Prod.mk.injEq] at seen
  have run := Run.of_exec reached
  exact ⟨m, run, seen.1, fun entry he => ((lifecycle_sound run).2.1 entry he).accepted, seen.2⟩

end Zen.Sb
