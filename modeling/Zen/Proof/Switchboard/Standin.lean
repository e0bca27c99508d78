import Mathlib.Data.Option.Basic
import Zen.Lib.Simulation
import Zen.Proof.Switchboard.Lifecycle
import Zen.Proof.Switchboard.Shown

/-!
# Shards that stand in for others

If the callbacks of two kinds of Shards cannot be told apart, neither can two buses that host the one
and the other: every input leads from two buses that show the same to two buses that show the same.
-/

namespace Zen.Sb
open Lib BusM

variable {σ σ' ω ω' α : Type}

/-- What is said of two kinds of Shards: `shard` relates the objects, `kept` what they keep, `state` is known of
the states that an object may be revived with, behind its door, and `doors` of what it says it accepts. -/
structure Likeness (σ σ' ω ω' : Type) where
  shard : σ → σ' → Prop
  kept : ω → ω' → Prop
  state : σ → (door : Schema) → Value → Prop
  doors : σ → (declared : List (Option Schema)) → Prop

structure Standin (ops : ShardOps σ ω) (ops' : ShardOps σ' ω') (L : Likeness σ σ' ω ω') : Prop where
  acceptedSchemas : ∀ {s s'}, L.shard s s' → Matches L.kept (fun declared declared' => declared = declared' ∧ L.doors s declared)
    (ops.acceptedSchemas s) (ops'.acceptedSchemas s')
  snapshot : ∀ {s s'}, L.shard s s' →
    Matches L.kept (fun v v' => v.Alike v' ∧ L.state s v.schema v) (ops.snapshot s) (ops'.snapshot s')
  policy : ∀ {s s'}, L.shard s s' → Matches L.kept Value.Alike (ops.policy s) (ops'.policy s')
  decoded : ∀ {s door v bytes state}, L.state s door v →
    admitUnverified (parse bytes) door .firstError = .accept state → L.state s door state
  revive : ∀ {s s' door v v'}, L.shard s s' → L.state s door v → v.Alike v' →
    Matches L.kept (fun _ _ => True) (ops.revive s v) (ops'.revive s' v')

-- the canonical owners of what is declared
def Owners (declared : List (Option Schema)) (accept : List Schema) : Prop :=
  declared.map (Option.map Schema.identity) = accept.map fun s => some s.identity

structure Behind (L : Likeness σ σ' ω ω') (rec : ShardRecord σ) (rec' : ShardRecord σ') : Prop where
  shard : L.shard rec.shard rec'.shard
  state : L.state rec.shard rec.stateSchema rec.lastKnownGood
  doors : ∃ declared, L.doors rec.shard declared ∧ Owners declared rec.accept

/-- The records behind one id. -/
structure Twins (L : Likeness σ σ' ω ω') (rec : ShardRecord σ) (rec' : ShardRecord σ') : Prop
    extends Behind L rec rec' where
  shown : rec.shown = rec'.shown

structure Stands (L : Likeness σ σ' ω ω') (w : World σ ω) (w' : World σ' ω') : Prop where
  shown : w.shown = w'.shown
  twins : ∀ {k rec rec'}, w.sb.find k = some rec → w'.sb.find k = some rec' → Behind L rec rec'
  env : L.kept w.env w'.env

variable {ops : ShardOps σ ω} {ops' : ShardOps σ' ω'} {L : Likeness σ σ' ω ω'} {w : World σ ω} {w' : World σ' ω'}

namespace Twins

variable {rec : ShardRecord σ} {rec' : ShardRecord σ'}

theorem id (h : Twins L rec rec') : rec.id = rec'.id := congrArg ShardRecord.id h.shown

theorem stateSchema (h : Twins L rec rec') : rec.stateSchema = rec'.stateSchema :=
  congrArg ShardRecord.stateSchema h.shown

theorem reloadsUsed (h : Twins L rec rec') : rec.reloadsUsed = rec'.reloadsUsed :=
  congrArg ShardRecord.reloadsUsed h.shown

theorem lastKnownGood (h : Twins L rec rec') : rec.lastKnownGood.Alike rec'.lastKnownGood :=
  congrArg ShardRecord.lastKnownGood h.shown

theorem stateEvent (h : Twins L rec rec') (id : ShardId) (kind : EventKind) :
    World.stateEvent rec id kind = World.stateEvent rec' id kind := by
  simp only [World.stateEvent, h.stateSchema]

end Twins

theorem Stands.find (h : Stands L w w') (id : ShardId) :
    Option.Rel (Twins L) (w.sb.find id) (w'.sb.find id) := by
  have shown : w.shown.sb.find id = w'.shown.sb.find id := by rw [h.shown]
  have maps : (w.sb.find id).map ShardRecord.shown = (w'.sb.find id).map ShardRecord.shown :=
    (find_shown w.sb id).symm.trans (shown.trans (find_shown w'.sb id))
  cases found : w.sb.find id with
  | none =>
      cases found' : w'.sb.find id with
      | none => exact .none
      | some rec' =>
          rw [found, found'] at maps
          cases maps
  | some rec =>
      cases found' : w'.sb.find id with
      | none =>
          rw [found, found'] at maps
          cases maps
      | some rec' =>
          rw [found, found'] at maps
          exact .some ⟨h.twins found found', Option.some.inj maps⟩

/-! ## Operations that call back -/

-- two buses that stand for each other, at their present records
structure Held (L : Likeness σ σ' ω ω') (sb : Switchboard σ) (sb' : Switchboard σ') (w : World σ ω) (w' : World σ' ω') : Prop where
  stands : Stands L w w'
  left : w.sb = sb
  right : w'.sb = sb'

theorem Stands.held (h : Stands L w w') : Held L w.sb w'.sb w w' := ⟨h, rfl, rfl⟩

theorem callback_held {β : Type} {A : α → β → Prop} {x : EStateM Exn ω α} {y : EStateM Exn ω' β}
    (alike : Matches L.kept A x y) (sb : Switchboard σ) (sb' : Switchboard σ') :
    Matches (Held L sb sb') A (callback x : BusM σ ω α) (callback y : BusM σ' ω' β) := by
  rintro w w' ⟨h, left, right⟩
  have step := alike w.env w'.env h.env
  rw [callback_run, callback_run]
  generalize x.run w.env = r at step
  generalize y.run w'.env = r' at step
  cases step with
  | ok same env => exact .ok same ⟨⟨h.shown, h.twins, env⟩, left, right⟩
  | error env => exact .error ⟨⟨h.shown, h.twins, env⟩, left, right⟩

theorem callback_stands {β : Type} {A : α → β → Prop} {x : EStateM Exn ω α} {y : EStateM Exn ω' β}
    (alike : Matches L.kept A x y) :
    Matches (Stands L) A (callback x : BusM σ ω α) (callback y : BusM σ' ω' β) :=
  fun w w' h => (callback_held alike w.sb w'.sb w w' h.held).mono fun _ _ held => held.stands

theorem registerSchema_stands (schema : Schema) :
    Matches (Stands L) (fun owner owner' => owner = owner' ∧ owner.identity = schema.identity)
      (BusM.registerSchema schema : BusM σ ω Schema) (BusM.registerSchema schema : BusM σ' ω' Schema) := by
  intro w w' h
  have registry : w.sb.registry = w'.sb.registry := congrArg (fun w : World Unit Unit => w.sb.registry) h.shown
  simp only [BusM.registerSchema, EStateM.run, registry]
  cases registered : w'.sb.registry.registerSchema schema with
  | ok result =>
      refine .ok ⟨rfl, Registry.registerSchema_identity registered⟩ ⟨?_, h.twins, h.env⟩
      exact congrArg (fun w : World Unit Unit => { w with sb := { w.sb with registry := result.1 } }) h.shown
  | error e => exact .error h

/-- The gate judges alike. -/
inductive Judged : Value → Value → Admission → Admission → Prop
  | accept {v v' : Value} : Judged v v' (.accept v) (.accept v')
  | reject {v v' : Value} (errors : List Error) : Judged v v' (.reject errors) (.reject errors)

theorem admitLive_judged {v v' : Value} (alike : v.Alike v') (door : Schema) (report : Report) :
    Judged v v' (admitLive v door report) (admitLive v' door report) := by
  have same : Raw.validateInto v.raw door.raw report.collectAll = Raw.validateInto v'.raw door.raw report.collectAll := by
    rw [← Raw.validateInto_canon v.raw, ← Raw.validateInto_canon v'.raw, alike.raw]
  unfold admitLive
  simp only [same]
  split
  · exact .accept
  · exact .reject _

theorem gate_held {v v' : Value} (alike : v.Alike v') (door : Schema) (sb : Switchboard σ) (sb' : Switchboard σ') :
    Matches (Held L sb sb') (Judged v v') (gate v door : BusM σ ω Admission)
      (gate v' door : BusM σ' ω' Admission) := by
  refine .bind (.modify ?_) fun _ _ _ => .pure (admitLive_judged alike door _)
  rintro w w' ⟨h, left, right⟩
  refine ⟨⟨?_, h.twins, h.env⟩, left, right⟩
  have gated : (v.canon, door) = (v'.canon, door) := by rw [show v.canon = v'.canon from alike]
  have shown := congrArg (fun w : World Unit Unit =>
    { w with log := { w.log with gated := w.log.gated ++ [(v.canon, door)] } }) h.shown
  simpa [World.shown, Log.canon, gated] using shown

theorem gate_stands {v v' : Value} (alike : v.Alike v') (door : Schema) : Matches (Stands L) (Judged v v')
    (gate v door : BusM σ ω Admission) (gate v' door : BusM σ' ω' Admission) :=
  fun w w' h => (gate_held alike door w.sb w'.sb w w' h.held).mono fun _ _ held => held.stands

theorem emit_stands (event : BusEvent) : Matches (Stands L) Eq
    (modify fun w => w.emit event : BusM σ ω PUnit) (modify fun w => w.emit event : BusM σ' ω' PUnit) := by
  refine .modify fun w w' h => ⟨?_, h.twins, h.env⟩
  rw [emit_shown, emit_shown, h.shown]

theorem registerAccept_stands (declared : List (Option Schema)) :
    Matches (Stands L) (fun accept accept' => accept = accept' ∧ Owners declared accept)
      (registerAccept declared : BusM σ ω (List Schema)) (registerAccept declared : BusM σ' ω' (List Schema)) := by
  induction declared with
  | nil => exact .pure ⟨rfl, rfl⟩
  | cons entry declared ih =>
      cases entry with
      | none => exact .throw _ _
      | some schema =>
          refine .bind (registerSchema_stands schema) fun owner owner' first => .bind ih fun owners owners' rest => ?_
          rw [← first.1, ← rest.1]
          refine .pure ⟨rfl, ?_⟩
          rw [Owners, List.map_cons, List.map_cons, rest.2, Option.map_some, first.2]

theorem updated_stands (h : Stands L w w') (id : ShardId) {f : ShardRecord σ → ShardRecord σ}
    {f' : ShardRecord σ' → ShardRecord σ'} {g : ShardRecord Unit → ShardRecord Unit}
    (shows : ∀ rec, (f rec).shown = g rec.shown) (shows' : ∀ rec, (f' rec).shown = g rec.shown)
    (keeps : ∀ {rec rec'}, w.sb.find id = some rec → w'.sb.find id = some rec' →
      Behind L (f rec) (f' rec')) :
    Stands L { w with sb := { w.sb with shards := w.sb.shards.update id f } }
      { w' with sb := { w'.sb with shards := w'.sb.shards.update id f' } } := by
  refine ⟨?_, ?_, h.env⟩
  · have shown := congrArg (fun w : World Unit Unit => { w with sb := { w.sb with shards := w.sb.shards.update id g } }) h.shown
    simpa [World.shown, Switchboard.shown, OrdMap.map_update shows, OrdMap.map_update shows'] using shown
  · intro k rec rec' found found'
    rw [Switchboard.find, OrdMap.find_update] at found found'
    split at found
    · rename_i here
      subst here
      rw [if_pos rfl] at found'
      obtain ⟨before, old, rfl⟩ := Option.map_eq_some_iff.mp found
      obtain ⟨before', old', rfl⟩ := Option.map_eq_some_iff.mp found'
      exact keeps old old'
    · rename_i other
      rw [if_neg other] at found'
      exact h.twins found found'

/-- What a revival does to a record: `f` saves `state`, or it keeps what is saved. -/
structure Renews (f : ShardRecord σ → ShardRecord σ) (f' : ShardRecord σ' → ShardRecord σ')
    (g : ShardRecord Unit → ShardRecord Unit) : Prop where
  shows : ∀ rec, (f rec).shown = g rec.shown
  shows' : ∀ rec, (f' rec).shown = g rec.shown
  shard : ∀ rec, (f rec).shard = rec.shard
  shard' : ∀ rec, (f' rec).shard = rec.shard
  door : ∀ rec, (f rec).stateSchema = rec.stateSchema
  accept : ∀ rec, (f rec).accept = rec.accept

theorem revive_held (standin : Standin ops ops' L) {rec : ShardRecord σ} {rec' : ShardRecord σ'}
    (twins : Twins L rec rec') {v v' : Value} (good : L.state rec.shard rec.stateSchema v) (alike : v.Alike v')
    (sb : Switchboard σ) (sb' : Switchboard σ') :
    Matches (Held L sb sb') (fun _ _ => True) (BusM.revive ops rec v) (BusM.revive ops' rec' v') := by
  refine .bind (.modify ?_) fun _ _ _ => callback_held (standin.revive twins.shard good alike) sb sb'
  rintro w w' ⟨h, left, right⟩
  refine ⟨⟨?_, h.twins, h.env⟩, left, right⟩
  have shown := congrArg (fun w : World Unit Unit =>
    { w with log := { w.log with revived := w.log.revived ++ [(rec.id, rec.stateSchema, v.canon)] } }) h.shown
  simpa [World.shown, Log.canon, twins.id, twins.stateSchema, show v.canon = v'.canon from alike] using shown

theorem revived_stands (standin : Standin ops ops' L) {id : ShardId} {rec : ShardRecord σ} {rec' : ShardRecord σ'}
    {sb : Switchboard σ} {sb' : Switchboard σ'} (found : sb.find id = some rec) (found' : sb'.find id = some rec')
    (twins : Twins L rec rec') {v v' : Value} (good : L.state rec.shard rec.stateSchema v) (alike : v.Alike v')
    {f : ShardRecord σ → ShardRecord σ} {f' : ShardRecord σ' → ShardRecord σ'}
    {g : ShardRecord Unit → ShardRecord Unit} (renews : Renews f f' g)
    (saves : L.state rec.shard rec.stateSchema (f rec).lastKnownGood) (event : BusEvent) (outcome : ReviveOutcome)
    (held : Held L sb sb' w w') :
    Matched (Stands L) Eq
      ((do BusM.revive ops rec v; updateRecord id f; modify fun w => w.emit event; return outcome :
        BusM σ ω ReviveOutcome).run w)
      ((do BusM.revive ops' rec' v'; updateRecord id f'; modify fun w => w.emit event; return outcome :
        BusM σ' ω' ReviveOutcome).run w') := by
  refine Matches.within (fun _ _ held => held.stands) held (revive_held standin twins good alike sb sb') ?_
  rintro _ _ - w w' ⟨h, rfl, rfl⟩
  refine (Matches.bind (emit_stands event) fun _ _ _ => .pure rfl) _ _ ?_
  refine updated_stands h id renews.shows renews.shows' ?_
  intro one one' here here'
  cases found.symm.trans here
  cases found'.symm.trans here'
  refine ⟨?_, ?_, ?_⟩
  · rw [renews.shard, renews.shard']
    exact twins.shard
  · rw [renews.shard, renews.door]
    exact saves
  · rw [renews.shard, renews.accept]
    exact twins.doors

theorem addRecord_stands {shard : σ} {shard' : σ'} (same : L.shard shard shard') {accept : List Schema}
    (doors : ∃ declared, L.doors shard declared ∧ Owners declared accept) {stateSchema : Schema}
    {v v' : Value} (good : L.state shard stateSchema v) (alike : v.Alike v') (grant : Grant) :
    Matches (Stands L) Eq (addRecord shard accept stateSchema v grant : BusM σ ω ShardId)
      (addRecord shard' accept stateSchema v' grant : BusM σ' ω' ShardId) := by
  refine .get fun w w' h => ?_
  have nextShardId : w.sb.nextShardId = w'.sb.nextShardId :=
    congrArg (fun w : World Unit Unit => w.sb.nextShardId) h.shown
  rw [nextShardId]
  generalize w'.sb.nextShardId = id
  refine (?_ : Matches (Stands L) Eq _ _) w w' h
  refine .bind (.modify fun w w' h => ⟨?_, ?_, h.env⟩) fun _ _ _ => .pure rfl
  · have shown := congrArg (fun w : World Unit Unit => { w with sb := { w.sb with
      nextShardId := id + 1
      shards := w.sb.shards.emplace id ⟨id, (), accept, stateSchema, v.canon, grant, 0, true⟩ } }) h.shown
    simpa [World.shown, Switchboard.shown, OrdMap.map_emplace, ShardRecord.shown,
      show v.canon = v'.canon from alike] using shown
  · intro k rec rec' found found'
    rw [Switchboard.find, OrdMap.find_emplace] at found found'
    split at found
    · rename_i here
      rw [if_pos here] at found'
      have twins := h.find id
      rw [Switchboard.find, Switchboard.find] at twins
      generalize w.sb.shards.find id = old at twins found
      generalize w'.sb.shards.find id = old' at twins found'
      cases found
      cases found'
      cases twins with
      | none => exact ⟨same, good, doors⟩
      | some twins => exact twins.toBehind
    · rename_i other
      rw [if_neg other] at found'
      exact h.twins found found'

theorem registerShard_stands (standin : Standin ops ops' L) {incoming : Option σ} {incoming' : Option σ'}
    (same : Option.Rel L.shard incoming incoming') (grant : Grant) :
    Matches (Stands L) Eq (registerShard ops incoming grant) (registerShard ops' incoming' grant) := by
  cases same with
  | none => exact .throw _ _
  | some same =>
      refine .bind (callback_stands (standin.acceptedSchemas same)) fun declared declared' told => ?_
      rw [← told.1]
      refine .bind (registerAccept_stands declared) fun accept accept' owned => ?_
      rw [← owned.1]
      refine .bind (callback_stands (standin.snapshot same)) fun snap snap' both => ?_
      obtain ⟨alike, good⟩ := both
      rw [← alike.schema]
      refine .bind (registerSchema_stands _) fun _ _ _ => .bind (gate_stands alike _) fun verdict verdict' judged => ?_
      cases judged with
      | reject errors => exact .throw _ _
      | accept => exact addRecord_stands same ⟨declared, told.2, owned.2⟩ good alike grant

theorem snapshotBytes_stands (standin : Standin ops ops' L) (id : ShardId) :
    Matches (Stands L) Eq (snapshotBytes ops id) (snapshotBytes ops' id) := by
  refine .get fun w w' h => ?_
  have both := h.find id
  generalize w.sb.find id = found at both
  generalize w'.sb.find id = found' at both
  cases both with
  | none => exact .error h
  | some twins =>
      refine Matches.bind (callback_stands (standin.snapshot twins.shard)) (fun v v' both => ?_) w w' h
      rw [Proof.serialize_canon both.1.raw]
      cases serialize v' with
      | ok bytes => exact .pure rfl
      | error e => exact .throw e e

theorem maxReloads_canon (policy : Value) : maxReloads policy.canon = maxReloads policy := by
  unfold maxReloads
  rw [Value.get_canon]
  cases policy.get "max_reloads" with
  | none => rfl
  | some c => cases c <;> rfl

theorem reviveFromLastGood_canon (policy : Value) : reviveFromLastGood policy.canon = reviveFromLastGood policy := by
  unfold reviveFromLastGood
  rw [Value.get_canon]
  cases policy.get "revive_from_last_good" with
  | none => rfl
  | some c => cases c <;> rfl

theorem maxReloads_alike {policy policy' : Value} (alike : policy.Alike policy') :
    maxReloads policy = maxReloads policy' := by
  rw [← maxReloads_canon, ← maxReloads_canon policy', show policy.canon = policy'.canon from alike]

theorem reviveFromLastGood_alike {policy policy' : Value} (alike : policy.Alike policy') :
    reviveFromLastGood policy = reviveFromLastGood policy' := by
  rw [← reviveFromLastGood_canon, ← reviveFromLastGood_canon policy', show policy.canon = policy'.canon from alike]

theorem saves_renews (spent : Nat) (state : Value) : Renews
    (fun r : ShardRecord σ => { r with lastKnownGood := state, reloadsUsed := r.reloadsUsed + spent, alive := true })
    (fun r : ShardRecord σ' => { r with lastKnownGood := state, reloadsUsed := r.reloadsUsed + spent, alive := true })
    (fun r => { r with lastKnownGood := state.canon, reloadsUsed := r.reloadsUsed + spent, alive := true }) :=
  ⟨fun _ => rfl, fun _ => rfl, fun _ => rfl, fun _ => rfl, fun _ => rfl, fun _ => rfl⟩

theorem keeps_renews : Renews
    (fun r : ShardRecord σ => { r with reloadsUsed := r.reloadsUsed + 1, alive := true })
    (fun r : ShardRecord σ' => { r with reloadsUsed := r.reloadsUsed + 1, alive := true })
    (fun r => { r with reloadsUsed := r.reloadsUsed + 1, alive := true }) :=
  ⟨fun _ => rfl, fun _ => rfl, fun _ => rfl, fun _ => rfl, fun _ => rfl, fun _ => rfl⟩

theorem refused_stands (event : BusEvent) (outcome : ReviveOutcome) : Matches (Stands L) Eq
    (do modify fun w => w.emit event; return outcome : BusM σ ω ReviveOutcome)
    (do modify fun w => w.emit event; return outcome : BusM σ' ω' ReviveOutcome) :=
  .bind (emit_stands event) fun _ _ _ => .pure rfl

theorem reload_stands (standin : Standin ops ops' L) (id : ShardId) (candidateBytes : ByteString) :
    Matches (Stands L) Eq (reload ops id candidateBytes) (reload ops' id candidateBytes) := by
  refine .get fun w w' h => ?_
  have both := h.find id
  cases found : w.sb.find id with
  | none =>
      rw [found] at both
      cases found' : w'.sb.find id with
      | none => exact .ok rfl h
      | some rec' =>
          rw [found'] at both
          cases both
  | some rec =>
      rw [found] at both
      cases found' : w'.sb.find id with
      | none =>
          rw [found'] at both
          cases both
      | some rec' =>
      rw [found'] at both
      cases both with
      | some twins =>
      refine Matches.within (fun _ _ held => held.stands) h.held (callback_held (standin.policy twins.shard) _ _) ?_
      intro policy policy' alike w₁ w₁' held₁
      refine Matches.within (fun _ _ held => held.stands) held₁ (gate_held alike _ _ _) ?_
      intro verdict verdict' judged w₂ w₂' held₂
      cases judged with
      | reject errors => exact .ok rfl held₂.stands
      | accept =>
          simp only [maxReloads_alike alike, reviveFromLastGood_alike alike, twins.reloadsUsed]
          split
          · exact .ok rfl held₂.stands
          · rw [← twins.stateSchema]
            cases admitted : admitUnverified (parse candidateBytes) rec.stateSchema .firstError with
            | accept state =>
                have good := standin.decoded twins.state admitted
                simp only [← twins.stateEvent]
                exact revived_stands standin found found' twins good rfl (saves_renews 1 state) good _ _ held₂
            | reject errors =>
                simp only [← twins.stateEvent]
                split
                · exact revived_stands standin found found' twins twins.state twins.lastKnownGood keeps_renews
                    twins.state _ _ held₂
                · exact refused_stands _ _ _ _ held₂.stands

theorem swapState_stands (standin : Standin ops ops' L) (id : ShardId) (candidateBytes : ByteString) :
    Matches (Stands L) Eq (swapState ops id candidateBytes) (swapState ops' id candidateBytes) := by
  refine .get fun w w' h => ?_
  have both := h.find id
  cases found : w.sb.find id with
  | none =>
      rw [found] at both
      cases found' : w'.sb.find id with
      | none => exact .ok rfl h
      | some rec' =>
          rw [found'] at both
          cases both
  | some rec =>
      rw [found] at both
      cases found' : w'.sb.find id with
      | none =>
          rw [found'] at both
          cases both
      | some rec' =>
      rw [found'] at both
      cases both with
      | some twins =>
      simp only [← twins.stateSchema, ← twins.stateEvent]
      cases admitted : admitUnverified (parse candidateBytes) rec.stateSchema .firstError with
      | reject errors => exact refused_stands _ _ _ _ h
      | accept state =>
          have good := standin.decoded twins.state admitted
          exact revived_stands standin found found' twins good rfl (saves_renews 0 state) good _ _ h.held

end Zen.Sb
