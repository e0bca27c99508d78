import Zen.Proof.Switchboard.Records

/-!
# What reaches the Shards

The bus calls a Shard when it is registered and when it is brought back, and only then may what the
Shards keep change. A Shard that is not brought back spends no reload and does not come to life.
-/

namespace Zen.Sb
open Lib BusM

variable {σ ω α : Type}

/-! ## What the Shards keep -/

/-- Every call on the Shard takes what the Shards keep along `R`. -/
structure Within (ops : ShardOps σ ω) (R : ω → ω → Prop) (shard : σ) : Prop where
  acceptedSchemas : ∀ env, wp (ops.acceptedSchemas shard) env fun _ env' => R env env'
  snapshot : ∀ env, wp (ops.snapshot shard) env fun _ env' => R env env'
  policy : ∀ env, wp (ops.policy shard) env fun _ env' => R env env'
  revive : ∀ state env, wp (ops.revive shard state) env fun _ env' => R env env'

-- the Shard that an input calls
def Input.touches (m : Machine σ ω) : Input σ ω → Option σ
  | .registerShard incoming _ => incoming
  | .reload id _ | .swapState id _ => (m.world.sb.find id).map ShardRecord.shard
  | _ => none

theorem deliverOne_env (w : World σ ω) (e : Envelope) : (w.deliverOne e).1.env = w.env := by
  unfold World.deliverOne
  split
  · rfl
  · split
    · rfl
    · split
      · rfl
      · split
        · rfl
        · simp only
          split <;> rfl

theorem turn_env (m : Machine σ ω) (frames : List Frame) : (m.turn frames).world.env = m.world.env := by
  unfold Machine.turn
  split
  · rfl
  · rename_i e queue front
    split
    · rfl
    · have same := deliverOne_env (m.popped e queue) e
      generalize (m.popped e queue).deliverOne e = result at same
      obtain ⟨w, trusted⟩ := result
      cases trusted with
      | none => exact same
      | some trusted => exact same

section
variable {ops : ShardOps σ ω} {R : ω → ω → Prop} (refl : ∀ env, R env env)
  (trans : ∀ env mid env', R env mid → R mid env' → R env env')
include refl trans

omit refl in
theorem callback_within {call : EStateM Exn ω α} {w : World σ ω} (before : ω) (first : R before w.env)
    (calls : ∀ env, wp call env fun _ env' => R env env') :
    wp (callback call) w fun _ w' => R before w'.env := by
  rw [wp_callback]
  exact wp_mono (calls w.env) fun _ env' later => trans _ _ _ first later

theorem registerShard_within {incoming : Option σ} (each : ∀ shard, incoming = some shard → Within ops R shard)
    (grant : Grant) (w : World σ ω) : wp (registerShard ops incoming grant) w fun _ w' => R w.env w'.env := by
  cases incoming with
  | none => exact refl _
  | some shard =>
      have within := each shard rfl
      rw [registerShard, wp_bind]
      apply wp_mono (callback_within trans w.env (refl w.env) within.acceptedSchemas)
      rintro (e | declared) w₁ first
      · exact first
      rw [andThen_ok, wp_bind]
      apply wp_mono (registerAccept_spec declared w₁)
      rintro (e | accept) _ ⟨⟨registry, rfl⟩, _⟩
      · exact first
      rw [andThen_ok, wp_bind]
      apply wp_mono (callback_within trans w.env (by exact first) within.snapshot)
      rintro (e | snap) w₂ second
      · exact second
      rw [andThen_ok, wp_bind]
      apply wp_mono (registerSchema_spec snap.schema w₂)
      rintro (e | owner) _ ⟨⟨registry', rfl⟩, _⟩
      · exact second
      rw [andThen_ok, wp_bind, wp_gate, andThen_ok]
      split
      · exact second
      · exact second

omit refl in
theorem revive_within {rec : ShardRecord σ} (within : Within ops R rec.shard) {state : Value} {w : World σ ω}
    {before : ω} (first : R before w.env) : wp (revive ops rec state) w fun _ w' => R before w'.env := by
  rw [wp_revive]
  exact wp_mono (within.revive state w.env) fun _ env' later => trans _ _ _ first later

theorem reload_within {id : ShardId} {w : World σ ω}
    (each : ∀ rec, w.sb.find id = some rec → Within ops R rec.shard) (candidateBytes : ByteString) :
    wp (reload ops id candidateBytes) w fun _ w' => R w.env w'.env := by
  unfold reload
  rw [wp_bind, wp_get, andThen_ok]
  cases found : w.sb.find id with
  | none => exact refl _
  | some rec =>
      have within := each rec found
      rw [wp_bind]
      apply wp_mono (callback_within trans w.env (refl w.env) within.policy)
      rintro (e | declared) w₁ first
      · exact first
      rw [andThen_ok, wp_bind, wp_gate, andThen_ok]
      split
      · exact first
      · split
        · exact first
        · have revived : ∀ {state : Value} {f : ShardRecord σ → ShardRecord σ} {event : BusEvent}
              {out : ReviveOutcome} {w₂ : World σ ω}, w₂.env = w₁.env → wp (do
                revive ops rec state
                updateRecord id f
                modify fun w => w.emit event
                return out) w₂ fun _ w' => R w.env w'.env := by
            intro state f event out w₂ same
            rw [wp_bind]
            apply wp_mono (revive_within trans within (same ▸ first))
            rintro (e | _) w₃ second
            · exact second
            · exact second
          split
          · exact revived rfl
          · split
            · exact revived rfl
            · exact first

theorem swapState_within {id : ShardId} {w : World σ ω}
    (each : ∀ rec, w.sb.find id = some rec → Within ops R rec.shard) (candidateBytes : ByteString) :
    wp (swapState ops id candidateBytes) w fun _ w' => R w.env w'.env := by
  unfold swapState
  rw [wp_bind, wp_get, andThen_ok]
  cases found : w.sb.find id with
  | none => exact refl _
  | some rec =>
      simp only
      split
      · exact refl _
      · rw [wp_bind]
        apply wp_mono (revive_within trans (each rec found) (refl w.env))
        rintro (e | _) w₁ first
        · exact first
        · exact first

theorem step_within {input : Input σ ω} {m m' : Machine σ ω}
    (each : ∀ shard, input.touches m = some shard → Within ops R shard)
    (outside : ∀ change, input = .outside change → R m.world.env (change m.world.env))
    (action : Machine.step ops input m = some m') : R m.world.env m'.world.env := by
  have ended : ∀ {x : BusM σ ω ReviveOutcome}, wp x m.world (fun _ w' => R m.world.env w'.env) →
      R m.world.env (m.ended (x.run m.world)).world.env := by
    intro x spec
    rw [ended_world]
    exact wp_leaves spec
  cases input with
  | registerShard incoming grant =>
      rw [step_registers action]
      exact wp_leaves (registerShard_within refl trans each grant m.world)
  | reload id candidateBytes =>
      cases action
      refine ended (reload_within refl trans ?_ candidateBytes)
      intro rec found
      exact each rec.shard (by rw [Input.touches, found]; rfl)
  | swapState id candidateBytes =>
      cases action
      refine ended (swapState_within refl trans ?_ candidateBytes)
      intro rec found
      exact each rec.shard (by rw [Input.touches, found]; rfl)
  | outside change =>
      cases action
      exact outside change rfl
  | kill id =>
      cases action
      simp only [World.kill]
      split <;> exact refl _
  | pump =>
      cases action
      unfold Machine.pump
      split <;> exact refl _
  | turn =>
      rw [Machine.step] at action
      split at action
      · rename_i frames top
        cases action
        rw [turn_env]
        exact refl _
      · cases action
  | handlerSends | handlerPublishes | handlerReturns | handlerThrows =>
      rw [Machine.step] at action
      split at action
      · cases action
        exact refl _
      · cases action
  | _ =>
      cases action
      exact refl _

end

/-! ## Records that are not brought back -/

structure Dulled (rec rec' : ShardRecord σ) : Prop where
  kept : Kept rec rec'
  lastKnownGood : rec'.lastKnownGood = rec.lastKnownGood
  reloadsUsed : rec'.reloadsUsed = rec.reloadsUsed
  alive : rec'.alive = true → rec.alive = true

theorem Dulled.refl (rec : ShardRecord σ) : Dulled rec rec := ⟨⟨rfl, rfl, rfl, rfl, rfl⟩, rfl, rfl, id⟩

theorem Dulled.trans {rec mid rec' : ShardRecord σ} (first : Dulled rec mid) (second : Dulled mid rec') :
    Dulled rec rec' where
  kept := ⟨second.kept.id.trans first.kept.id, second.kept.shard.trans first.kept.shard,
    second.kept.accept.trans first.kept.accept, second.kept.stateSchema.trans first.kept.stateSchema,
    second.kept.grant.trans first.kept.grant⟩
  lastKnownGood := second.lastKnownGood.trans first.lastKnownGood
  reloadsUsed := second.reloadsUsed.trans first.reloadsUsed
  alive := fun h => first.alive (second.alive h)

/-- Each record of `id` was there before, and nothing has brought it back. -/
def Faded (id : ShardId) (sb sb' : Switchboard σ) : Prop :=
  ∀ rec', sb'.find id = some rec' → ∃ rec, sb.find id = some rec ∧ Dulled rec rec'

theorem Faded.of_shards {id : ShardId} {sb sb' : Switchboard σ} (same : sb'.shards = sb.shards) :
    Faded id sb sb' := by
  intro rec' found
  rw [Switchboard.find, same] at found
  exact ⟨rec', found, .refl rec'⟩

theorem Faded.trans {id : ShardId} {sb mid sb' : Switchboard σ} (first : Faded id sb mid) (second : Faded id mid sb') :
    Faded id sb sb' := by
  intro rec' found
  obtain ⟨between, found, dulled'⟩ := second rec' found
  obtain ⟨rec, found, dulled⟩ := first between found
  exact ⟨rec, found, dulled.trans dulled'⟩

theorem kill_faded (w : World σ ω) (target id : ShardId) : Faded id w.sb (w.kill target).sb := by
  unfold World.kill
  cases known : w.sb.find target with
  | none => exact .of_shards rfl
  | some killed =>
      intro rec' found
      have left : (w.sb.shards.update target fun r => { r with alive := false }).find id = some rec' := found
      rw [OrdMap.find_update] at left
      split at left
      · rename_i here
        subst here
        obtain ⟨rec, old, rfl⟩ := Option.map_eq_some_iff.mp left
        exact ⟨rec, old, ⟨rfl, rfl, rfl, rfl, rfl⟩, rfl, rfl, nofun⟩
      · exact ⟨rec', left, .refl rec'⟩

theorem kill_keeps (w : World σ ω) (target : ShardId) {id : ShardId} {rec : ShardRecord σ}
    (known : w.sb.find id = some rec) : ∃ rec', (w.kill target).sb.find id = some rec' ∧ Dulled rec rec' := by
  unfold World.kill
  cases w.sb.find target with
  | none => exact ⟨rec, known, .refl rec⟩
  | some killed =>
      have find : ∀ f : ShardRecord σ → ShardRecord σ, (w.sb.shards.update target f).find id =
          if id = target then some (f rec) else some rec := by
        intro f
        rw [OrdMap.find_update, show w.sb.shards.find id = some rec from known]
        rfl
      by_cases here : id = target
      · exact ⟨_, (find _).trans (if_pos here), ⟨rfl, rfl, rfl, rfl, rfl⟩, rfl, rfl, nofun⟩
      · exact ⟨_, (find _).trans (if_neg here), .refl rec⟩

theorem kill_dead {w : World σ ω} {id : ShardId} {rec : ShardRecord σ}
    (found : (w.kill id).sb.find id = some rec) : rec.alive = false := by
  unfold World.kill at found
  cases known : w.sb.find id with
  | none =>
      rw [known] at found
      have found : w.sb.find id = some rec := found
      rw [known] at found
      cases found
  | some killed =>
      rw [known] at found
      have left : (w.sb.shards.update id fun r => { r with alive := false }).find id = some rec := found
      rw [OrdMap.find_update, if_pos rfl] at left
      obtain ⟨_, _, rfl⟩ := Option.map_eq_some_iff.mp left
      rfl

theorem unregisterShard_faded (sb : Switchboard σ) (target id : ShardId) :
    Faded id sb (sb.unregisterShard target).1 := by
  unfold Switchboard.unregisterShard
  cases sb.find target with
  | none => exact .of_shards rfl
  | some gone =>
      intro rec' found
      have found : (sb.shards.erase target).find id = some rec' := found
      rw [OrdMap.find_erase] at found
      split at found
      · cases found
      · exact ⟨rec', found, .refl rec'⟩

theorem reloaded_faded {target id : ShardId} (other : target ≠ id) {bytes : ByteString} {w w' : World σ ω}
    {r : Except Exn ReviveOutcome} (h : Reloaded target bytes w r w') : Faded id w.sb w'.sb := by
  obtain ⟨_, unrevived | ⟨rec, state, f, _, revived⟩⟩ := h
  · exact .of_shards (congrArg Switchboard.shards unrevived.bus)
  · cases r with
    | error e => exact .of_shards (congrArg Switchboard.shards revived.bus)
    | ok out =>
        intro rec' found
        rw [revived.bus.2] at found
        have found : (w.sb.shards.update target f).find id = some rec' := found
        rw [OrdMap.find_update, if_neg other.symm] at found
        exact ⟨rec', found, .refl rec'⟩

theorem Turned.shards {m m' : Machine σ ω} {frames : List Frame} (h : Turned m frames m') :
    m'.world.sb.shards = m.world.sb.shards := by
  cases h with
  | ended => rfl
  | refused e queue w front turn => exact turn.shards.1
  | called e queue trusted w front turn => exact turn.shards.1

theorem step_faded {ops : ShardOps σ ω} {input : Input σ ω} {m m' : Machine σ ω} {id : ShardId}
    (action : Machine.step ops input m = some m') (below : m.world.sb.Below) (known : id < m.world.sb.nextShardId)
    (other : input.revives ≠ some id) : Faded id m.world.sb m'.world.sb := by
  cases step_acted action with
  | registered grant new w h state =>
      subst state
      obtain ⟨_, _, rfl, _, rec, shards, _⟩ := h
      intro rec' found
      rw [below.find_added shards, if_neg (Nat.ne_of_lt known)] at found
      exact ⟨rec', found, .refl rec'⟩
  | unregistrable grant e w h state =>
      subst state
      exact .of_shards h.2.2.1
  | unregistered target state =>
      subst state
      exact unregisterShard_faded m.world.sb target id
  | killed target state =>
      subst state
      exact kill_faded m.world target id
  | reloaded target bytes r w h state revives =>
      subst state
      have different : target ≠ id := fun same => other (same ▸ revives)
      exact reloaded_faded different h
  | turned frames top h => exact .of_shards h.shards
  | enqueued es origin numbers stamped state | aside stop env state | began idle state
  | returned e trusted frames top state =>
      subst state
      exact .of_shards rfl
  | threw throws e h =>
      rw [h.state]
      exact .of_shards rfl

end Zen.Sb
