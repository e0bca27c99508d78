import Zen.Proof.Switchboard.Fifo

/-!
# The budget of crash revivals

`reload` checks the counter of a record against the policy of its Shard and advances it once `revive`
has returned. An attempt whose `revive` throws is not counted.
-/

namespace Zen.Sb
open Lib BusM

variable {σ ω : Type}

/-! ## One reload -/

/-- A `reload` of `rec` with budget left calls `revive` with `state`. -/
inductive Picks (rec : ShardRecord σ) (policy : Value) (candidateBytes : ByteString) : Value → Prop where
  | candidate (state : Value)
      (accepted : admitUnverified (parse candidateBytes) rec.stateSchema .firstError = .accept state) :
      Picks rec policy candidateBytes state
  | fallback (errors : List Error)
      (rejected : admitUnverified (parse candidateBytes) rec.stateSchema .firstError = .reject errors)
      (wanted : reviveFromLastGood policy = true) : Picks rec policy candidateBytes rec.lastKnownGood

structure Attempt (ops : ShardOps σ ω) (id : ShardId) (candidateBytes : ByteString) (w : World σ ω)
    (rec : ShardRecord σ) (policy state : Value) (env : ω) : Prop where
  found : w.sb.find id = some rec
  asked : ∃ declared, (ops.policy rec.shard).run w.env = .ok declared env ∧
    admitLive declared lifecyclePolicySchema .firstError = .accept policy
  left : rec.reloadsUsed < maxReloads policy
  picks : Picks rec policy candidateBytes state

/-- What a `reload` does to the budget: nothing, or one call of `revive` that the policy allows. -/
inductive Spends (ops : ShardOps σ ω) (id : ShardId) (candidateBytes : ByteString) (w : World σ ω)
    (r : Except Exn ReviveOutcome) (w' : World σ ω) : Prop where
  | nothing (bus : w'.sb = w.sb) (revived : w'.log.revived = w.log.revived)
  | returned (rec : ShardRecord σ) (policy state : Value) (env : ω) (f : ShardRecord σ → ShardRecord σ)
      (attempt : Attempt ops id candidateBytes w rec policy state env)
      (called : w'.log.revived = w.log.revived ++ [(rec.id, rec.stateSchema, state)])
      (counts : ∀ rec, (f rec).reloadsUsed = rec.reloadsUsed + 1)
      (bus : w'.sb = { w.sb with shards := w.sb.shards.update id f })
  | threw (rec : ShardRecord σ) (policy state : Value) (env env' : ω) (e : Exn)
      (attempt : Attempt ops id candidateBytes w rec policy state env)
      (thrown : (ops.revive rec.shard state).run env = .error e env')

theorem attempt_spends {ops : ShardOps σ ω} {id : ShardId} {candidateBytes : ByteString}
    {w mid : World σ ω} {rec : ShardRecord σ} {policy state : Value} {f : ShardRecord σ → ShardRecord σ}
    {event : BusEvent} {out : ReviveOutcome}
    (attempt : Attempt ops id candidateBytes w rec policy state mid.env) (bus : mid.sb = w.sb)
    (revived : mid.log.revived = w.log.revived) (counts : ∀ rec, (f rec).reloadsUsed = rec.reloadsUsed + 1) :
    wp (do
      revive ops rec state
      updateRecord id f
      modify fun w => w.emit event
      return out) mid (Spends ops id candidateBytes w) := by
  simp only [wp_bind, wp_revive]
  refine wp_intro ?_ ?_
  · intro _ env' _
    refine .returned rec policy state mid.env f attempt ?_ counts ?_
    · rw [← revived]
      rfl
    · rw [← bus]
      rfl
  · intro e env' thrown
    exact .threw rec policy state mid.env env' e attempt thrown

theorem reload_spends (ops : ShardOps σ ω) (id : ShardId) (candidateBytes : ByteString) (w : World σ ω) :
    wp (reload ops id candidateBytes) w (Spends ops id candidateBytes w) := by
  unfold reload
  rw [wp_bind, wp_get, andThen_ok]
  cases found : w.sb.find id with
  | none => exact .nothing rfl rfl
  | some rec =>
      rw [wp_bind, wp_callback]
      refine wp_intro ?_ (fun e env _ => .nothing rfl rfl)
      intro declared env asked
      rw [andThen_ok, wp_bind, wp_gate, andThen_ok]
      cases allowed : admitLive declared lifecyclePolicySchema .firstError with
      | reject errors => exact .nothing rfl rfl
      | accept policy =>
          simp only
          split
          · exact .nothing rfl rfl
          · rename_i left
            have left := Int.not_le.mp left
            cases verdict : admitUnverified (parse candidateBytes) rec.stateSchema .firstError with
            | accept state =>
                have attempt : Attempt ops id candidateBytes w rec policy state env :=
                  ⟨found, ⟨declared, asked, allowed⟩, left, .candidate state verdict⟩
                exact attempt_spends attempt rfl rfl fun _ => rfl
            | reject errors =>
                simp only
                split
                · rename_i wanted
                  have attempt : Attempt ops id candidateBytes w rec policy rec.lastKnownGood env :=
                    ⟨found, ⟨declared, asked, allowed⟩, left, .fallback errors verdict wanted⟩
                  exact attempt_spends attempt rfl rfl fun _ => rfl
                · exact .nothing rfl rfl

/-! ## Runs -/

def reviveCalls (ops : ShardOps σ ω) (id : ShardId) : Input σ ω → Machine σ ω → Nat
  | .reload target candidateBytes, m =>
      if target = id then
        (m.ended ((reload ops id candidateBytes).run m.world)).world.log.revived.length -
          m.world.log.revived.length
      else 0
  | _, _ => 0

/-- Asked in state `m`, the Shard `id` declares `limit` reloads, if it declares a policy at all. -/
def Declares (ops : ShardOps σ ω) (id : ShardId) (limit : Int) (m : Machine σ ω) : Prop :=
  ∀ rec, m.world.sb.find id = some rec → ∀ declared env policy,
    (ops.policy rec.shard).run m.world.env = .ok declared env →
    admitLive declared lifecyclePolicySchema .firstError = .accept policy → maxReloads policy = limit

/-- The input is a `reload` of `id` that calls `revive`, and `revive` throws. -/
def ReviveThrows (ops : ShardOps σ ω) (id : ShardId) : Input σ ω → Machine σ ω → Prop
  | .reload target candidateBytes, m => target = id ∧ ∃ rec policy state env e env',
      Attempt ops id candidateBytes m.world rec policy state env ∧
        (ops.revive rec.shard state).run env = .error e env'
  | _, _ => False

def budgetLeft (id : ShardId) (limit : Nat) (m : Machine σ ω) : Nat :=
  match m.world.sb.find id with
  | some rec => limit - rec.reloadsUsed
  | none => if id < m.world.sb.nextShardId then 0 else limit

theorem budgetLeft_mono {ops : ShardOps σ ω} {input : Input σ ω} {m m' : Machine σ ω} (ok : RecordsOk m)
    (action : Machine.step ops input m = some m') (id : ShardId) (limit : Nat) :
    budgetLeft id limit m' ≤ budgetLeft id limit m := by
  have reshaped := step_reshaped action
  have grown : m.world.sb.nextShardId ≤ m'.world.sb.nextShardId := by
    rcases reshaped.ids with ids | ⟨next, _⟩
    · exact Nat.le_of_eq ids.nextShardId.symm
    · rw [next]
      exact Nat.le_succ _
  unfold budgetLeft
  cases after : m'.world.sb.find id with
  | some rec' =>
      rcases reshaped.origin ok.below after with ⟨rec, before, _, spent, _⟩ | ⟨new, _⟩
      · rw [before]
        exact Nat.sub_le_sub_left spent limit
      · have unknown : m.world.sb.find id = none := by
          cases known : m.world.sb.find id with
          | none => rfl
          | some rec =>
              have small := ok.below id rec known
              rw [new] at small
              exact absurd small (Nat.lt_irrefl _)
        rw [unknown]
        simp only [new, Nat.lt_irrefl, if_false]
        exact Nat.sub_le limit _
  | none =>
      cases before : m.world.sb.find id with
      | some rec =>
          have small := ok.below id rec before
          simp [Nat.lt_of_lt_of_le small grown]
      | none =>
          simp only
          split
          · exact Nat.zero_le _
          · rename_i unused
            have unused' : ¬ id < m.world.sb.nextShardId := fun used =>
              unused (Nat.lt_of_lt_of_le used grown)
            rw [if_neg unused']

theorem returned_pays {ops : ShardOps σ ω} {id : ShardId} {candidateBytes : ByteString} {limit : Int}
    {m : Machine σ ω} {w : World σ ω} {rec : ShardRecord σ} {policy state : Value} {env : ω}
    {f : ShardRecord σ → ShardRecord σ} (declares : Declares ops id limit m)
    (attempt : Attempt ops id candidateBytes m.world rec policy state env)
    (counts : ∀ rec, (f rec).reloadsUsed = rec.reloadsUsed + 1)
    (bus : w.sb = { m.world.sb with shards := m.world.sb.shards.update id f }) :
    1 + budgetLeft id (max limit 0).toNat { m with world := w } ≤ budgetLeft id (max limit 0).toNat m := by
  obtain ⟨declared, asked, allowed⟩ := attempt.asked
  have same := declares rec attempt.found declared env policy asked allowed
  have left := attempt.left
  have found := attempt.found
  have after : w.sb.find id = some (f rec) := by
    rw [bus, Switchboard.find, OrdMap.find_update, if_pos rfl, ← Switchboard.find, found]
    rfl
  unfold budgetLeft
  simp only [after, found, counts]
  omega

theorem reload_pays {ops : ShardOps σ ω} {id : ShardId} {limit : Int} {input : Input σ ω}
    {m m' : Machine σ ω} (ok : RecordsOk m) (declares : Declares ops id limit m)
    (returns : ¬ ReviveThrows ops id input m) (action : Machine.step ops input m = some m') :
    reviveCalls ops id input m + budgetLeft id (max limit 0).toNat m' ≤
      budgetLeft id (max limit 0).toNat m := by
  have mono := budgetLeft_mono ok action id (max limit 0).toNat
  cases input with
  | reload target candidateBytes =>
      rw [reviveCalls]
      split
      · rename_i here
        subst here
        have spends := reload_spends ops target candidateBytes m.world
        rw [Machine.step] at action
        generalize ended : m.ended ((reload ops target candidateBytes).run m.world) = final at action ⊢
        cases action
        have seen : ∃ r, Spends ops target candidateBytes m.world r m'.world ∧
            m' = { m with world := m'.world } := by
          cases run : (reload ops target candidateBytes).run m.world with
          | ok out w =>
              rw [run] at ended
              subst ended
              exact ⟨_, wp_ok spends run, rfl⟩
          | error e w =>
              rw [run] at ended
              subst ended
              exact ⟨_, wp_error spends run, rfl⟩
        obtain ⟨r, spends, state⟩ := seen
        cases spends with
        | nothing bus revived =>
            rw [revived, Nat.sub_self, Nat.zero_add]
            exact mono
        | returned rec policy value env f attempt called counts bus =>
            rw [called, List.length_append, Nat.add_sub_cancel_left, state]
            exact returned_pays declares attempt counts bus
        | threw rec policy value env env' e attempt thrown =>
            exact absurd ⟨rfl, rec, policy, value, env, e, env', attempt, thrown⟩ returns
      · rw [Nat.zero_add]
        exact mono
  | _ =>
      rw [reviveCalls, Nat.zero_add]
      · exact mono
      · intro id candidate same
        cases same

theorem revive_budget {ops : ShardOps σ ω} {env : ω} {inputs : List (Input σ ω)} {m : Machine σ ω}
    (run : Reaches ops (.start env) inputs m) (id : ShardId) (limit : Int)
    (declares : Along (Machine.step ops) (fun _ m => Declares ops id limit m) inputs (.start env))
    (returns : Along (Machine.step ops) (fun input m => ¬ ReviveThrows ops id input m) inputs (.start env)) :
    tally (Machine.step ops) (reviveCalls ops id) inputs (.start env) ≤ (max limit 0).toNat := by
  have each : ∀ input m m', (Declares ops id limit m ∧ ¬ ReviveThrows ops id input m) → RecordsOk m →
      Machine.step ops input m = some m' → RecordsOk m' ∧
        reviveCalls ops id input m + budgetLeft id (max limit 0).toNat m' ≤
          budgetLeft id (max limit 0).toNat m := by
    intro input m m' allowed ok action
    exact ⟨(step_reshaped action).ok ok, reload_pays ok allowed.1 allowed.2 action⟩
  have paid : tally (Machine.step ops) (reviveCalls ops id) inputs (.start env) +
      budgetLeft id (max limit 0).toNat m ≤ budgetLeft id (max limit 0).toNat (.start env) :=
    run.tally_le each (declares.and returns) (RecordsOk.start env)
  have most : budgetLeft id (max limit 0).toNat (Machine.start env : Machine σ ω) ≤ (max limit 0).toNat := by
    have unknown : (Machine.start env : Machine σ ω).world.sb.find id = none := rfl
    rw [budgetLeft, unknown]
    simp only
    split
    · exact Nat.zero_le _
    · exact Nat.le_refl _
  omega

-- no candidate: each attempt is made from the last known good state
def pingReloads : List (Input Unit Unit) := [.registerShard (some ()) anyone, .reload 1 [], .reload 1 []]

theorem ping_declares {ops : ShardOps Unit Unit} (asked : ops.policy = pingOps.policy) (id : ShardId)
    (m : Machine Unit Unit) : Declares ops id 1 m := by
  intro rec _ declared env policy answered allowed
  rw [asked] at answered
  cases answered
  obtain ⟨_, rfl⟩ := Proof.admitLive_accept.mp allowed
  decide +kernel

theorem revive_budget_ping : ∃ m, Reaches pingOps (.start ()) pingReloads m ∧
    tally (Machine.step pingOps) (reviveCalls pingOps 1) pingReloads (.start ()) = 1 ∧
    tally (Machine.step pingOps) (reviveCalls pingOps 1) pingReloads (.start ()) ≤ (max 1 0 : Int).toNat := by
  have evaluated : (exec (Machine.step pingOps) pingReloads (.start ())).isSome = true := by decide +kernel
  obtain ⟨m, reached⟩ := Option.isSome_iff_exists.mp evaluated
  have run := Run.of_exec reached
  have returns : ∀ input m, ¬ ReviveThrows pingOps 1 input m := by
    intro input m throws
    cases input with
    | reload target candidateBytes =>
        obtain ⟨_, _, _, _, _, _, _, _, thrown⟩ := throws
        cases thrown
    | _ => exact throws
  refine ⟨m, run, by decide +kernel, ?_⟩
  exact revive_budget run 1 1 (.of_forall (fun _ => ping_declares rfl 1) _ _) (.of_forall returns _ _)

def thrashingOps : ShardOps Unit Unit := { pingOps with revive := fun _ _ => throw (.runtimeError "refused") }

theorem thrashing_exceeds_budget : ∃ m, Reaches thrashingOps (.start ()) pingReloads m ∧
    Along (Machine.step thrashingOps) (fun _ m => Declares thrashingOps 1 1 m) pingReloads (.start ()) ∧
    (max 1 0 : Int).toNat < tally (Machine.step thrashingOps) (reviveCalls thrashingOps 1) pingReloads (.start ()) := by
  have evaluated : (exec (Machine.step thrashingOps) pingReloads (.start ())).isSome = true := by decide +kernel
  obtain ⟨m, reached⟩ := Option.isSome_iff_exists.mp evaluated
  refine ⟨m, Run.of_exec reached, .of_forall (fun _ => ping_declares rfl 1) _ _, ?_⟩
  decide +kernel

end Zen.Sb
