import Zen.Proof.Switchboard.Callbacks

/-!
# Who is told of a death

The observers hear of a death when somebody calls `kill`, and only then; a Shard stays on the bus until
somebody unregisters it.
-/

namespace Zen.Sb
open Lib BusM

variable {σ ω α β : Type}

def BusEvent.mourns (id : ShardId) (event : BusEvent) : Bool := event.kind == .died && event.target == id

/-- How often the observers have heard of a death of `id`. -/
def World.deaths (id : ShardId) (w : World σ ω) : Nat := w.log.events.countP (BusEvent.mourns id)

def Switchboard.knows (sb : Switchboard σ) (id : ShardId) : Bool := (sb.find id).isSome

theorem emit_deaths (id : ShardId) (w : World σ ω) (event : BusEvent) :
    (w.emit event).deaths id = w.deaths id + if event.mourns id then 1 else 0 := by
  rw [World.deaths, World.emit, List.countP_append, List.countP_singleton]
  rfl

theorem knows_update {id target : ShardId} {shards : OrdMap (ShardRecord σ)} (f : ShardRecord σ → ShardRecord σ) :
    ((shards.update target f).find id).isSome = (shards.find id).isSome := by
  rw [OrdMap.find_update]
  split <;> simp

/-! ## Steps that tell nobody -/

structure Discreet (id : ShardId) (w w' : World σ ω) : Prop where
  deaths : w'.deaths id = w.deaths id
  known : w.sb.knows id → w'.sb.knows id

theorem Discreet.refl (id : ShardId) (w : World σ ω) : Discreet id w w := ⟨rfl, fun h => h⟩

theorem Discreet.trans {id : ShardId} {w mid w' : World σ ω} (first : Discreet id w mid)
    (second : Discreet id mid w') : Discreet id w w' :=
  ⟨second.deaths.trans first.deaths, fun known => second.known (first.known known)⟩

theorem Discreet.of_eq {id : ShardId} {w w' : World σ ω} (events : w'.log.events = w.log.events)
    (shards : w'.sb.shards = w.sb.shards) : Discreet id w w' := by
  refine ⟨by rw [World.deaths, events]; rfl, ?_⟩
  intro known
  rw [Switchboard.knows, Switchboard.find, shards]
  exact known

theorem emit_discreet {id : ShardId} (w : World σ ω) {event : BusEvent} (other : event.kind ≠ .died) :
    Discreet id w (w.emit event) := by
  refine ⟨?_, fun known => known⟩
  rw [emit_deaths, if_neg (by simp [BusEvent.mourns, other])]
  rfl

def Tactful (id : ShardId) (x : BusM σ ω α) : Prop := ∀ w, wp x w fun _ w' => Discreet id w w'

namespace Tactful

variable {id : ShardId}

theorem returns (a : α) : Tactful id (pure a : BusM σ ω α) := fun w => .refl id w

theorem throws (e : Exn) : Tactful id (throw e : BusM σ ω α) := fun w => .refl id w

theorem gets : Tactful id (get : BusM σ ω (World σ ω)) := fun w => .refl id w

theorem modifies {f : World σ ω → World σ ω} (each : ∀ w, Discreet id w (f w)) :
    Tactful id (modify f : BusM σ ω Unit) := each

theorem binds {x : BusM σ ω α} {f : α → BusM σ ω β} (first : Tactful id x) (second : ∀ a, Tactful id (f a)) :
    Tactful id (x >>= f) := by
  intro w
  rw [wp_bind]
  apply wp_mono (first w)
  rintro (e | a) mid before
  · exact before
  · exact wp_mono (second a mid) fun _ w' after => before.trans after

theorem emits {event : BusEvent} (other : event.kind ≠ .died) :
    Tactful id (modify fun w => w.emit event : BusM σ ω Unit) := modifies fun w => emit_discreet w other

theorem calls (call : EStateM Exn ω α) : Tactful id (callback call : BusM σ ω α) := by
  intro w
  rw [wp_callback]
  exact wp_intro (fun _ _ _ => .of_eq rfl rfl) fun _ _ _ => .of_eq rfl rfl

theorem registers (schema : Schema) : Tactful id (registerSchema schema : BusM σ ω Schema) := by
  intro w
  apply wp_mono (registerSchema_spec schema w)
  rintro _ _ ⟨⟨registry, rfl⟩, _⟩
  exact .of_eq rfl rfl

theorem accepts (declared : List (Option Schema)) :
    Tactful id (registerAccept declared : BusM σ ω (List Schema)) := by
  intro w
  apply wp_mono (registerAccept_spec declared w)
  rintro _ _ ⟨⟨registry, rfl⟩, _⟩
  exact .of_eq rfl rfl

theorem gates (claimant : Value) (door : Schema) : Tactful id (gate claimant door : BusM σ ω Admission) :=
  binds (modifies fun _ => .of_eq rfl rfl) fun _ => returns _

theorem revives (ops : ShardOps σ ω) (rec : ShardRecord σ) (state : Value) : Tactful id (revive ops rec state) :=
  binds (modifies fun _ => .of_eq rfl rfl) fun _ => calls _

theorem updates (target : ShardId) (f : ShardRecord σ → ShardRecord σ) :
    Tactful id (updateRecord target f : BusM σ ω Unit) := by
  refine modifies fun w => ⟨rfl, ?_⟩
  intro known
  rw [Switchboard.knows, Switchboard.find, knows_update]
  exact known

theorem adds (shard : σ) (accept : List Schema) (stateSchema : Schema) (good : Value) (grant : Grant) :
    Tactful id (addRecord shard accept stateSchema good grant : BusM σ ω ShardId) := by
  refine binds gets fun w₀ => binds (modifies fun w => ⟨rfl, ?_⟩) fun _ => returns _
  intro known
  obtain ⟨rec, found⟩ := Option.isSome_iff_exists.mp known
  exact Option.isSome_iff_exists.mpr ⟨rec, OrdMap.emplace_keeps found⟩

end Tactful

theorem registerShard_tactful (ops : ShardOps σ ω) (incoming : Option σ) (grant : Grant) (id : ShardId) :
    Tactful id (registerShard ops incoming grant) := by
  cases incoming with
  | none => exact .throws _
  | some shard =>
      refine .binds (.calls _) fun declared => .binds (.accepts _) fun accept => .binds (.calls _) fun snap =>
        .binds (.registers _) fun owner => .binds (.gates _ _) fun verdict => ?_
      cases verdict with
      | reject errors => exact .throws _
      | accept good => exact .adds _ _ _ _ _

theorem reload_tactful (ops : ShardOps σ ω) (target : ShardId) (candidateBytes : ByteString) (id : ShardId) :
    Tactful id (reload ops target candidateBytes) := by
  refine .binds .gets fun w => ?_
  cases w.sb.find target with
  | none => exact .returns _
  | some rec =>
      refine .binds (.calls _) fun declared => .binds (.gates _ _) fun verdict => ?_
      cases verdict with
      | reject errors => exact .returns _
      | accept policy =>
          simp only
          split
          · exact .returns _
          · split
            · exact .binds (.revives _ _ _) fun _ => .binds (.updates _ _) fun _ =>
                .binds (.emits nofun) fun _ => .returns _
            · split
              · exact .binds (.revives _ _ _) fun _ => .binds (.updates _ _) fun _ =>
                  .binds (.emits nofun) fun _ => .returns _
              · exact .binds (.emits nofun) fun _ => .returns _

theorem swapState_tactful (ops : ShardOps σ ω) (target : ShardId) (candidateBytes : ByteString) (id : ShardId) :
    Tactful id (swapState ops target candidateBytes) := by
  refine .binds .gets fun w => ?_
  cases w.sb.find target with
  | none => exact .returns _
  | some rec =>
      simp only
      split
      · exact .binds (.emits nofun) fun _ => .returns _
      · exact .binds (.revives _ _ _) fun _ => .binds (.updates _ _) fun _ => .binds (.emits nofun) fun _ => .returns _

/-! ## Every input of the bus -/

/-- Whether the input makes the bus tell of a death of `id`. -/
def Input.kills (id : ShardId) (sb : Switchboard σ) : Input σ ω → Nat
  | .kill target => if target = id ∧ sb.knows id then 1 else 0
  | _ => 0

def Input.unregisters : Input σ ω → Option ShardId
  | .unregisterShard target => some target
  | _ => none

structure Told (id : ShardId) (input : Input σ ω) (w w' : World σ ω) : Prop where
  deaths : w'.deaths id = w.deaths id + input.kills id w.sb
  known : input.unregisters ≠ some id → w.sb.knows id → w'.sb.knows id

theorem Discreet.told {id : ShardId} {input : Input σ ω} {w w' : World σ ω} (h : Discreet id w w')
    (other : input.kills id w.sb = 0) : Told id input w w' :=
  ⟨by rw [h.deaths, other]; rfl, fun _ => h.known⟩

theorem deliverOne_discreet (id : ShardId) (w : World σ ω) (e : Envelope) : Discreet id w (w.deliverOne e).1 := by
  have refused : ∀ {w₀ : World σ ω} {refusal : Refusal}, Discreet id w w₀ → Discreet id w (w₀.refuse e refusal) := by
    intro w₀ refusal before
    refine before.trans ?_
    have journaled : Discreet id w₀ (w₀.record e.seq .refused refusal) := .of_eq rfl rfl
    exact journaled.trans (emit_discreet _ nofun)
  unfold World.deliverOne
  split
  · exact refused (.refl id w)
  · split
    · exact refused (.refl id w)
    · split
      · exact refused (.refl id w)
      · split
        · exact refused (.refl id w)
        · simp only
          split
          · exact refused (.of_eq rfl rfl)
          · exact .of_eq rfl rfl

theorem delivered_discreet (id : ShardId) (w : World σ ω) (e : Envelope) (trusted : Message) :
    Discreet id w (w.delivered e trusted) := by
  have journaled : Discreet id w (w.record e.seq .delivered {}) := .of_eq rfl rfl
  exact journaled.trans (emit_discreet _ nofun)

theorem turn_discreet (id : ShardId) (m : Machine σ ω) (frames : List Frame) :
    Discreet id m.world (m.turn frames).world := by
  unfold Machine.turn
  split
  · exact .of_eq rfl rfl
  · rename_i e queue front
    split
    · exact .of_eq rfl rfl
    · have popped : Discreet id m.world (m.popped e queue) := .of_eq rfl rfl
      have same := popped.trans (deliverOne_discreet id (m.popped e queue) e)
      generalize (m.popped e queue).deliverOne e = result at same
      obtain ⟨w, trusted⟩ := result
      cases trusted with
      | none => exact same
      | some trusted => exact same

theorem kill_told (id target : ShardId) (w : World σ ω) : Told id (.kill target) w (w.kill target) := by
  unfold World.kill
  cases found : w.sb.find target with
  | none =>
      refine (Discreet.refl id w).told (if_neg ?_)
      rintro ⟨rfl, known⟩
      rw [Switchboard.knows, found] at known
      cases known
  | some rec =>
      refine ⟨?_, ?_⟩
      · have event : (World.stateEvent rec target .died).mourns id = (target == id) := rfl
        rw [emit_deaths, event, Input.kills]
        by_cases here : target = id
        · subst here
          simp [Switchboard.knows, found, World.deaths]
        · simp [here, World.deaths]
      · intro _ known
        have same : ((w.sb.shards.update target fun r => { r with alive := false }).find id).isSome := by
          rw [knows_update]
          exact known
        exact same

theorem unregisterShard_told (id target : ShardId) (w : World σ ω) :
    Told id (.unregisterShard target) w { w with sb := (w.sb.unregisterShard target).1 } := by
  refine ⟨rfl, ?_⟩
  intro other known
  have different : id ≠ target := fun same => other (by rw [same]; rfl)
  unfold Switchboard.unregisterShard
  cases w.sb.find target with
  | none => exact known
  | some gone =>
      have left : ((w.sb.shards.erase target).find id).isSome := by
        rw [OrdMap.find_erase, if_neg different]
        exact known
      exact left

theorem step_told {ops : ShardOps σ ω} {input : Input σ ω} {m m' : Machine σ ω}
    (action : Machine.step ops input m = some m') (id : ShardId) : Told id input m.world m'.world := by
  have ended : ∀ {x : BusM σ ω ReviveOutcome}, Tactful id x → Discreet id m.world (m.ended (x.run m.world)).world := by
    intro x tactful
    rw [ended_world]
    exact wp_leaves (tactful m.world)
  have appended : ∀ {sb : Switchboard σ} {origin : Option ShardId}, sb.shards = m.world.sb.shards →
      Discreet id m.world (m.enqueued sb origin).world := fun same => .of_eq rfl same
  cases input with
  | registerShard incoming grant =>
      have tactful := registerShard_tactful ops incoming grant id m.world
      refine Discreet.told ?_ rfl
      rw [step_registers action]
      exact wp_leaves tactful
  | unregisterShard target =>
      cases action
      exact unregisterShard_told id target m.world
  | kill target =>
      cases action
      exact kill_told id target m.world
  | reload target candidateBytes =>
      cases action
      exact (ended (reload_tactful ops target candidateBytes id)).told rfl
  | swapState target candidateBytes =>
      cases action
      exact (ended (swapState_tactful ops target candidateBytes id)).told rfl
  | send target msg | sendAs sender target msg =>
      cases action
      refine Discreet.told ?_ rfl
      exact appended rfl
  | publish msg =>
      cases action
      refine Discreet.told ?_ rfl
      exact appended (by rw [Switchboard.publish, fanout_eq]; rfl)
  | publishAs sender msg =>
      cases action
      refine Discreet.told ?_ rfl
      exact appended (by rw [Switchboard.publishAs, fanout_eq]; rfl)
  | stop | outside change =>
      cases action
      refine Discreet.told ?_ rfl
      exact .of_eq rfl rfl
  | pump =>
      cases action
      unfold Machine.pump
      refine Discreet.told ?_ rfl
      split <;> exact .of_eq rfl rfl
  | turn =>
      rw [Machine.step] at action
      split at action
      · rename_i frames top
        cases action
        exact (turn_discreet id m frames).told rfl
      · cases action
  | handlerSends target msg =>
      rw [Machine.step] at action
      split at action
      · cases action
        refine Discreet.told ?_ rfl
        exact appended rfl
      · cases action
  | handlerPublishes msg =>
      rw [Machine.step] at action
      split at action
      · cases action
        refine Discreet.told ?_ rfl
        exact appended (by rw [Switchboard.publishAs, fanout_eq]; rfl)
      · cases action
  | handlerReturns =>
      rw [Machine.step] at action
      split at action
      · cases action
        exact (delivered_discreet id _ _ _).told rfl
      · cases action
  | handlerThrows =>
      rw [Machine.step] at action
      split at action
      · cases action
        refine Discreet.told ?_ rfl
        exact .of_eq rfl rfl
      · cases action

end Zen.Sb
