import Zen.Lib.Relational
import Zen.Proof.Switchboard.Fifo
import Zen.Switchboard.Behaviour

/-!
# What is left of a state without the messages of one Shard

`World.view x` forgets the messages that come from `x`, the numbers of all messages, the journal and
what observers have seen. No operation reads what it forgets: run from two states with the same view,
each does the same.
-/

namespace Zen.Sb
open Lib BusM

variable {σ ω : Type}

/-! ## The view -/

def Envelope.unnumbered (e : Envelope) : Envelope := { e with seq := 0 }

def Frame.unnumbered : Frame → Frame
  | loop => loop
  | handler e trusted => handler e.unnumbered trusted

def Envelope.sentBy (x : ShardId) (e : Envelope) : Bool := e.gated && e.msg.sender == x

@[ext] structure View (σ ω : Type) where
  registry : Registry
  shards : OrdMap (ShardRecord σ)
  nextShardId : ShardId
  waiting : List Envelope
  inDispatch : Bool
  stopRequested : Bool
  env : ω
  handled : List (ShardId × Message)
  revived : List (ShardId × Schema × Value)

-- what does not come from `x`
def waiting (x : ShardId) (queue : List Envelope) : List Envelope :=
  (queue.filter fun e => !e.sentBy x).map Envelope.unnumbered

def World.view (x : ShardId) (w : World σ ω) : View σ ω where
  registry := w.sb.registry
  shards := w.sb.shards
  nextShardId := w.sb.nextShardId
  waiting := Sb.waiting x w.sb.queue
  inDispatch := w.sb.inDispatch
  stopRequested := w.sb.stopRequested
  env := w.env
  handled := w.log.handled
  revived := w.log.revived

abbrev SameView (x : ShardId) (w w' : World σ ω) : Prop := w.view x = w'.view x

structure SameBut (x : ShardId) (m m' : Machine σ ω) : Prop where
  world : SameView x m.world m'.world
  stack : m.stack.map Frame.unnumbered = m'.stack.map Frame.unnumbered

variable {x : ShardId}

theorem SameBut.refl (m : Machine σ ω) : SameBut x m m := ⟨rfl, rfl⟩

theorem SameBut.symm {m m' : Machine σ ω} (h : SameBut x m m') : SameBut x m' m :=
  ⟨h.world.symm, h.stack.symm⟩

theorem SameBut.trans {m m' m'' : Machine σ ω} (h : SameBut x m m') (h' : SameBut x m' m'') :
    SameBut x m m'' := ⟨h.world.trans h'.world, h.stack.trans h'.stack⟩

theorem SameView.find {w w' : World σ ω} (h : SameView x w w') (id : ShardId) :
    w.sb.find id = w'.sb.find id := by
  have shards : w.sb.shards = w'.sb.shards := congrArg View.shards h
  rw [Switchboard.find, Switchboard.find, shards]

/-! ## Operations that call back -/

section
open Lib.Respects

theorem callback_respects {α : Type} (call : EStateM Exn ω α) :
    Respects (SameView x) (callback call : BusM σ ω α) := by
  intro w w' h
  have env : w.env = w'.env := congrArg View.env h
  simp only [callback, EStateM.run, env]
  cases call w'.env with
  | ok a env' => exact .ok (congrArg (fun v : View σ ω => { v with env := env' }) h)
  | error e env' => exact .error (congrArg (fun v : View σ ω => { v with env := env' }) h)

theorem registerSchema_respects (schema : Schema) :
    Respects (SameView x) (BusM.registerSchema schema : BusM σ ω Schema) := by
  intro w w' h
  have registry : w.sb.registry = w'.sb.registry := congrArg View.registry h
  simp only [BusM.registerSchema, EStateM.run, registry]
  cases w'.sb.registry.registerSchema schema with
  | ok result => exact .ok (congrArg (fun v : View σ ω => { v with registry := result.1 }) h)
  | error e => exact .error h

theorem gate_respects (claimant : Value) (door : Schema) :
    Respects (SameView x) (gate claimant door : BusM σ ω Admission) :=
  .bind (.modify fun _ _ h => h) fun _ => .pure _

theorem emit_respects (event : BusEvent) :
    Respects (SameView x) (modify fun w => w.emit event : BusM σ ω PUnit) :=
  .modify fun _ _ h => h

theorem updateRecord_respects (id : ShardId) (f : ShardRecord σ → ShardRecord σ) :
    Respects (SameView x) (updateRecord id f : BusM σ ω Unit) :=
  .modify fun _ _ h => congrArg (fun v : View σ ω => { v with shards := v.shards.update id f }) h

theorem revive_respects (ops : ShardOps σ ω) (rec : ShardRecord σ) (state : Value) :
    Respects (SameView x) (BusM.revive ops rec state) :=
  .bind (.modify fun _ _ h => congrArg
      (fun v : View σ ω => { v with revived := v.revived ++ [(rec.id, rec.stateSchema, state)] }) h)
    fun _ => callback_respects _

theorem registerAccept_respects (declared : List (Option Schema)) :
    Respects (SameView x) (registerAccept declared : BusM σ ω (List Schema)) := by
  induction declared with
  | nil => exact .pure _
  | cons entry declared ih =>
      cases entry with
      | none => exact .throw _
      | some schema => exact .bind (registerSchema_respects schema) fun _ => .bind ih fun _ => .pure _

theorem addRecord_respects (shard : σ) (accept : List Schema) (stateSchema : Schema) (lastKnownGood : Value)
    (grant : Grant) :
    Respects (SameView x) (addRecord shard accept stateSchema lastKnownGood grant : BusM σ ω ShardId) := by
  refine .get fun w w' h => ?_
  have nextShardId : w.sb.nextShardId = w'.sb.nextShardId := congrArg View.nextShardId h
  rw [nextShardId]
  generalize w'.sb.nextShardId = id
  refine (?_ : Respects (SameView x) _) w w' h
  refine .bind (.modify fun _ _ h => ?_) fun _ => .pure _
  exact congrArg (fun v : View σ ω => { v with
    nextShardId := id + 1
    shards := v.shards.emplace id ⟨id, shard, accept, stateSchema, lastKnownGood, grant, 0, true⟩ }) h

theorem registerShard_respects (ops : ShardOps σ ω) (incoming : Option σ) (grant : Grant) :
    Respects (SameView x) (registerShard ops incoming grant) := by
  cases incoming with
  | none => exact .throw _
  | some shard =>
      refine .bind (callback_respects _) fun declared => .bind (registerAccept_respects declared) fun accept => ?_
      refine .bind (callback_respects _) fun snap => .bind (registerSchema_respects _) fun _ => ?_
      refine .bind (gate_respects snap snap.schema) fun verdict => ?_
      cases verdict with
      | reject errors => exact .throw _
      | accept lastKnownGood => exact addRecord_respects shard accept snap.schema lastKnownGood grant

theorem reload_respects (ops : ShardOps σ ω) (id : ShardId) (candidateBytes : ByteString) :
    Respects (SameView x) (reload ops id candidateBytes) := by
  refine .get fun w w' h => ?_
  rw [SameView.find h id]
  generalize w'.sb.find id = found
  refine (?_ : Respects (SameView x) _) w w' h
  cases found with
  | none => exact .pure _
  | some rec =>
      refine .bind (callback_respects _) fun declared => .bind (gate_respects _ _) fun verdict => ?_
      cases verdict with
      | reject errors => exact .pure _
      | accept policy =>
          simp only
          split
          · exact .pure _
          · cases admitUnverified (parse candidateBytes) rec.stateSchema .firstError with
            | accept state =>
                refine .bind (revive_respects ops rec state) fun _ => .bind (updateRecord_respects _ _) fun _ => ?_
                exact .bind (emit_respects _) fun _ => .pure _
            | reject errors =>
                simp only
                split
                · refine .bind (revive_respects ops rec _) fun _ => .bind (updateRecord_respects _ _) fun _ => ?_
                  exact .bind (emit_respects _) fun _ => .pure _
                · exact .bind (emit_respects _) fun _ => .pure _

theorem swapState_respects (ops : ShardOps σ ω) (id : ShardId) (candidateBytes : ByteString) :
    Respects (SameView x) (swapState ops id candidateBytes) := by
  refine .get fun w w' h => ?_
  rw [SameView.find h id]
  generalize w'.sb.find id = found
  refine (?_ : Respects (SameView x) _) w w' h
  cases found with
  | none => exact .pure _
  | some rec =>
      simp only
      cases admitUnverified (parse candidateBytes) rec.stateSchema .firstError with
      | reject errors => exact .bind (emit_respects _) fun _ => .pure _
      | accept state =>
          refine .bind (revive_respects ops rec state) fun _ => .bind (updateRecord_respects _ _) fun _ => ?_
          exact .bind (emit_respects _) fun _ => .pure _

end

/-! ## Enqueueing -/

theorem waiting_append (queue es : List Envelope) : waiting x (queue ++ es) = waiting x queue ++ waiting x es := by
  rw [waiting, List.filter_append, List.map_append]
  rfl

theorem waiting_sent {e : Envelope} (sent : e.sentBy x = true) (queue : List Envelope) :
    waiting x (e :: queue) = waiting x queue := by
  rw [waiting, List.filter_cons_of_neg (by simp [sent])]
  rfl

theorem waiting_kept {e : Envelope} (kept : e.sentBy x = false) (queue : List Envelope) :
    waiting x (e :: queue) = e.unnumbered :: waiting x queue := by
  rw [waiting, List.filter_cons_of_pos (by simp [kept])]
  rfl

theorem waiting_cons_congr {e e' : Envelope} (same : e.unnumbered = e'.unnumbered) {queue queue' : List Envelope}
    (rest : waiting x queue = waiting x queue') : waiting x (e :: queue) = waiting x (e' :: queue') := by
  have unnumbered : e.unnumbered.sentBy x = e'.unnumbered.sentBy x := by rw [same]
  have sent : e.sentBy x = e'.sentBy x := unnumbered
  cases from_x : e'.sentBy x with
  | true => rw [waiting_sent (sent.trans from_x), waiting_sent from_x, rest]
  | false => rw [waiting_kept (sent.trans from_x), waiting_kept from_x, same, rest]

theorem addressed_waiting (msg : Message) (gated : Bool) (records : List (ShardRecord σ)) (seq seq' : Nat) :
    waiting x (addressed msg gated records seq) = waiting x (addressed msg gated records seq') := by
  induction records generalizing seq seq' with
  | nil => rfl
  | cons rec records ih =>
      exact @waiting_cons_congr x ⟨msg, rec.id, seq, gated⟩ ⟨msg, rec.id, seq', gated⟩ rfl _ _
        (ih (seq + 1) (seq' + 1))

theorem appended_view (m : Machine σ ω) (es : List Envelope) (origin : Option ShardId) :
    (m.enqueued (m.world.sb.appended es) origin).world.view x =
      { m.world.view x with waiting := (m.world.view x).waiting ++ waiting x es } := by
  have queue : ((m.enqueued (m.world.sb.appended es) origin).world.view x).waiting =
      waiting x (m.world.sb.queue ++ es) := rfl
  rw [waiting_append] at queue
  exact View.ext rfl rfl rfl queue rfl rfl rfl rfl rfl

theorem appended_same {m m' : Machine σ ω} (h : SameBut x m m') {es es' : List Envelope}
    (same : waiting x es = waiting x es') (origin origin' : Option ShardId) :
    SameBut x (m.enqueued (m.world.sb.appended es) origin) (m'.enqueued (m'.world.sb.appended es') origin') := by
  refine ⟨?_, h.stack⟩
  rw [SameView, appended_view, appended_view, h.world, same]

theorem directed_same {m m' : Machine σ ω} (h : SameBut x m m') (target : ShardId) (msg : Message)
    (gated : Bool) (origin : Option ShardId) :
    SameBut x (m.enqueued (m.world.sb.enqueueDirected target msg gated) origin)
      (m'.enqueued (m'.world.sb.enqueueDirected target msg gated) origin) := by
  rw [enqueueDirected_eq, enqueueDirected_eq]
  refine appended_same h (waiting_cons_congr ?_ ?_) origin origin
  · rfl
  · rfl

theorem fanout_same {m m' : Machine σ ω} (h : SameBut x m m') (msg : Message) (gated : Bool)
    (origin : Option ShardId) :
    SameBut x (m.enqueued (m.world.sb.fanout msg gated).1 origin)
        (m'.enqueued (m'.world.sb.fanout msg gated).1 origin) ∧
      (m.world.sb.fanout msg gated).2 = (m'.world.sb.fanout msg gated).2 := by
  have shards : m.world.sb.shards = m'.world.sb.shards := congrArg View.shards h.world
  rw [fanout_eq, fanout_eq, shards]
  exact ⟨appended_same h (addressed_waiting ..) origin origin, rfl⟩

-- what `x` sends is in no view
theorem sent_waiting {es : List Envelope} (sent : ∀ e ∈ es, e.sentBy x = true) : waiting x es = [] := by
  rw [waiting, List.map_eq_nil_iff, List.filter_eq_nil_iff]
  intro e he
  simp [sent e he]

/-! ## One input -/

theorem handler_top {m m' : Machine σ ω} (h : SameBut x m m') {e : Envelope} {trusted : Message}
    {frames : List Frame} (top : m.stack = .handler e trusted :: frames) :
    ∃ e' frames', m'.stack = .handler e' trusted :: frames' ∧ e'.target = e.target ∧
      frames.map Frame.unnumbered = frames'.map Frame.unnumbered := by
  have stack := h.stack
  rw [top, List.map_cons] at stack
  obtain ⟨frame', frames', top', first, rest⟩ := List.map_eq_cons_iff.mp stack.symm
  cases frame' with
  | loop => cases first
  | handler e' trusted' =>
      have both := Frame.handler.inj first
      obtain ⟨numbers, rfl⟩ := both
      have target : e'.unnumbered.target = e.unnumbered.target := by rw [numbers]
      exact ⟨e', frames', top', target, rest.symm⟩

theorem loop_top {m m' : Machine σ ω} (h : SameBut x m m') {frames : List Frame}
    (top : m.stack = .loop :: frames) :
    ∃ frames', m'.stack = .loop :: frames' ∧ frames.map Frame.unnumbered = frames'.map Frame.unnumbered := by
  have stack := h.stack
  rw [top, List.map_cons] at stack
  obtain ⟨frame', frames', top', first, rest⟩ := List.map_eq_cons_iff.mp stack.symm
  cases frame' with
  | loop => exact ⟨frames', top', rest.symm⟩
  | handler e' trusted' => cases first

/-- The two machines make the input both, and stay the same. -/
structure StepsAlike (x : ShardId) (ops : ShardOps σ ω) (input : Input σ ω) (m m' mid : Machine σ ω) : Prop where
  steps : ∃ mid', Machine.step ops input m' = some mid' ∧ SameBut x mid mid'
  recipients : input.recipients m = input.recipients m'

theorem ended_same {α : Type} {m m' : Machine σ ω} (h : SameBut x m m') {op : BusM σ ω α}
    (respects : Respects (SameView x) op) :
    SameBut x (m.ended (op.run m.world)) (m'.ended (op.run m'.world)) := by
  have paired := respects m.world m'.world h.world
  generalize op.run m.world = r at paired
  generalize op.run m'.world = r' at paired
  cases paired with
  | ok same => exact ⟨same, h.stack⟩
  | error same => exact ⟨same, h.stack⟩

theorem kill_same {m m' : Machine σ ω} (h : SameBut x m m') (id : ShardId) :
    SameBut x { m with world := m.world.kill id } { m' with world := m'.world.kill id } := by
  refine ⟨?_, h.stack⟩
  unfold World.kill
  simp only [h.world.find id]
  cases m'.world.sb.find id with
  | none => exact h.world
  | some rec =>
      exact congrArg (fun v : View σ ω =>
        { v with shards := v.shards.update id fun r => { r with alive := false } }) h.world

theorem unregister_same {m m' : Machine σ ω} (h : SameBut x m m') (id : ShardId) :
    SameBut x (m.withBus (m.world.sb.unregisterShard id).1) (m'.withBus (m'.world.sb.unregisterShard id).1) := by
  refine ⟨?_, h.stack⟩
  unfold Switchboard.unregisterShard
  simp only [h.world.find id]
  cases m'.world.sb.find id with
  | none => exact h.world
  | some rec => exact congrArg (fun v : View σ ω => { v with shards := v.shards.erase id }) h.world

theorem pump_same {m m' : Machine σ ω} (h : SameBut x m m') : SameBut x m.pump m'.pump := by
  have inDispatch : m.world.sb.inDispatch = m'.world.sb.inDispatch := congrArg View.inDispatch h.world
  unfold Machine.pump
  rw [inDispatch]
  split
  · exact h
  · refine ⟨?_, ?_⟩
    · exact congrArg (fun v : View σ ω => { v with inDispatch := true, stopRequested := false }) h.world
    · exact congrArg (List.cons Frame.loop) h.stack

theorem registered_same {ops : ShardOps σ ω} {m m' mid : Machine σ ω} (h : SameBut x m m')
    {incoming : Option σ} {grant : Grant} (action : Machine.step ops (.registerShard incoming grant) m = some mid) :
    ∃ mid', Machine.step ops (.registerShard incoming grant) m' = some mid' ∧ SameBut x mid mid' := by
  have paired := registerShard_respects ops incoming grant m.world m'.world h.world
  rw [Machine.step] at action ⊢
  generalize (registerShard ops incoming grant).run m.world = r at paired action
  generalize (registerShard ops incoming grant).run m'.world = r' at paired
  cases paired with
  | ok same =>
      cases action
      exact ⟨_, rfl, same, h.stack⟩
  | error same =>
      cases action
      exact ⟨_, rfl, same, h.stack⟩

theorem step_alike {ops : ShardOps σ ω} {input : Input σ ω} {m m' mid : Machine σ ω} (h : SameBut x m m')
    (noTurn : input ≠ .turn) (action : Machine.step ops input m = some mid) :
    StepsAlike x ops input m m' mid := by
  cases input with
  | registerShard incoming grant => exact ⟨registered_same h action, rfl⟩
  | unregisterShard id =>
      cases action
      exact ⟨⟨_, rfl, unregister_same h id⟩, rfl⟩
  | send target msg =>
      cases action
      exact ⟨⟨_, rfl, directed_same h ..⟩, rfl⟩
  | publish msg =>
      cases action
      obtain ⟨same, count⟩ := fanout_same h msg false none
      exact ⟨⟨_, rfl, same⟩, congrArg (fun n => [(none, n)]) count⟩
  | sendAs asSender target msg =>
      cases action
      exact ⟨⟨_, rfl, directed_same h ..⟩, rfl⟩
  | publishAs asSender msg =>
      cases action
      obtain ⟨same, count⟩ := fanout_same h { msg with sender := asSender } true (some asSender)
      exact ⟨⟨_, rfl, same⟩, congrArg (fun n => [(some asSender, n)]) count⟩
  | kill id =>
      cases action
      exact ⟨⟨_, rfl, kill_same h id⟩, rfl⟩
  | reload id candidateBytes =>
      cases action
      exact ⟨⟨_, rfl, ended_same h (reload_respects ops id candidateBytes)⟩, rfl⟩
  | swapState id candidateBytes =>
      cases action
      exact ⟨⟨_, rfl, ended_same h (swapState_respects ops id candidateBytes)⟩, rfl⟩
  | stop =>
      cases action
      exact ⟨⟨_, rfl, congrArg (fun v : View σ ω => { v with stopRequested := true }) h.world, h.stack⟩, rfl⟩
  | pump =>
      cases action
      exact ⟨⟨_, rfl, pump_same h⟩, rfl⟩
  | turn => exact absurd rfl noTurn
  | handlerSends target msg =>
      rw [Machine.step] at action
      split at action
      · rename_i e trusted frames top
        cases action
        obtain ⟨e', frames', top', same, _⟩ := handler_top h top
        refine ⟨⟨_, by rw [Machine.step, top'], ?_⟩, rfl⟩
        rw [same]
        exact directed_same h ..
      · cases action
  | handlerPublishes msg =>
      rw [Machine.step] at action
      split at action
      · rename_i e trusted frames top
        cases action
        obtain ⟨e', frames', top', target, _⟩ := handler_top h top
        obtain ⟨same, count⟩ := fanout_same h { msg with sender := e.target } true (some e.target)
        refine ⟨⟨_, by rw [Machine.step, top'], ?_⟩, ?_⟩
        · rw [target]
          exact same
        · simp only [Input.recipients, top, top', target]
          exact congrArg (fun n => [(some e.target, n)]) count
      · cases action
  | handlerReturns =>
      rw [Machine.step] at action
      split at action
      · rename_i e trusted frames top
        cases action
        obtain ⟨e', frames', top', _, rest⟩ := handler_top h top
        have next : Machine.step ops .handlerReturns m' =
            some { m' with world := m'.world.delivered e' trusted, stack := frames' } := by
          rw [Machine.step, top']
        exact ⟨⟨_, next, h.world, rest⟩, rfl⟩
      · cases action
  | handlerThrows =>
      rw [Machine.step] at action
      split at action
      · rename_i e trusted frames top
        cases action
        obtain ⟨e', frames', top', _, rest⟩ := handler_top h top
        obtain ⟨frame', frames'', below, first, rest⟩ := List.map_eq_cons_iff.mp rest.symm
        cases frame' with
        | loop =>
            rw [below] at top'
            have next : Machine.step ops .handlerThrows m' = some { m' with stack := frames'' } := by
              rw [Machine.step, top']
            exact ⟨⟨_, next, h.world, rest.symm⟩, rfl⟩
        | handler e'' trusted' => cases first
      · cases action
  | outside change =>
      cases action
      exact ⟨⟨_, rfl, congrArg (fun v : View σ ω => { v with env := change v.env }) h.world, h.stack⟩, rfl⟩

end Zen.Sb
