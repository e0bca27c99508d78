import Mathlib.Data.List.Forall2
import Zen.Proof.Switchboard.Standin
import Zen.Switchboard.Handlers

/-!
# Buses with other Shards behind them

Two buses that show the same and are given the same inputs, but host other objects that stand in for
each other, show the same after every input; and where handlers are programs, whatever these ask.
-/

namespace Zen.Sb
open Lib BusM

variable {σ σ' ω ω' : Type}

/-- What is known of every value that is sent and of what has been published. -/
structure Climate where
  carries : Value → Prop
  knows : Registry → Prop
  grows : ∀ {r r' : Registry} {schema owner : Schema} {inserted : Bool}, knows r →
    r.registerSchema schema = .ok (r', owner, inserted) → knows r'

def Climate.any : Climate := ⟨fun _ => True, fun _ => True, fun _ _ => trivial⟩

structure Standing (L : Likeness σ σ' ω ω') (climate : Climate) (m : Machine σ ω) (m' : Machine σ' ω') : Prop where
  world : Stands L m.world m'.world
  shown : m.shown = m'.shown
  traffic : ∀ e ∈ m.world.sb.queue, climate.carries e.msg.payload
  known : climate.knows m.world.sb.registry

-- the same message, but for NaNs
def Climate.Carried (climate : Climate) (msg msg' : Message) : Prop :=
  msg.canon = msg'.canon ∧ climate.carries msg.payload

-- what a handler sends is stamped with the Shard it belongs to
def Message.unsigned (msg : Message) : Message := { msg with sender := 0 }

/-- The same input, but for what stands in for what. -/
inductive Counterpart (L : Likeness σ σ' ω ω') (climate : Climate) : Input σ ω → Input σ' ω' → Prop
  | registerShard {incoming : Option σ} {incoming' : Option σ'} (same : Option.Rel L.shard incoming incoming') (grant : Grant) :
      Counterpart L climate (.registerShard incoming grant) (.registerShard incoming' grant)
  | unregisterShard (id : ShardId) : Counterpart L climate (.unregisterShard id) (.unregisterShard id)
  | send (target : ShardId) {msg msg' : Message} (same : climate.Carried msg msg') :
      Counterpart L climate (.send target msg) (.send target msg')
  | publish {msg msg' : Message} (same : climate.Carried msg msg') :
      Counterpart L climate (.publish msg) (.publish msg')
  | sendAs (asSender target : ShardId) {msg msg' : Message} (same : climate.Carried msg msg') :
      Counterpart L climate (.sendAs asSender target msg) (.sendAs asSender target msg')
  | publishAs (asSender : ShardId) {msg msg' : Message} (same : climate.Carried msg msg') :
      Counterpart L climate (.publishAs asSender msg) (.publishAs asSender msg')
  | kill (id : ShardId) : Counterpart L climate (.kill id) (.kill id)
  | reload (id : ShardId) (candidateBytes : ByteString) :
      Counterpart L climate (.reload id candidateBytes) (.reload id candidateBytes)
  | swapState (id : ShardId) (candidateBytes : ByteString) :
      Counterpart L climate (.swapState id candidateBytes) (.swapState id candidateBytes)
  | stop : Counterpart L climate .stop .stop
  | pump : Counterpart L climate .pump .pump
  | turn : Counterpart L climate .turn .turn
  | handlerSends (target : ShardId) {msg msg' : Message} (same : climate.Carried msg.unsigned msg'.unsigned) :
      Counterpart L climate (.handlerSends target msg) (.handlerSends target msg')
  | handlerPublishes {msg msg' : Message} (same : climate.Carried msg.unsigned msg'.unsigned) :
      Counterpart L climate (.handlerPublishes msg) (.handlerPublishes msg')
  | handlerReturns : Counterpart L climate .handlerReturns .handlerReturns
  | handlerThrows : Counterpart L climate .handlerThrows .handlerThrows
  | outside {change : ω → ω} {change' : ω' → ω'} (keeps : ∀ {env env'}, L.kept env env' → L.kept (change env) (change' env')) :
      Counterpart L climate (.outside change) (.outside change')

variable {ops : ShardOps σ ω} {ops' : ShardOps σ' ω'} {L : Likeness σ σ' ω ω'} {climate : Climate} {m : Machine σ ω} {m' : Machine σ' ω'}

/-! ## What is sent -/

theorem appended_shown (sb : Switchboard σ) (es : List Envelope) :
    (sb.appended es).shown = sb.shown.appended (es.map Envelope.canon) := by
  simp [Switchboard.appended, Switchboard.shown]

/-- Messages are put on the queue. -/
theorem Standing.enqueued (h : Standing L climate m m') {sb : Switchboard σ} {sb' : Switchboard σ'}
    {es es' : List Envelope} (puts : sb = m.world.sb.appended es) (puts' : sb' = m'.world.sb.appended es')
    (same : es.map Envelope.canon = es'.map Envelope.canon) (carried : ∀ e ∈ es, climate.carries e.msg.payload)
    (origin : Option ShardId) : Standing L climate (m.enqueued sb origin) (m'.enqueued sb' origin) := by
  subst puts
  subst puts'
  have world : (m.enqueued (m.world.sb.appended es) origin).shown = (m'.enqueued (m'.world.sb.appended es') origin).shown := by
    rw [enqueued_shown, enqueued_shown, appended_shown, appended_shown, same, h.shown,
      show m.world.sb.shown = m'.world.sb.shown from congrArg (fun m => m.world.sb) h.shown]
  refine ⟨⟨congrArg Machine.world world, h.world.twins, h.world.env⟩, world, ?_, h.known⟩
  intro e he
  rcases List.mem_append.mp he with old | new
  · exact h.traffic e old
  · exact carried e new

theorem sent_canon {msg msg' : Message} (same : msg.canon = msg'.canon) (asSender : ShardId) :
    ({ msg with sender := asSender } : Message).canon = ({ msg' with sender := asSender } : Message).canon :=
  congrArg (fun msg : Message => { msg with sender := asSender }) same

theorem addressed_canon {msg msg' : Message} (same : msg.canon = msg'.canon) (gated : Bool)
    {records : List (ShardRecord σ)} {records' : List (ShardRecord σ')}
    (shown : records.map ShardRecord.shown = records'.map ShardRecord.shown) (seq : Nat) :
    (addressed msg gated records seq).map Envelope.canon = (addressed msg' gated records' seq).map Envelope.canon := by
  induction records generalizing records' seq with
  | nil =>
      cases records' with
      | nil => rfl
      | cons _ _ => cases shown
  | cons rec records ih =>
      cases records' with
      | nil => cases shown
      | cons rec' records' =>
          obtain ⟨first, rest⟩ := List.cons.inj shown
          have id : rec.id = rec'.id := congrArg ShardRecord.id first
          have later := ih rest (seq + 1)
          simp only [addressed, List.zipIdx_cons, List.map_cons, Envelope.canon, id, same] at later ⊢
          rw [later]

theorem recipient_shown (msg : Message) (rec : ShardRecord σ) : recipient msg.canon rec.shown = recipient msg rec := by
  simp only [recipient, acceptMatch_shown, msg.canon_name, msg.canon_version]
  rfl

theorem recipients_shown (msg : Message) (records : List (ShardRecord σ)) :
    (records.filter (recipient msg)).map ShardRecord.shown = (records.map ShardRecord.shown).filter (recipient msg.canon) := by
  rw [List.filter_map]
  congr 1
  apply List.filter_congr
  intro rec _
  exact (recipient_shown msg rec).symm

theorem Standing.recipients (h : Standing L climate m m') {msg msg' : Message} (same : msg.canon = msg'.canon) :
    (m.world.sb.shards.values.filter (recipient msg)).map ShardRecord.shown =
      (m'.world.sb.shards.values.filter (recipient msg')).map ShardRecord.shown := by
  have shards : m.world.sb.shards.map ShardRecord.shown = m'.world.sb.shards.map ShardRecord.shown :=
    congrArg (fun w : World Unit Unit => w.sb.shards) h.world.shown
  rw [recipients_shown, recipients_shown, same, ← OrdMap.values_map, ← OrdMap.values_map, shards]

theorem Standing.nextSeq (h : Standing L climate m m') : m.world.sb.nextSeq = m'.world.sb.nextSeq :=
  congrArg (fun w : World Unit Unit => w.sb.nextSeq) h.world.shown

theorem Standing.directed (h : Standing L climate m m') {msg msg' : Message} (same : climate.Carried msg msg')
    (target : ShardId) (gated : Bool) (origin : Option ShardId) : Standing L climate
      (m.enqueued (m.world.sb.enqueueDirected target msg gated) origin)
      (m'.enqueued (m'.world.sb.enqueueDirected target msg' gated) origin) := by
  refine h.enqueued (enqueueDirected_eq ..) (enqueueDirected_eq ..) ?_ ?_ origin
  · simp only [List.map_cons, List.map_nil, Envelope.canon, same.1, h.nextSeq]
  · intro e he
    rw [List.mem_singleton.mp he]
    exact same.2

theorem Standing.fannedOut (h : Standing L climate m m') {msg msg' : Message} (same : climate.Carried msg msg')
    (gated : Bool) (origin : Option ShardId) : Standing L climate
      (m.enqueued (m.world.sb.fanout msg gated).1 origin) (m'.enqueued (m'.world.sb.fanout msg' gated).1 origin) := by
  refine h.enqueued (congrArg Prod.fst (fanout_eq ..)) (congrArg Prod.fst (fanout_eq ..)) ?_ ?_ origin
  · rw [h.nextSeq]
    exact addressed_canon same.1 gated (h.recipients same.1) _
  · intro e he
    rw [(mem_addressed he).1]
    exact same.2

theorem Climate.Carried.stamped {msg msg' : Message} (same : climate.Carried msg msg') (asSender : ShardId) :
    climate.Carried { msg with sender := asSender } { msg' with sender := asSender } :=
  ⟨sent_canon same.1 asSender, same.2⟩

/-! ## Operations -/

theorem registerSchema_grows (climate : Climate) (schema : Schema) {w : World σ ω} (known : climate.knows w.sb.registry) :
    wp (BusM.registerSchema schema) w fun _ w' => climate.knows w'.sb.registry := by
  simp only [wp, BusM.registerSchema, EStateM.run]
  cases registered : w.sb.registry.registerSchema schema with
  | error e => exact known
  | ok result => exact climate.grows known registered

theorem registerAccept_grows (climate : Climate) (declared : List (Option Schema)) {w : World σ ω}
    (known : climate.knows w.sb.registry) :
    wp (registerAccept declared) w fun _ w' => climate.knows w'.sb.registry := by
  induction declared generalizing w with
  | nil => exact known
  | cons entry declared ih =>
      cases entry with
      | none => exact known
      | some schema =>
          rw [registerAccept, wp_bind]
          apply wp_mono (registerSchema_grows climate schema known)
          rintro (e | owner) w₁ known₁
          · exact known₁
          · rw [andThen_ok, wp_bind]
            apply wp_mono (ih known₁)
            rintro (e | owners) w₂ known₂
            · exact known₂
            · exact known₂

theorem registerShard_grows (climate : Climate) (ops : ShardOps σ ω) (incoming : Option σ) (grant : Grant)
    {w : World σ ω} (known : climate.knows w.sb.registry) :
    wp (registerShard ops incoming grant) w fun _ w' => climate.knows w'.sb.registry := by
  cases incoming with
  | none => exact known
  | some shard =>
      rw [registerShard, wp_bind, wp_callback]
      refine wp_intro ?_ fun e env _ => known
      intro declared env _
      rw [andThen_ok, wp_bind]
      apply wp_mono (registerAccept_grows climate declared (w := { w with env }) known)
      rintro (e | accept) w₁ known₁
      · exact known₁
      rw [andThen_ok, wp_bind, wp_callback]
      refine wp_intro ?_ fun e env _ => known₁
      intro snap env' _
      rw [andThen_ok, wp_bind]
      apply wp_mono (registerSchema_grows climate snap.schema (w := { w₁ with env := env' }) known₁)
      rintro (e | owner) w₂ known₂
      · exact known₂
      rw [andThen_ok, wp_bind, wp_gate, andThen_ok]
      cases admitLive snap snap.schema .firstError with
      | reject errors => exact known₂
      | accept v => exact known₂

theorem swapState_registry (ops : ShardOps σ ω) (id : ShardId) (candidateBytes : ByteString) (w : World σ ω) :
    (leaves ((swapState ops id candidateBytes).run w)).sb.registry = w.sb.registry := by
  refine wp_leaves (Q := fun w' => w'.sb.registry = w.sb.registry) (wp_mono (swapState_spec ops id candidateBytes w) ?_)
  rintro r w' ⟨_, unrevived | ⟨rec, state, _, revived⟩⟩
  · rw [unrevived.bus]
  · have bus := revived.bus
    cases r with
    | ok out => rw [bus.2]
    | error e => rw [bus]

theorem reload_registry (ops : ShardOps σ ω) (id : ShardId) (candidateBytes : ByteString) (w : World σ ω) :
    (leaves ((reload ops id candidateBytes).run w)).sb.registry = w.sb.registry := by
  refine wp_leaves (Q := fun w' => w'.sb.registry = w.sb.registry) (wp_mono (reload_spec ops id candidateBytes w) ?_)
  rintro r w' ⟨_, unrevived | ⟨rec, state, f, _, revived⟩⟩
  · rw [unrevived.bus]
  · have bus := revived.bus
    cases r with
    | ok out => rw [bus.2]
    | error e => rw [bus]

/-- A step that leaves queue and stack alone. -/
theorem Standing.within (h : Standing L climate m m') {w : World σ ω} {w' : World σ' ω'} (world : Stands L w w')
    (queue : w.sb.queue = m.world.sb.queue) (known : climate.knows w.sb.registry) :
    Standing L climate { m with world := w } { m' with world := w' } := by
  refine ⟨world, ?_, ?_, known⟩
  · have shown : ({ m.shown with world := w.shown } : Machine Unit Unit) = { m'.shown with world := w'.shown } := by
      rw [h.shown, world.shown]
    exact shown
  · intro e he
    exact h.traffic e (queue ▸ he)

/-- Other objects are kept, and said to stand in for each other. -/
theorem Standing.renewed {L' : Likeness σ σ' ω ω'} (h : Standing L climate m m') {env : ω} {env' : ω'}
    (keeps : ∀ {k rec rec'}, m.world.sb.find k = some rec → m'.world.sb.find k = some rec' → Behind L rec rec' →
      Behind L' rec rec') (kept : L'.kept env env') : Standing L' climate
        { m with world := { m.world with env } } { m' with world := { m'.world with env := env' } } :=
  ⟨⟨h.world.shown, fun found found' => keeps found found' (h.world.twins found found'), kept⟩, h.shown, h.traffic, h.known⟩

theorem Standing.ended {β : Type} (h : Standing L climate m m') {r : EStateM.Result Exn (World σ ω) β}
    {r' : EStateM.Result Exn (World σ' ω') β} (matched : Matched (Stands L) Eq r r')
    (queue : (leaves r).sb.queue = m.world.sb.queue) (known : climate.knows (leaves r).sb.registry) :
    Standing L climate (m.ended r) (m'.ended r') := by
  cases matched with
  | ok _ world => exact h.within world queue known
  | error world => exact h.within world queue known

theorem Standing.stack (h : Standing L climate m m') :
    m.stack.map Frame.canon = m'.stack.map Frame.canon := congrArg Machine.stack h.shown

theorem Stands.unregistered {w : World σ ω} {w' : World σ' ω'} (h : Stands L w w') (id : ShardId) :
    Stands L { w with sb := (w.sb.unregisterShard id).1 } { w' with sb := (w'.sb.unregisterShard id).1 } := by
  refine ⟨?_, ?_, h.env⟩
  · have bus : w.sb.shown = w'.sb.shown := congrArg World.sb h.shown
    have shown := congrArg (fun w : World Unit Unit => { w with sb := (w.sb.unregisterShard id).1 }) h.shown
    simpa [World.shown, unregisterShard_shown] using shown
  · intro k rec rec' found found'
    by_cases here : k = id
    · subst here
      simp only [Switchboard.unregisterShard] at found
      cases there : w.sb.find k with
      | none =>
          rw [there] at found
          simp only [there] at found
          cases found
      | some old =>
          rw [there] at found
          simp only [Switchboard.find, OrdMap.find_erase, if_pos] at found
          cases found
    · have same : ∀ {ρ : Type} (sb : Switchboard ρ), (sb.unregisterShard id).1.find k = sb.find k := by
        intro ρ sb
        unfold Switchboard.unregisterShard
        cases sb.find id with
        | none => rfl
        | some old => rw [Switchboard.find, OrdMap.find_erase, if_neg here]; rfl
      rw [same] at found found'
      exact h.twins found found'

theorem find_kill (w : World σ ω) (id k : ShardId) : (w.kill id).sb.find k =
    if k = id then (w.sb.find k).map fun rec => { rec with alive := false } else w.sb.find k := by
  unfold World.kill
  cases found : w.sb.find id with
  | none =>
      by_cases here : k = id
      · rw [if_pos here, here, found]
        rfl
      · rw [if_neg here]
  | some rec => exact OrdMap.find_update ..

theorem kill_env (w : World σ ω) (id : ShardId) : (w.kill id).env = w.env := by
  unfold World.kill
  cases w.sb.find id <;> rfl

theorem Stands.killed {w : World σ ω} {w' : World σ' ω'} (h : Stands L w w') (id : ShardId) :
    Stands L (w.kill id) (w'.kill id) := by
  refine ⟨by rw [kill_shown, kill_shown, h.shown], ?_, by rw [kill_env, kill_env]; exact h.env⟩
  intro k rec rec' found found'
  rw [find_kill] at found found'
  split at found
  · rename_i here
    rw [if_pos here] at found'
    obtain ⟨old, there, rfl⟩ := Option.map_eq_some_iff.mp found
    obtain ⟨old', there', rfl⟩ := Option.map_eq_some_iff.mp found'
    obtain ⟨shard, state, doors⟩ := h.twins there there'
    exact ⟨shard, state, doors⟩
  · rename_i other
    rw [if_neg other] at found'
    exact h.twins found found'

theorem kill_bus (w : World σ ω) (id : ShardId) :
    (w.kill id).sb.queue = w.sb.queue ∧ (w.kill id).sb.registry = w.sb.registry := by
  unfold World.kill
  cases w.sb.find id <;> exact ⟨rfl, rfl⟩

theorem deliverOne_bus (w : World σ ω) (e : Envelope) :
    (w.deliverOne e).1.sb.shards = w.sb.shards ∧ (w.deliverOne e).1.sb.queue = w.sb.queue ∧
      (w.deliverOne e).1.sb.registry = w.sb.registry ∧ (w.deliverOne e).1.env = w.env := by
  unfold World.deliverOne
  split
  · exact ⟨rfl, rfl, rfl, rfl⟩
  · split
    · exact ⟨rfl, rfl, rfl, rfl⟩
    · split
      · exact ⟨rfl, rfl, rfl, rfl⟩
      · split
        · exact ⟨rfl, rfl, rfl, rfl⟩
        · simp only
          split <;> exact ⟨rfl, rfl, rfl, rfl⟩

theorem Stands.popped (h : Standing L climate m m') {e e' : Envelope} {queue queue' : List Envelope}
    (same : queue.map Envelope.canon = queue'.map Envelope.canon) (front : e.canon = e'.canon) :
    Stands L (m.popped e queue) (m'.popped e' queue') := by
  refine ⟨?_, h.world.twins, h.world.env⟩
  have seq : e.seq = e'.seq := (show e.canon.seq = e'.canon.seq by rw [front])
  have shown := congrArg (fun w : World Unit Unit => { w with
    sb := { w.sb with queue := queue.map Envelope.canon }
    log := { w.log with dequeued := w.log.dequeued ++ [e.seq] } }) h.world.shown
  simpa [World.shown, Machine.popped, Switchboard.shown, Log.canon, same, seq] using shown

theorem Standing.idle (h : Standing L climate m m') {frames frames' : List Frame}
    (rest : frames.map Frame.canon = frames'.map Frame.canon) : Standing L climate
      { m.withBus { m.world.sb with inDispatch := false } with stack := frames }
      { m'.withBus { m'.world.sb with inDispatch := false } with stack := frames' } := by
  have shown : ({ m.shown.withBus { m.shown.world.sb with inDispatch := false } with
      stack := frames.map Frame.canon } : Machine Unit Unit) =
        { m'.shown.withBus { m'.shown.world.sb with inDispatch := false } with stack := frames'.map Frame.canon } := by
    rw [h.shown, rest]
  exact ⟨⟨congrArg Machine.world shown, h.world.twins, h.world.env⟩, shown, h.traffic, h.known⟩

/-- An envelope is taken from the queue and the message in it brought up to the handler. -/
theorem Standing.brought (h : Standing L climate m m') {e e' : Envelope} {queue queue' : List Envelope}
    (waits : m.world.sb.queue = e :: queue) (front : e.canon = e'.canon)
    (later : queue.map Envelope.canon = queue'.map Envelope.canon) {w : World σ ω} {w' : World σ' ω'}
    {trusted trusted' : Option Message} (result : (m.popped e queue).deliverOne e = (w, trusted))
    (result' : (m'.popped e' queue').deliverOne e' = (w', trusted')) :
    Standing L climate { m with world := w } { m' with world := w' } ∧
      trusted.map Message.canon = trusted'.map Message.canon := by
  have popped := Stands.popped h later front
  have delivered := deliverOne_shown (m.popped e queue) e
  rw [popped.shown, front, ← deliverOne_shown (m'.popped e' queue') e'] at delivered
  obtain ⟨shards, kept, published, env⟩ := deliverOne_bus (m.popped e queue) e
  obtain ⟨shards', _, _, env'⟩ := deliverOne_bus (m'.popped e' queue') e'
  rw [result] at delivered shards kept published env
  rw [result'] at delivered shards' env'
  obtain ⟨world, called⟩ := Prod.mk.inj delivered
  have stands : Stands L w w' := by
    refine ⟨world, ?_, ?_⟩
    · intro k rec rec' found found'
      rw [Switchboard.find, shards] at found
      rw [Switchboard.find, shards'] at found'
      exact h.world.twins found found'
    · rw [env, env']
      exact h.world.env
  refine ⟨⟨stands, ?_, ?_, ?_⟩, called⟩
  · have shown : ({ m.shown with world := w.shown } : Machine Unit Unit) = { m'.shown with world := w'.shown } := by
      rw [h.shown, world]
    exact shown
  · intro e₁ he
    rw [kept] at he
    exact h.traffic e₁ (waits ▸ List.mem_cons_of_mem e he)
  · rw [published]
    exact h.known

theorem Standing.pushed (h : Standing L climate m m') {frame frame' : Frame} (same : frame.canon = frame'.canon) :
    Standing L climate { m with stack := frame :: m.stack } { m' with stack := frame' :: m'.stack } := by
  have shown : ({ m.shown with stack := frame.canon :: m.shown.stack } : Machine Unit Unit) =
      { m'.shown with stack := frame'.canon :: m'.shown.stack } := by
    rw [h.shown, same]
  exact ⟨h.world, shown, h.traffic, h.known⟩

theorem Standing.turned (h : Standing L climate m m') {frames frames' : List Frame}
    (rest : frames.map Frame.canon = frames'.map Frame.canon) :
    Standing L climate (m.turn frames) (m'.turn frames') := by
  have bus : m.world.sb.shown = m'.world.sb.shown := congrArg World.sb h.world.shown
  have queue : m.world.sb.queue.map Envelope.canon = m'.world.sb.queue.map Envelope.canon :=
    congrArg Switchboard.queue bus
  have stop : m.world.sb.stopRequested = m'.world.sb.stopRequested := congrArg Switchboard.stopRequested bus
  have idle := h.idle rest
  unfold Machine.turn
  cases waits : m.world.sb.queue with
  | nil =>
      rw [waits] at queue
      cases waits' : m'.world.sb.queue with
      | nil => exact idle
      | cons _ _ =>
          rw [waits'] at queue
          cases queue
  | cons e queue₁ =>
      rw [waits] at queue
      cases waits' : m'.world.sb.queue with
      | nil =>
          rw [waits'] at queue
          cases queue
      | cons e' queue₁' =>
          rw [waits'] at queue
          obtain ⟨front, later⟩ := List.cons.inj queue
          simp only
          by_cases stopped : m.world.sb.stopRequested = true
          · rw [if_pos stopped, if_pos (stop ▸ stopped)]
            exact idle
          · rw [if_neg stopped, if_neg (stop ▸ stopped)]
            cases result : (m.popped e queue₁).deliverOne e with
            | mk w trusted =>
                cases result' : (m'.popped e' queue₁').deliverOne e' with
                | mk w' trusted' =>
                    obtain ⟨brought, called⟩ := h.brought waits front later result result'
                    cases trusted with
                    | none =>
                        cases trusted' with
                        | none => exact brought
                        | some _ => cases called
                    | some msg =>
                        cases trusted' with
                        | none => cases called
                        | some msg' =>
                            have frame : (Frame.handler e msg).canon = (Frame.handler e' msg').canon := by
                              rw [Frame.canon, Frame.canon, front, Option.some.inj called]
                            exact brought.pushed frame

inductive SameTop : List Frame → List Frame → Prop
  | nil : SameTop [] []
  | loop {frames frames' : List Frame} (rest : frames.map Frame.canon = frames'.map Frame.canon) :
      SameTop (.loop :: frames) (.loop :: frames')
  | handler {e e' : Envelope} {trusted trusted' : Message} {frames frames' : List Frame} (envelope : e.canon = e'.canon)
      (message : trusted.canon = trusted'.canon) (rest : frames.map Frame.canon = frames'.map Frame.canon) :
      SameTop (.handler e trusted :: frames) (.handler e' trusted' :: frames')

theorem sameTop {stack stack' : List Frame} (same : stack.map Frame.canon = stack'.map Frame.canon) :
    SameTop stack stack' := by
  cases stack with
  | nil =>
      cases stack' with
      | nil => exact .nil
      | cons _ _ => cases same
  | cons frame frames =>
      cases stack' with
      | nil => cases same
      | cons frame' frames' =>
          obtain ⟨first, rest⟩ := List.cons.inj same
          cases frame with
          | loop =>
              cases frame' with
              | loop => exact .loop rest
              | handler _ _ => cases first
          | handler e trusted =>
              cases frame' with
              | loop => cases first
              | handler e' trusted' =>
                  obtain ⟨envelope, message⟩ := Frame.handler.inj first
                  exact .handler envelope message rest

theorem Envelope.target_canon {e e' : Envelope} (same : e.canon = e'.canon) : e.target = e'.target :=
  (show e.canon.target = e'.canon.target by rw [same])

/-- A handler ends, whatever this does to what the bus shows. -/
theorem Standing.left (h : Standing L climate m m') {w : World σ ω} {w' : World σ' ω'} (shown : w.shown = w'.shown)
    (shards : w.sb = { m.world.sb with journal := w.sb.journal })
    (shards' : w'.sb = { m'.world.sb with journal := w'.sb.journal }) (env : w.env = m.world.env)
    (env' : w'.env = m'.world.env) {frames frames' : List Frame}
    (rest : frames.map Frame.canon = frames'.map Frame.canon) : Standing L climate
      { m with world := w, stack := frames } { m' with world := w', stack := frames' } := by
  refine ⟨⟨shown, ?_, ?_⟩, ?_, ?_, ?_⟩
  · intro k rec rec' found found'
    rw [shards] at found
    rw [shards'] at found'
    exact h.world.twins found found'
  · rw [env, env']
    exact h.world.env
  · have whole : ({ m.shown with world := w.shown, stack := frames.map Frame.canon } : Machine Unit Unit) =
        { m'.shown with world := w'.shown, stack := frames'.map Frame.canon } := by
      rw [h.shown, shown, rest]
    exact whole
  · rw [shards]
    exact h.traffic
  · rw [shards]
    exact h.known

/-! ## Steps -/

theorem step_unregister (h : Standing L climate m m') (id : ShardId) : Standing L climate
    (m.withBus (m.world.sb.unregisterShard id).1) (m'.withBus (m'.world.sb.unregisterShard id).1) := by
  refine h.within (h.world.unregistered id) ?_ ?_
  · show (m.world.sb.unregisterShard id).1.queue = m.world.sb.queue
    unfold Switchboard.unregisterShard
    cases m.world.sb.find id <;> rfl
  · show climate.knows (m.world.sb.unregisterShard id).1.registry
    have registry : (m.world.sb.unregisterShard id).1.registry = m.world.sb.registry := by
      unfold Switchboard.unregisterShard
      cases m.world.sb.find id <;> rfl
    rw [registry]
    exact h.known

theorem step_register (standin : Standin ops ops' L) (h : Standing L climate m m') {incoming : Option σ}
    {incoming' : Option σ'} (same : Option.Rel L.shard incoming incoming') (grant : Grant) :
    Option.Rel (Standing L climate) (Machine.step ops (.registerShard incoming grant) m)
      (Machine.step ops' (.registerShard incoming' grant) m') := by
  have matched := registerShard_stands standin same grant m.world m'.world h.world
  have spec := registerShard_spec ops incoming grant m.world
  have keeps := registerShard_grows climate ops incoming grant h.known
  unfold Machine.step
  simp only
  unfold wp at spec keeps
  generalize (registerShard ops incoming grant).run m.world = r at matched spec keeps
  generalize (registerShard ops' incoming' grant).run m'.world = r' at matched
  cases matched with
  | ok equal world =>
      rename_i id _ w w'
      subst equal
      have within := h.within world (congrArg Mail.queue spec.1) keeps
      have shown : ({ m.shown with world := w.shown, registered := m.registered ++ [(id, grant)] } : Machine Unit Unit) =
          { m'.shown with world := w'.shown, registered := m'.registered ++ [(id, grant)] } := by
        rw [h.shown, world.shown, show m.registered = m'.registered from congrArg Machine.registered h.shown]
      exact .some ⟨world, shown, within.traffic, keeps⟩
  | error world => exact .some (h.within world (congrArg Mail.queue spec.1) keeps)

theorem step_pump (h : Standing L climate m m') : Standing L climate m.pump m'.pump := by
  have dispatching : m.world.sb.inDispatch = m'.world.sb.inDispatch :=
    congrArg (fun w : World Unit Unit => w.sb.inDispatch) h.world.shown
  unfold Machine.pump
  by_cases busy : m.world.sb.inDispatch = true
  · rw [if_pos busy, if_pos (dispatching ▸ busy)]
    exact h
  · rw [if_neg busy, if_neg (dispatching ▸ busy)]
    have shown : ({ m.shown.withBus { m.shown.world.sb with inDispatch := true, stopRequested := false } with
        stack := .loop :: m.shown.stack } : Machine Unit Unit) =
          { m'.shown.withBus { m'.shown.world.sb with inDispatch := true, stopRequested := false } with
            stack := .loop :: m'.shown.stack } := by
      rw [h.shown]
    exact ⟨⟨congrArg Machine.world shown, h.world.twins, h.world.env⟩, shown, h.traffic, h.known⟩

theorem step_stands (standin : Standin ops ops' L) {input : Input σ ω} {input' : Input σ' ω'}
    (same : Counterpart L climate input input') (h : Standing L climate m m') :
    Option.Rel (Standing L climate) (Machine.step ops input m) (Machine.step ops' input' m') := by
  have tops := sameTop h.stack
  cases same with
  | registerShard same grant => exact step_register standin h same grant
  | unregisterShard id => exact .some (step_unregister h id)
  | send target same => exact .some (h.directed same target false none)
  | publish same => exact .some (h.fannedOut same false none)
  | sendAs asSender target same => exact .some (h.directed (same.stamped asSender) target true (some asSender))
  | publishAs asSender same => exact .some (h.fannedOut (same.stamped asSender) true (some asSender))
  | kill id =>
      refine .some (h.within (h.world.killed id) (kill_bus m.world id).1 ?_)
      rw [(kill_bus m.world id).2]
      exact h.known
  | reload id candidateBytes =>
      refine .some (h.ended (reload_stands standin id candidateBytes _ _ h.world) ?_ ?_)
      · exact wp_leaves (wp_mono (reload_spec ops id candidateBytes m.world) fun _ _ spec => congrArg Mail.queue spec.1)
      · rw [reload_registry]
        exact h.known
  | swapState id candidateBytes =>
      refine .some (h.ended (swapState_stands standin id candidateBytes _ _ h.world) ?_ ?_)
      · exact wp_leaves (wp_mono (swapState_spec ops id candidateBytes m.world) fun _ _ spec => congrArg Mail.queue spec.1)
      · rw [swapState_registry]
        exact h.known
  | stop =>
      refine .some ⟨⟨?_, h.world.twins, h.world.env⟩, ?_, h.traffic, h.known⟩
      · exact congrArg (fun w : World Unit Unit => { w with sb := { w.sb with stopRequested := true } }) h.world.shown
      · exact congrArg (fun m : Machine Unit Unit => m.withBus { m.world.sb with stopRequested := true }) h.shown
  | pump => exact .some (step_pump h)
  | turn =>
      simp only [Machine.step]
      generalize m.stack = stack at tops
      generalize m'.stack = stack' at tops
      cases tops with
      | nil => exact .none
      | loop rest => exact .some (h.turned rest)
      | handler _ _ _ => exact .none
  | handlerSends target same =>
      simp only [Machine.step]
      generalize m.stack = stack at tops
      generalize m'.stack = stack' at tops
      cases tops with
      | nil => exact .none
      | loop _ => exact .none
      | handler envelope _ _ =>
          simp only [Envelope.target_canon envelope]
          exact .some (h.directed (same.stamped _) target true _)
  | handlerPublishes same =>
      simp only [Machine.step]
      generalize m.stack = stack at tops
      generalize m'.stack = stack' at tops
      cases tops with
      | nil => exact .none
      | loop _ => exact .none
      | handler envelope _ _ =>
          simp only [Envelope.target_canon envelope]
          exact .some (h.fannedOut (same.stamped _) true _)
  | handlerReturns =>
      simp only [Machine.step]
      generalize m.stack = stack at tops
      generalize m'.stack = stack' at tops
      cases tops with
      | nil => exact .none
      | loop _ => exact .none
      | @handler e e' trusted trusted' _ _ envelope message rest =>
          have shown : (m.world.delivered e trusted).shown = (m'.world.delivered e' trusted').shown := by
            rw [delivered_shown, delivered_shown, h.world.shown, envelope, message]
          exact .some (h.left shown rfl rfl rfl rfl rest)
  | handlerThrows =>
      simp only [Machine.step]
      generalize m.stack = stack at tops
      generalize m'.stack = stack' at tops
      cases tops with
      | nil => exact .none
      | loop _ => exact .none
      | handler _ _ rest =>
          cases sameTop rest with
          | nil => exact .none
          | loop later => exact .some (h.left h.world.shown rfl rfl rfl rfl later)
          | handler _ _ _ => exact .none
  | outside keeps =>
      exact .some ⟨⟨h.world.shown, h.world.twins, keeps h.world.env⟩, h.shown, h.traffic, h.known⟩

theorem Standing.start {env : ω} {env' : ω'} (related : L.kept env env') (known : climate.knows {}) :
    Standing L climate (Machine.start env : Machine σ ω) (Machine.start env' : Machine σ' ω') := by
  refine ⟨⟨rfl, ?_, related⟩, rfl, ?_, known⟩
  · intro k rec rec' found
    cases found
  · intro e he
    cases he

theorem exec_stands (standin : Standin ops ops' L) {inputs : List (Input σ ω)} {inputs' : List (Input σ' ω')}
    (same : List.Forall₂ (Counterpart L climate) inputs inputs') (h : Standing L climate m m') :
    Option.Rel (Standing L climate) (exec (Machine.step ops) inputs m) (exec (Machine.step ops') inputs' m') := by
  induction same generalizing m m' with
  | nil => exact .some h
  | cons first _ ih =>
      have step := step_stands standin first h
      rw [exec, exec]
      generalize Machine.step ops _ m = r at step
      generalize Machine.step ops' _ m' = r' at step
      cases step with
      | none => exact .none
      | some next => exact ih next

theorem shown_eq {r : Option (Machine σ ω)} {r' : Option (Machine σ' ω')}
    (related : Option.Rel (Standing L climate) r r') : r.map Machine.shown = r'.map Machine.shown := by
  cases related with
  | none => rfl
  | some h => exact congrArg some h.shown

theorem buses_show_the_same (standin : Standin ops ops' L) {env : ω} {env' : ω'} (related : L.kept env env')
    {inputs : List (Input σ ω)} {inputs' : List (Input σ' ω')}
    (same : List.Forall₂ (Counterpart L .any) inputs inputs') :
    (exec (Machine.step ops) inputs (.start env)).map Machine.shown =
      (exec (Machine.step ops') inputs' (.start env')).map Machine.shown :=
  shown_eq (exec_stands standin same (.start related trivial))

def tallyOf (n : Int64) : Value := ⟨⟨Proof.Point.raw, [some (.int n)]⟩, Eq.refl true⟩

def policyOf (n : Int64) : Value :=
  ⟨⟨lifecyclePolicySchema.raw, [some (.int n), some (.bool true)]⟩, Eq.refl true⟩

def tallyIn (v : Value) : Except Exn Int64 :=
  match v.get "x" with
  | some (.int n) => .ok n
  | _ => .error (.runtimeError "x")

-- one kind of Shard keeps a number, the other the value that is its snapshot
def numberOps : ShardOps Unit Int64 where
  acceptedSchemas _ := pure [some Proof.Point]
  snapshot _ := fun n => .ok (tallyOf n) n
  policy _ := pure (policyOf 2)
  revive _ v := fun n =>
    match tallyIn v with
    | .ok next => .ok () next
    | .error e => .error e n

def valueOps : ShardOps Unit Value where
  acceptedSchemas _ := pure [some Proof.Point]
  snapshot _ := fun kept => .ok kept kept
  policy _ := pure (policyOf 2)
  revive _ v := fun kept =>
    match tallyIn v with
    | .ok next => .ok () (tallyOf next)
    | .error e => .error e kept

def tallyLikeness : Likeness Unit Unit Int64 Value where
  shard _ _ := True
  kept n v := v = tallyOf n
  state _ _ _ := True
  doors _ _ := True

theorem tallyIn_canon (v : Value) : tallyIn v.canon = tallyIn v := by
  unfold tallyIn
  rw [Value.get_canon]
  cases v.get "x" with
  | none => rfl
  | some c => cases c <;> rfl

theorem tally_standin : Standin numberOps valueOps tallyLikeness where
  acceptedSchemas _ := .pure ⟨rfl, trivial⟩
  snapshot _ := by
    rintro n _ rfl
    exact .ok ⟨rfl, trivial⟩ rfl
  policy _ := .pure rfl
  decoded _ _ := trivial
  revive := by
    intro _ _ _ v v' _ _ alike
    rintro n _ rfl
    have same : tallyIn v = tallyIn v' := by
      rw [← tallyIn_canon v, ← tallyIn_canon v', show v.canon = v'.canon from alike]
    simp only [EStateM.run, numberOps, valueOps, same]
    cases tallyIn v' with
    | ok next => exact .ok trivial rfl
    | error e => exact .error rfl

def tallyRun (change : ω → ω) : List (Input Unit ω) :=
  [.registerShard (some ()) {}, .send 1 ⟨tallyOf 5, 0, 0, 0⟩, .pump, .turn, .outside change, .handlerReturns, .kill 1,
    .turn, .reload 1 []]

theorem buses_show_the_same_tally :
    (exec (Machine.step numberOps) (tallyRun fun n => n + 5) (.start 0)).map Machine.shown =
      (exec (Machine.step valueOps) (tallyRun fun v => tallyOf ((tallyIn v).toOption.getD 0 + 5)) (.start (tallyOf 0))).map
        Machine.shown ∧
    (exec (Machine.step numberOps) (tallyRun fun n => n + 5) (.start 0)).isSome := by
  refine ⟨buses_show_the_same tally_standin rfl ?_, by decide +kernel⟩
  refine .cons (.registerShard (.some trivial) _) (.cons (.send _ ⟨rfl, trivial⟩) (.cons .pump (.cons .turn ?_)))
  refine .cons (.outside ?_) (.cons .handlerReturns (.cons (.kill 1) (.cons .turn (.cons (.reload 1 []) .nil))))
  rintro n _ rfl
  rfl

/-! ## Handlers -/

inductive Climate.Asks (climate : Climate) : BusCall → BusCall → Prop
  | send (target : ShardId) {msg msg' : Message} (same : climate.Carried msg.unsigned msg'.unsigned) :
      climate.Asks (.send target msg) (.send target msg')
  | publish {msg msg' : Message} (same : climate.Carried msg.unsigned msg'.unsigned) :
      climate.Asks (.publish msg) (.publish msg')

inductive Answered : BusAnswer → BusAnswer → Prop
  | ok (n : Nat) : Answered (.ok n) (.ok n)

structure Likeness.Ends (L : Likeness σ σ' ω ω') (x : Except Exn Unit × ω) (y : Except Exn Unit × ω') : Prop where
  returns : (∃ u, x.1 = .ok u) ↔ ∃ u, y.1 = .ok u
  kept : L.kept x.2 y.2

/-- A handler that is called asks and ends alike: the message is one that its Shard says it accepts. -/
def HandlesAlike (L : Likeness σ σ' ω ω') (climate : Climate) (hs : Handlers σ ω) (hs' : Handlers σ' ω') : Prop :=
  ∀ {registry s s' declared door msg msg' env env'}, climate.knows registry → L.shard s s' → L.doors s declared →
    some door.identity ∈ declared.map (Option.map Schema.identity) → (admitLive msg.payload door .firstError).ok →
    climate.Carried msg msg' → L.kept env env' →
    (hs registry s msg env).Agree climate.Asks Answered L.Ends (hs' registry s' msg' env')

variable {hs : Handlers σ ω} {hs' : Handlers σ' ω'}

theorem rel_bind {α α' β β' : Type} {R : α → α' → Prop} {T : β → β' → Prop} {r : Option α} {r' : Option α'}
    {f : α → Option β} {f' : α' → Option β'} (related : Option.Rel R r r')
    (next : ∀ a a', R a a' → Option.Rel T (f a) (f' a')) : Option.Rel T (r.bind f) (r'.bind f') := by
  cases related with
  | none => exact .none
  | some same => exact next _ _ same

theorem Climate.Asks.counterpart {call call' : BusCall} (asks : climate.Asks call call') :
    Counterpart L climate call.input call'.input := by
  cases asks with
  | send target same => exact .handlerSends target same
  | publish same => exact .handlerPublishes same

theorem Standing.answers (h : Standing L climate m m') {call call' : BusCall} (asks : climate.Asks call call') :
    Answered (call.answer m) (call'.answer m') := by
  cases asks with
  | send target same =>
      rw [BusCall.answer, BusCall.answer, h.nextSeq]
      exact .ok _
  | @publish msg msg' same =>
      have tops := sameTop h.stack
      simp only [BusCall.answer]
      generalize m.stack = stack at tops
      generalize m'.stack = stack' at tops
      cases tops with
      | nil => exact .ok 0
      | loop _ => exact .ok 0
      | @handler e e' _ _ _ _ envelope _ _ =>
          have sent : ({ msg with sender := e.target } : Message).canon = ({ msg' with sender := e.target } : Message).canon :=
            sent_canon same.1 e.target
          have chosen := congrArg List.length (h.recipients sent)
          simp only [List.length_map] at chosen
          simp only [Switchboard.publishAs, fanout_eq, ← Envelope.target_canon envelope, chosen]
          exact .ok _

theorem ending_counterpart {r r' : Except Exn Unit} (same : (∃ u, r = .ok u) ↔ ∃ u, r' = .ok u) :
    Counterpart L climate (ending r) (ending r') := by
  cases r with
  | ok u =>
      obtain ⟨u', rfl⟩ := same.mp ⟨u, rfl⟩
      exact .handlerReturns
  | error e =>
      cases r' with
      | ok u =>
          obtain ⟨_, threw⟩ := same.mpr ⟨u, rfl⟩
          cases threw
      | error e' => exact .handlerThrows

theorem converse_stands (standin : Standin ops ops' L) {d : Dialogue BusCall BusAnswer (Except Exn Unit × ω)}
    {d' : Dialogue BusCall BusAnswer (Except Exn Unit × ω')} (agree : d.Agree climate.Asks Answered L.Ends d')
    (h : Standing L climate m m') :
    Option.Rel (Standing L climate) (Machine.converse ops d m) (Machine.converse ops' d' m') := by
  induction agree generalizing m m' with
  | @done x y ends =>
      obtain ⟨r, env⟩ := x
      obtain ⟨r', env'⟩ := y
      refine rel_bind (step_stands standin (.outside fun _ => ends.kept) h) fun mid mid' between => ?_
      exact step_stands standin (ending_counterpart ends.returns) between
  | ask asks _ ih =>
      exact rel_bind (step_stands standin asks.counterpart h) fun mid mid' between => ih _ _ (h.answers asks) between

theorem attend_stands (standin : Standin ops ops' L) (handling : HandlesAlike L climate hs hs') (h : Standing L climate m m')
    (top : m.stack = [.loop]) :
    Option.Rel (Standing L climate) (Machine.attend ops hs (m.turn [])) (Machine.attend ops' hs' (m'.turn [])) := by
  have after := h.turned (show [].map Frame.canon = [].map Frame.canon from rfl)
  have turned := turn_turned m []
  obtain ⟨before, stack, origins, registered⟩ := m
  subst top
  generalize Machine.turn _ [] = next at after turned
  generalize m'.turn [] = next' at after
  have tops := sameTop after.stack
  unfold Machine.attend
  cases turned with
  | ended =>
      generalize next'.stack = stack' at tops
      cases tops with
      | nil => exact .some after
  | refused e queue w front refusal =>
      simp only at tops ⊢
      generalize next'.stack = stack' at tops
      cases tops with
      | loop rest => exact .some after
  | called e queue trusted w front call =>
      simp only at tops ⊢
      generalize next'.stack = stack' at tops
      cases tops with
      | @handler _ e' _ trusted' _ _ envelope message rest =>
          have both := after.world.find e.target
          simp only [← Envelope.target_canon envelope]
          obtain ⟨rec, door, found, _, matched, admitted⟩ := call.routed
          have still : w.sb.find e.target = some rec := by
            rw [Switchboard.find, call.shards.1]
            exact found
          have carried : climate.carries trusted.payload := by
            rw [call.trusted]
            exact h.traffic e (front ▸ List.mem_cons_self)
          simp only [still] at both ⊢
          generalize next'.world.sb.find e.target = rec' at both
          cases both with
          | some twins =>
              obtain ⟨declared, doors, owners⟩ := twins.doors
              have declares : some door.identity ∈ declared.map (Option.map Schema.identity) := by
                rw [owners]
                exact List.mem_map_of_mem (acceptMatch_eq_some matched).1
              have ok : (admitLive trusted.payload door .firstError).ok := by
                rw [call.trusted]
                exact accepted_of_live admitted
              have registry : w.sb.registry = next'.world.sb.registry :=
                congrArg (fun w : World Unit Unit => w.sb.registry) after.world.shown
              rw [← registry]
              exact converse_stands standin
                (handling after.known twins.shard doors declares ok ⟨message, carried⟩ after.world.env) after

theorem play_stands (standin : Standin ops ops' L) (handling : HandlesAlike L climate hs hs') (fuel : Nat)
    {calls : List (Input σ ω)} {calls' : List (Input σ' ω')} (same : List.Forall₂ (Counterpart L climate) calls calls')
    (h : Standing L climate m m') :
    Option.Rel (Standing L climate) (play ops hs fuel calls m) (play ops' hs' fuel calls' m') := by
  induction fuel generalizing calls calls' m m' with
  | zero => exact .none
  | succ fuel ih =>
      have tops := sameTop h.stack
      unfold play
      cases top : m.stack with
      | nil =>
          rw [top] at tops
          generalize m'.stack = stack' at tops
          cases tops with
          | nil =>
              cases same with
              | nil => exact .some h
              | @cons call call' _ _ first rest =>
                  have isCall : call.isCall = call'.isCall := by
                    cases first <;> rfl
                  simp only [← isCall]
                  split
                  · exact rel_bind (step_stands standin first h) fun mid mid' between => ih rest between
                  · exact .none
      | cons frame frames =>
          rw [top] at tops
          generalize top' : m'.stack = stack' at tops
          cases tops with
          | handler _ _ _ => exact .none
          | @loop _ frames' later =>
              cases sameTop later with
              | nil =>
                  refine rel_bind ?_ fun mid mid' between => ih same between
                  simp only [Machine.step, top, top']
                  exact attend_stands standin handling h top
              | loop _ => exact .none
              | handler _ _ _ => exact .none

/-! ## What is played is a run -/

theorem converse_run {ops : ShardOps σ ω} {d : Dialogue BusCall BusAnswer (Except Exn Unit × ω)} {m m' : Machine σ ω}
    (ends : Machine.converse ops d m = some m') :
    ∃ inputs, Run (Machine.step ops) m inputs m' ∧ ∀ input ∈ inputs, input.joining = none := by
  induction d generalizing m with
  | done result =>
      obtain ⟨mid, first, last⟩ := Option.bind_eq_some_iff.mp ends
      refine ⟨[.outside fun _ => result.2, ending result.1], .cons first (.cons last (.nil m')), ?_⟩
      simp only [List.mem_cons, List.not_mem_nil, or_false, forall_eq_or_imp, forall_eq]
      refine ⟨rfl, ?_⟩
      cases result.1 <;> rfl
  | ask call next ih =>
      obtain ⟨mid, first, rest⟩ := Option.bind_eq_some_iff.mp ends
      obtain ⟨inputs, run, none⟩ := ih _ rest
      refine ⟨call.input :: inputs, .cons first run, List.forall_mem_cons.mpr ⟨?_, none⟩⟩
      cases call <;> rfl

theorem attend_run {ops : ShardOps σ ω} {h : Handlers σ ω} {m m' : Machine σ ω} (ends : Machine.attend ops h m = some m') :
    ∃ inputs, Run (Machine.step ops) m inputs m' ∧ ∀ input ∈ inputs, input.joining = none := by
  unfold Machine.attend at ends
  split at ends
  · split at ends
    · exact converse_run ends
    · cases ends
  · cases ends
    exact ⟨[], .nil _, fun _ h => nomatch h⟩

/-- What a host plays is a run of the bus, in which only its own calls register Shards. -/
theorem play_run {ops : ShardOps σ ω} {h : Handlers σ ω} {fuel : Nat} {calls : List (Input σ ω)} {m m' : Machine σ ω}
    (ends : play ops h fuel calls m = some m') : ∃ inputs, Run (Machine.step ops) m inputs m' ∧
      ∀ input ∈ inputs, input ∈ calls ∨ input.joining = none := by
  induction fuel generalizing calls m with
  | zero => cases ends
  | succ fuel ih =>
      unfold play at ends
      split at ends
      · split at ends
        · cases ends
          exact ⟨[], .nil _, fun _ h => nomatch h⟩
        · rename_i call calls
          split at ends
          · obtain ⟨mid, first, rest⟩ := Option.bind_eq_some_iff.mp ends
            obtain ⟨inputs, run, known⟩ := ih rest
            refine ⟨call :: inputs, .cons first run, List.forall_mem_cons.mpr ⟨.inl (List.mem_cons_self ..), ?_⟩⟩
            intro input hinput
            exact (known input hinput).imp_left (List.mem_cons_of_mem call)
          · cases ends
      · obtain ⟨mid, turned, rest⟩ := Option.bind_eq_some_iff.mp ends
        obtain ⟨called, turn, attended⟩ := Option.bind_eq_some_iff.mp turned
        obtain ⟨handled, answers, none⟩ := attend_run attended
        obtain ⟨inputs, run, known⟩ := ih rest
        refine ⟨.turn :: handled ++ inputs, (Run.cons turn answers).append run, ?_⟩
        intro input hinput
        rcases List.mem_append.mp hinput with first | later
        · rcases List.mem_cons.mp first with rfl | during
          · exact .inr rfl
          · exact .inr (none input during)
        · exact known input later
      · cases ends

end Zen.Sb
