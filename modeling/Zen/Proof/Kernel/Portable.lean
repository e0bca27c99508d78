import Zen.Author.Shard
import Zen.Proof.Kernel.Export
import Zen.Proof.Kernel.Rules

/-!
# Compiled in or loaded

Two hosts of the same objects, each with some of them compiled in and the others in libraries, show the same
on their buses, if what these objects make gets over the wire and they do not look at tickets.
-/

namespace Zen.Kernel
open Lib Sb Proof

variable {τ ς : Type}

/-! ## Values that cross -/

/-- The value gets over the wire as it is, but for NaNs. -/
def Crosses (v : Value) : Prop :=
  ∃ bytes, serialize v = .ok bytes ∧ admitUnverified (parse bytes) v.schema .firstError = .accept v.canon

theorem Sound.crosses {v : Value} (sound : Sound v) (wireable : Wireable v) : Crosses v := by
  rcases serialize_sound sound with ⟨_, bytes, written⟩ | ⟨long, _⟩
  · rcases sound_admitted sound written with ⟨_, admitted⟩ | ⟨unwireable, _⟩
    · exact ⟨bytes, written, admitted⟩
    · exact absurd wireable unwireable
  · exact absurd wireable.1 long

theorem Crosses.alike {v w : Value} (crosses : Crosses v) (alike : v.Alike w) : Crosses w := by
  obtain ⟨bytes, written, admitted⟩ := crosses
  refine ⟨bytes, ?_, ?_⟩
  · rw [← serialize_canon alike.raw]
    exact written
  · rw [← alike.schema, show w.canon = v.canon from Eq.symm alike]
    exact admitted

theorem Crosses.claims {v : Value} {bytes : ByteString} (written : serialize v = .ok bytes)
    (admitted : admitUnverified (parse bytes) v.schema .firstError = .accept v.canon) :
    claimedName (parse bytes) = v.schema.name ∧ claimedVersion (parse bytes) = v.schema.version :=
  parse_written written (admit_parse_accept.mp admitted).2.1

/-- What has come over the wire can go over it again. -/
theorem accepted_crosses {bytes : ByteString} {door : Schema} {v : Value}
    (accepted : admitUnverified (parse bytes) door .firstError = .accept v) : v.schema = door ∧ Crosses v ∧ v.canon = v := by
  obtain ⟨schema, written⟩ := accepted_written accepted
  subst schema
  obtain ⟨_, _, body, rfl, decoded, _⟩ := admit_parse_accept.mp accepted
  obtain ⟨code, _, declared⟩ := body_code decoded
  obtain ⟨_, _, _, canonical, _⟩ := (accepted_iff_fits code declared .firstError v).mp accepted
  have canon : v.canon = v := Value.ext canonical.symm
  refine ⟨rfl, ⟨_, written, ?_⟩, canon⟩
  rw [canon]
  exact accepted

/-! ## Classes -/

/-- What the classes of a host have in common: `same` relates the states of two objects of one class,
`doors` and `state` are what each class declares, `known` is what has been published before. -/
structure Fleet (τ : Type) where
  same : τ → τ → Prop
  doors : Pointer → List Schema
  state : Pointer → Schema
  known : List Schema

namespace Fleet

/-- Nothing gets past one of the doors that is not of its schema or would not get over the wire. -/
def climate (fleet : Fleet τ) : Climate where
  carries v := ∀ cls, ∀ declared ∈ fleet.doors cls, ∀ door : Schema, door.identity = declared.identity →
    (admitLive v door .firstError).ok → v.schema = declared ∧ Crosses v
  knows registry := ∀ s ∈ fleet.known, registry.lookup s.name s.version = some s
  grows := by
    intro r r' schema owner inserted known registered s hs
    have found := known s hs
    unfold Registry.registerSchema at registered
    split at registered
    · split at registered
      · cases registered
        exact found
      · cases registered
    · cases registered
      unfold Registry.lookup at found ⊢
      rw [List.find?_append, found]
      rfl

/-- A message that a handler sends: its schema has been published and it gets over the wire. -/
def Sends (fleet : Fleet τ) (call call' : BusCall) : Prop :=
  fleet.climate.Asks call call' ∧ call.payload.schema ∈ fleet.known ∧ Crosses call.payload

end Fleet

/-- A handler is told that its call has been made, and nothing that it can use. -/
def Acknowledged (a a' : BusAnswer) : Prop := (∃ n, a = .ok n) ∧ ∃ n, a' = .ok n

structure Portable (c : ShardClass τ) (fleet : Fleet τ) (cls : Pointer) : Prop where
  accepts : ∀ {s s'}, fleet.same s s' → c.acceptedSchemas s = .ok (fleet.doors cls) ∧
    c.acceptedSchemas s' = .ok (fleet.doors cls)
  apart : ∀ door ∈ fleet.doors cls,
    (fleet.doors cls).find? (fun sc => sc.name == door.name && sc.version == door.version) = some door
  snapshot : ∀ {s s'}, fleet.same s s' → ∃ v v', c.snapshot s = .ok v ∧ c.snapshot s' = .ok v' ∧ v.Alike v' ∧
    v.schema = fleet.state cls ∧ Crosses v
  policy : ∀ {s s'}, fleet.same s s' → ∃ v v', c.policy s = .ok v ∧ c.policy s' = .ok v' ∧ v.Alike v' ∧
    v.schema = lifecyclePolicySchema ∧ Crosses v
  revive : ∀ {s s' v v'}, fleet.same s s' → v.Alike v' → v.schema = fleet.state cls → Crosses v →
    Matched fleet.same (fun _ _ => True) ((c.revive v).run s) ((c.revive v').run s')
  handle : ∀ {s s' msg msg'}, fleet.same s s' → msg.canon = msg'.canon → msg.payload.schema ∈ fleet.doors cls →
    Crosses msg.payload → (c.handle msg s).Agree fleet.Sends Acknowledged
      (fun x y => x.1 = .ok () ∧ y.1 = .ok () ∧ fleet.same x.2 y.2) (c.handle msg' s')

/-! ## The two hosts -/

/-- An object behind a Shard: compiled into the host, or in a library. -/
inductive Hosts (fleet : Fleet τ) (o : Object) : Shard Object → Prop
  | compiled : Hosts fleet o (.native o)
  | loaded : Hosts fleet o (.library ⟨o.cls, o.inst, fleet.doors o.cls, fleet.state o.cls⟩)

/-- Two Shards with the same object behind them, one of those at `live`. -/
inductive Loads (fleet : Fleet τ) (live : Pointer → Prop) (shard shard' : Shard Object) : Prop
  | intro (o : Object) (lives : live o.inst) (left : Hosts fleet o shard) (right : Hosts fleet o shard')

def classOf : Shard Object → Pointer
  | .native o => o.cls
  | .library adapter => adapter.abi

-- the two hosts have made the same objects
structure Fleet.Kept (fleet : Fleet τ) (live : Pointer → Prop) (objects objects' : Objects τ) : Prop where
  next : objects.next = objects'.next
  made : ∀ inst, live inst → inst < objects.next
  there : ∀ inst, live inst → ∃ s s', objects.at? inst = some s ∧ objects'.at? inst = some s' ∧ fleet.same s s'

def Fleet.likeness (fleet : Fleet τ) (live : Pointer → Prop) :
    Likeness (Shard Object) (Shard Object) (Foreign (Image ς τ)) (Foreign (Image ς τ)) where
  shard := Loads fleet live
  kept w w' := fleet.Kept live w.memory.2 w'.memory.2
  state shard door v := door = fleet.state (classOf shard) ∧ v.schema = door ∧ Crosses v
  doors shard declared := declared = (fleet.doors (classOf shard)).map some

variable {fleet : Fleet τ} {live : Pointer → Prop} {loader : Loader ς} {cls : Pointer → ShardClass τ}

/-! ## Callbacks on both sides -/

theorem wp_ends {α : Type} {x : SeamM ς α} {w : Foreign ς} {a : α}
    (h : wp x w fun r w' => r = .ok a ∧ ∃ calls, w' = { w with calls }) : ∃ calls, x.run w = .ok a { w with calls } := by
  unfold wp at h
  cases run : x.run w with
  | ok b w' =>
      rw [run] at h
      obtain ⟨same, calls, rfl⟩ := h
      cases same
      exact ⟨calls, rfl⟩
  | error e w' =>
      rw [run] at h
      cases h.1

/-- The object as a call has left it. -/
def Revived (w : Foreign (Image ς τ)) (inst : Pointer) (left : EStateM.Result Exn τ Unit) (r : Except Exn Unit)
    (w' : Foreign (Image ς τ)) : Prop :=
  ∃ calls, match left with
    | .ok _ s => r = .ok () ∧ w' = { stored w inst s with calls }
    | .error _ s => (∃ e, r = .error e) ∧ w' = { stored w inst s with calls }

section
variable {o : Object} {shard : Shard Object} (hosts : Hosts fleet o shard) {w : Foreign (Image ς τ)} {s : τ}
  (object : w.memory.2.at? o.inst = some s) (loader : Loader ς)
include hosts object

theorem hosted_accepted (declares : (cls o.cls).acceptedSchemas s = .ok (fleet.doors o.cls)) :
    ((hostOps (exported loader cls).toSeam (compiledOps cls)).acceptedSchemas shard).run w =
      .ok ((fleet.doors o.cls).map some) w := by
  cases hosts with
  | compiled =>
      simp only [hostOps, onMemory, compiledOps, onObject, EStateM.run, object, declares]
      rfl
  | loaded => rfl

-- a thunk is run on the object, or its value comes back in bytes that the host's gate admits
def askedOf (thunk : τ → Except Exn Value) (call : ZenStatus × ByteString → Call) (who what : ByteString)
    (door : Schema) : Shard Object → SeamM (Image ς τ) Value
  | .native o => onMemory (onObject o.inst thunk)
  | .library adapter => do
      let (status, bytes) ← perform (fun image =>
        (filled image.2 adapter.inst fun s => written do serialize (← thunk s), image)) call
      if status ≠ zenOk then throw (statusError who status) else admitBytes bytes door what

theorem hosted_asked {thunk : τ → Except Exn Value} {v : Value} (asked : thunk s = .ok v) (crosses : Crosses v)
    (call : ZenStatus × ByteString → Call) (who what : ByteString) :
    ∃ calls v', v.Alike v' ∧ (askedOf thunk call who what v.schema shard).run w = .ok v' { w with calls } := by
  cases hosts with
  | compiled =>
      refine ⟨w.calls, v, rfl, ?_⟩
      simp only [askedOf, onMemory, onObject, EStateM.run, object, asked]
  | loaded =>
      obtain ⟨bytes, serialized, admitted⟩ := crosses
      have filled : (written do serialize (← thunk s)) = (zenOk, bytes) := by
        simp only [asked, bind, Except.bind, serialized, written]
      have ends : ∃ calls, (askedOf thunk call who what v.schema (.library ⟨o.cls, o.inst, fleet.doors o.cls,
          fleet.state o.cls⟩)).run w = .ok v.canon { w with calls } := by
        refine wp_ends ?_
        simp only [askedOf, wp_bind, wp_perform, Kernel.filled, object, filled, andThen_ok, ne_eq, not_true_eq_false,
          ↓reduceIte, wp_admitBytes, admitted]
        exact ⟨trivial, _, rfl⟩
      obtain ⟨calls, run⟩ := ends
      exact ⟨calls, v.canon, Value.Alike.trans_canon rfl, run⟩

theorem hosted_snapshot {v : Value} (taken : (cls o.cls).snapshot s = .ok v) (shape : v.schema = fleet.state o.cls)
    (crosses : Crosses v) : ∃ calls v', v.Alike v' ∧
      ((hostOps (exported loader cls).toSeam (compiledOps cls)).snapshot shard).run w = .ok v' { w with calls } := by
  have answers := hosted_asked hosts object taken crosses (fun result => .snapshot o.cls o.inst result.1 result.2)
    "snapshot()" "snapshot"
  rw [shape] at answers
  cases hosts with
  | compiled => exact answers
  | loaded => exact answers

theorem hosted_policy {v : Value} (asked : (cls o.cls).policy s = .ok v) (shape : v.schema = lifecyclePolicySchema)
    (crosses : Crosses v) : ∃ calls v', v.Alike v' ∧
      ((hostOps (exported loader cls).toSeam (compiledOps cls)).policy shard).run w = .ok v' { w with calls } := by
  have answers := hosted_asked hosts object asked crosses (fun result => .policy o.cls o.inst result.1 result.2)
    "policy()" "policy"
  rw [shape] at answers
  cases hosts with
  | compiled => exact answers
  | loaded => exact answers

/-- Whether it is compiled in or loaded, the object is revived with the value, but for NaNs. -/
theorem hosted_revive {probe v : Value} (taken : (cls o.cls).snapshot s = .ok probe) (shape : v.schema = probe.schema)
    (crosses : Crosses v) : ∃ v', v.Alike v' ∧
      wp ((hostOps (exported loader cls).toSeam (compiledOps cls)).revive shard v) w
        (Revived w o.inst (((cls o.cls).revive v').run s)) := by
  cases hosts with
  | compiled =>
      refine ⟨v, rfl, ?_⟩
      simp only [hostOps, onMemory, compiledOps, wp, EStateM.run, object]
      cases (cls o.cls).revive v s with
      | ok _ s => exact ⟨w.calls, rfl, rfl⟩
      | error e s => exact ⟨w.calls, ⟨e, rfl⟩, rfl⟩
  | loaded =>
      refine ⟨v.canon, Value.Alike.trans_canon rfl, ?_⟩
      obtain ⟨bytes, written, admitted⟩ := crosses
      rw [shape] at admitted
      simp only [hostOps, HostAdapter.revive, written, SeamM.revive, wp_bind, wp_perform, exported, object, andThen_ok,
        ShardClass.doRevive, taken, admitted]
      cases ((cls o.cls).revive v.canon).run s with
      | ok _ s => exact ⟨_, rfl, rfl⟩
      | error e s => exact ⟨_, ⟨_, rfl⟩, rfl⟩

end

/-! ## Standing in -/

theorem kept_stored {objects objects' : Objects τ} (kept : fleet.Kept live objects objects') (inst : Pointer) {s s' : τ}
    (same : fleet.same s s') : fleet.Kept live (objects.store inst s) (objects'.store inst s') := by
  refine ⟨kept.next, kept.made, ?_⟩
  intro other lives
  by_cases here : other = inst
  · subst here
    exact ⟨s, s', Function.update_self .., Function.update_self .., same⟩
  · obtain ⟨t, t', there, there', related⟩ := kept.there other lives
    refine ⟨t, t', ?_, ?_, related⟩
    · exact (Function.update_of_ne here ..).trans there
    · exact (Function.update_of_ne here ..).trans there'

theorem Hosts.class {o : Object} {shard : Shard Object} (hosts : Hosts fleet o shard) : classOf shard = o.cls := by
  cases hosts <;> rfl

section
variable (portable : ∀ abi, Portable (cls abi) fleet abi)
include portable

theorem revive_loads {shard shard' : Shard Object} (loads : Loads fleet live shard shard') {v v' : Value} (alike : v.Alike v')
    (shape : v.schema = fleet.state (classOf shard)) (crosses : Crosses v) :
    Matches (fleet.likeness (ς := ς) live).kept (fun _ _ => True)
      ((hostOps (exported loader cls).toSeam (compiledOps cls)).revive shard v)
      ((hostOps (exported loader cls).toSeam (compiledOps cls)).revive shard' v') := by
  intro w w' kept
  obtain ⟨o, lives, left, right⟩ := loads
  obtain ⟨s, s', object, object', same⟩ := kept.there o.inst lives
  obtain ⟨probe, probe', taken, taken', alikes, declared, _⟩ := (portable o.cls).snapshot same
  rw [left.class] at shape
  have there : v'.schema = probe'.schema := by
    rw [← alike.schema, shape, ← alikes.schema, declared]
  obtain ⟨u, near, one⟩ := hosted_revive left object loader taken (shape.trans declared.symm) crosses
  obtain ⟨u', near', other⟩ := hosted_revive right object' loader taken' there (crosses.alike alike)
  have between : u.Alike u' := near.symm.trans (alike.trans near')
  have revived := (portable o.cls).revive same between (near.schema ▸ shape) (crosses.alike near)
  unfold wp at one other
  generalize ((cls o.cls).revive u).run s = r at revived one
  generalize ((cls o.cls).revive u').run s' = r' at revived other
  generalize ((hostOps (exported loader cls).toSeam (compiledOps cls)).revive shard v).run w = result at one
  generalize ((hostOps (exported loader cls).toSeam (compiledOps cls)).revive shard' v').run w' = result' at other
  cases revived with
  | ok _ same =>
      cases result with
      | error _ _ =>
          obtain ⟨calls, failed, _⟩ := one
          cases failed
      | ok _ _ =>
          cases result' with
          | error _ _ =>
              obtain ⟨calls, failed, _⟩ := other
              cases failed
          | ok _ _ =>
              obtain ⟨calls, _, rfl⟩ := one
              obtain ⟨calls', _, rfl⟩ := other
              exact .ok trivial (kept_stored kept o.inst same)
  | error same =>
      cases result with
      | ok _ _ =>
          obtain ⟨calls, ⟨_, failed⟩, _⟩ := one
          cases failed
      | error _ _ =>
          cases result' with
          | ok _ _ =>
              obtain ⟨calls, ⟨_, failed⟩, _⟩ := other
              cases failed
          | error _ _ =>
              obtain ⟨calls, _, rfl⟩ := one
              obtain ⟨calls', _, rfl⟩ := other
              exact .error (kept_stored kept o.inst same)

theorem loads_standin :
    Standin (hostOps (exported loader cls).toSeam (compiledOps cls)) (hostOps (exported loader cls).toSeam (compiledOps cls))
      (fleet.likeness (ς := ς) live) where
  acceptedSchemas := by
    rintro shard shard' ⟨o, lives, left, right⟩ w w' kept
    obtain ⟨s, s', object, object', same⟩ := kept.there o.inst lives
    obtain ⟨declares, declares'⟩ := (portable o.cls).accepts same
    rw [hosted_accepted left object loader declares, hosted_accepted right object' loader declares']
    exact .ok ⟨rfl, by rw [← left.class]; rfl⟩ kept
  snapshot := by
    rintro shard shard' ⟨o, lives, left, right⟩ w w' kept
    obtain ⟨s, s', object, object', same⟩ := kept.there o.inst lives
    obtain ⟨v, v', taken, taken', alike, shape, crosses⟩ := (portable o.cls).snapshot same
    obtain ⟨calls, u, near, run⟩ := hosted_snapshot left object loader taken shape crosses
    obtain ⟨calls', u', near', run'⟩ :=
      hosted_snapshot right object' loader taken' (alike.schema ▸ shape) (crosses.alike alike)
    rw [run, run']
    have schema : u.schema = fleet.state (classOf shard) := by rw [left.class, ← shape, near.schema]
    exact .ok ⟨near.symm.trans (alike.trans near'), schema, rfl, crosses.alike near⟩ kept
  policy := by
    rintro shard shard' ⟨o, lives, left, right⟩ w w' kept
    obtain ⟨s, s', object, object', same⟩ := kept.there o.inst lives
    obtain ⟨v, v', asked, asked', alike, shape, crosses⟩ := (portable o.cls).policy same
    obtain ⟨calls, u, near, run⟩ := hosted_policy left object loader asked shape crosses
    obtain ⟨calls', u', near', run'⟩ :=
      hosted_policy right object' loader asked' (alike.schema ▸ shape) (crosses.alike alike)
    rw [run, run']
    exact .ok (near.symm.trans (alike.trans near')) kept
  decoded := by
    rintro shard door v bytes state ⟨declared, _, _⟩ accepted
    obtain ⟨schema, crosses, _⟩ := accepted_crosses accepted
    exact ⟨declared, schema, crosses⟩
  revive loads good alike := by
    obtain ⟨declared, schema, crosses⟩ := good
    exact revive_loads portable loads alike (schema.trans declared) crosses

/-! ## Handlers -/

omit portable in
theorem forwarded_crosses {registry : Registry} {v : Value} (crosses : Crosses v)
    (published : registry.lookup v.schema.name v.schema.version = some v.schema) {call : ByteString → HostCall}
    {call' : Value → BusCall} (routes : ∀ bytes, hostApi registry (call bytes) = route registry bytes call') :
    (forward v call).through (hostApi registry) = .ask (call' v.canon) fun _ => .done (.ok 0) := by
  obtain ⟨bytes, written, admitted⟩ := crosses
  obtain ⟨name, version⟩ := Crosses.claims written admitted
  simp only [forward, written, Dialogue.through, routes, route, resolved, name, version, published, admitted]
  rfl

omit portable in
theorem carries_canon {v : Value} (carries : fleet.climate.carries v) : fleet.climate.carries v.canon := by
  intro abi declared listed door identity gated
  rw [admitLive_canon, Admission.ok_canon] at gated
  obtain ⟨schema, crosses⟩ := carries abi declared listed door identity gated
  exact ⟨(Value.schema_canon v).trans schema, crosses.alike (Value.Alike.trans_canon rfl)⟩

/-- A call as it reaches the bus from a library. -/
def BusCall.crossed : BusCall → BusCall
  | .send target msg => .send target ⟨msg.payload.canon, 0, msg.replyTo, msg.correlation⟩
  | .publish msg => .publish ⟨msg.payload.canon, 0, msg.replyTo, msg.correlation⟩

omit portable in
theorem crossed_canon (msg : Message) :
    Message.canon (Message.unsigned ⟨msg.payload.canon, 0, msg.replyTo, msg.correlation⟩) = msg.unsigned.canon := by
  simp only [Message.canon, Message.unsigned, Value.canon_canon]

omit portable in
theorem Asks.crossed_left {call call' : BusCall} (asks : fleet.climate.Asks call call') :
    fleet.climate.Asks (BusCall.crossed call) call' := by
  cases asks with
  | send target same => exact .send target ⟨(crossed_canon _).trans same.1, carries_canon same.2⟩
  | publish same => exact .publish ⟨(crossed_canon _).trans same.1, carries_canon same.2⟩

omit portable in
theorem Asks.crossed_right {call call' : BusCall} (asks : fleet.climate.Asks call call') :
    fleet.climate.Asks call (BusCall.crossed call') := by
  cases asks with
  | send target same => exact .send target ⟨same.1.trans (crossed_canon _).symm, same.2⟩
  | publish same => exact .publish ⟨same.1.trans (crossed_canon _).symm, same.2⟩

omit portable in
theorem Asks.alike {climate : Climate} {call call' : BusCall} (asks : climate.Asks call call') :
    call.payload.Alike call'.payload := by
  cases asks with
  | send _ same => exact congrArg Message.payload same.1
  | publish same => exact congrArg Message.payload same.1

/-- How the calls of a handler get to the bus: as they are, or across the seam. -/
def busOf (registry : Registry) : Shard Object → BusCall → Dialogue BusCall BusAnswer BusAnswer
  | .native _, call => .ask call .done
  | .library _, call => (hostApiBus call).through (hostApi registry)

omit portable in
theorem busOf_native (registry : Registry) (o : Object) {α : Type} (d : Dialogue BusCall BusAnswer α) :
    d.through (busOf registry (.native o)) = d := by
  induction d with
  | done a => rfl
  | ask call next ih =>
      rw [Dialogue.through, busOf, Dialogue.bind]
      congr 1
      funext answer
      exact ih answer

omit portable in
/-- The call gets to the bus, and is acknowledged. -/
theorem busOf_reaches {registry : Registry} (known : fleet.climate.knows registry) (shard : Shard Object) {call : BusCall}
    (listed : call.payload.schema ∈ fleet.known) (crosses : Crosses call.payload) :
    ∃ reached next, busOf registry shard call = .ask reached next ∧ (reached = call ∨ reached = BusCall.crossed call) ∧
      ∀ n, ∃ n', next (.ok n) = .done (.ok n') := by
  have published := known _ listed
  cases shard with
  | native o => exact ⟨call, .done, rfl, .inl rfl, fun n => ⟨n, rfl⟩⟩
  | library adapter =>
      refine ⟨BusCall.crossed call, fun _ => .done (.ok 0), ?_, .inr rfl, fun _ => ⟨0, rfl⟩⟩
      cases call with
      | send target msg =>
          exact @forwarded_crosses registry _ crosses published (.send target msg.replyTo msg.correlation)
            (fun v => .send target ⟨v, 0, msg.replyTo, msg.correlation⟩) fun _ => rfl
      | publish msg =>
          exact @forwarded_crosses registry _ crosses published (.publish msg.replyTo msg.correlation)
            (fun v => .publish ⟨v, 0, msg.replyTo, msg.correlation⟩) fun _ => rfl

omit portable in
theorem buses_agree {registry : Registry} (known : fleet.climate.knows registry) (shard shard' : Shard Object)
    {call call' : BusCall} (sends : fleet.Sends call call') :
    (busOf registry shard call).Agree fleet.climate.Asks Answered Acknowledged (busOf registry shard' call') := by
  obtain ⟨asks, listed, crosses⟩ := sends
  have alike := Asks.alike asks
  obtain ⟨reached, next, calls, which, ends⟩ := busOf_reaches known shard listed crosses
  obtain ⟨reached', next', calls', which', ends'⟩ :=
    busOf_reaches known shard' (alike.schema ▸ listed) (crosses.alike alike)
  rw [calls, calls']
  refine .ask ?_ ?_
  · have left : fleet.climate.Asks reached call' := by
      rcases which with rfl | rfl
      · exact asks
      · exact Asks.crossed_left asks
    rcases which' with rfl | rfl
    · exact left
    · exact Asks.crossed_right left
  · rintro _ _ ⟨n⟩
    obtain ⟨k, stops⟩ := ends n
    obtain ⟨k', stops'⟩ := ends' n
    rw [stops, stops']
    exact .done ⟨⟨k, rfl⟩, ⟨k', rfl⟩⟩

omit portable in
/-- Whether it is compiled in or loaded, the handler of the object runs with what was sent, but for NaNs. -/
theorem hosted_handle {o : Object} {shard : Shard Object} (hosts : Hosts fleet o shard) {w : Foreign (Image ς τ)} {s : τ}
    (object : w.memory.2.at? o.inst = some s) (loader : Loader ς) (registry : Registry)
    (declares : (cls o.cls).acceptedSchemas s = .ok (fleet.doors o.cls)) {msg : Message}
    (found : (fleet.doors o.cls).find? (fun sc => sc.name == msg.payload.schema.name &&
      sc.version == msg.payload.schema.version) = some msg.payload.schema) (crosses : Crosses msg.payload) :
    ∃ (heard : Message) (report : Except Exn Unit → Except Exn Unit), msg.canon = heard.canon ∧ report (.ok ()) = .ok () ∧
      hostHandlers (exported loader cls) (compiledHandlers cls) registry shard msg w =
        (((cls o.cls).handle heard s).through (busOf registry shard)).map fun result =>
          (report result.1, stored w o.inst result.2) := by
  cases hosts with
  | compiled =>
      refine ⟨msg, id, rfl, rfl, ?_⟩
      simp only [hostHandlers, compiledHandlers, object, Dialogue.map_map, busOf_native]
      rfl
  | loaded =>
      obtain ⟨bytes, written, admitted⟩ := crosses
      obtain ⟨name, version⟩ := Crosses.claims written admitted
      rw [← name, ← version] at found
      refine ⟨⟨msg.payload.canon, msg.sender, msg.replyTo, msg.correlation⟩, fun _ => .ok (), ?_, rfl, ?_⟩
      · simp only [Message.canon, Value.canon_canon]
      · simp only [hostHandlers, HostAdapter.handle, written, exported, object, ShardClass.doHandle, declares, found,
          admitted, Dialogue.through_map, Dialogue.through_through, Dialogue.map_map]
        rfl

theorem loads_handle : HandlesAlike (fleet.likeness (ς := ς) live) fleet.climate
    (hostHandlers (exported loader cls) (compiledHandlers cls))
    (hostHandlers (exported loader cls) (compiledHandlers cls)) := by
  rintro registry shard shard' declared door msg msg' w w' known ⟨o, lives, left, right⟩ doors listed gated carried kept
  rw [show declared = _ from doors, left.class, List.map_map] at listed
  obtain ⟨own, member, identity⟩ := List.mem_map.mp listed
  obtain ⟨schema, crosses⟩ := carried.2 o.cls own member door (Option.some.inj identity).symm gated
  obtain ⟨s, s', object, object', same⟩ := kept.there o.inst lives
  obtain ⟨declares, declares'⟩ := (portable o.cls).accepts same
  have alike : msg.payload.Alike msg'.payload := congrArg Message.payload carried.1
  have found := (portable o.cls).apart own member
  rw [← schema] at found
  obtain ⟨heard, report, near, reports, runs⟩ := hosted_handle left object loader registry declares found crosses
  rw [alike.schema] at found
  obtain ⟨heard', report', near', reports', runs'⟩ :=
    hosted_handle right object' loader registry declares' found (crosses.alike alike)
  rw [runs, runs']
  have payload : msg.payload.Alike heard.payload := congrArg Message.payload near
  have agree := (portable o.cls).handle same (near.symm.trans (carried.1.trans near'))
    (by rw [← payload.schema, schema]; exact member) (crosses.alike payload)
  refine (agree.through fun call call' sends => buses_agree known shard shard' sends).map ?_
  rintro ⟨_, t⟩ ⟨_, t'⟩ ⟨rfl, rfl, same⟩
  exact ⟨⟨fun _ => ⟨(), reports'⟩, fun _ => ⟨(), reports⟩⟩, kept_stored kept o.inst same⟩

end

/-! ### The meter -/

def meters : Fleet Int64 where
  same := Eq
  doors _ := [Point]
  state _ := Point
  known := [Point]

theorem tallyIn_of_crosses {v : Value} (schema : v.schema = Point) (crosses : Crosses v) : ∃ n, tallyIn v = .ok n := by
  obtain ⟨bytes, _, admitted⟩ := crosses
  rw [schema] at admitted
  obtain ⟨_, _, _, _, _, valid⟩ := admit_parse_accept.mp admitted
  obtain ⟨_, field, _⟩ := Raw.validateInto_eq_nil.mp valid
  unfold tallyIn
  have canon := Value.get_canon v "x"
  have read : v.canon.raw.get "x" = v.canon.get "x" := rfl
  rw [read, canon] at field
  cases got : v.get "x" with
  | none =>
      rw [got] at field
      cases field
  | some c =>
      rw [got] at field
      have kind : c.canon.kind = .int := field
      rw [Raw.Cell.canon_kind] at kind
      cases c <;> cases kind
      exact ⟨_, rfl⟩

theorem policyOf_crosses : Crosses (policyOf 2) := by
  refine Sound.crosses ⟨by decide +kernel, ?_⟩ ⟨by decide, by decide +kernel, by decide +kernel⟩
  intro s hs s' hs' _
  have claimed : s = lifecyclePolicySchema.raw := by
    simpa [policyOf, Raw.Value.schemas, Raw.slotSchemas, Raw.Cell.schemas] using hs
  have declared : s' = lifecyclePolicySchema.raw := by
    simpa [policyOf, Value.schema, lifecyclePolicySchema, Raw.Schema.schemas, Raw.fieldSchemas, Raw.TypeRef.schemas] using hs'
  rw [claimed, declared]

theorem meter_carried (n : Int64) : meters.climate.carries (tallyOf n) := by
  intro _ declared hdeclared _ _ _
  rw [List.mem_singleton.mp hdeclared]
  exact ⟨rfl, (tallyOf_sound n).crosses (tallyOf_wireable n)⟩

theorem meter_portable (abi : Pointer) : Portable meter meters abi where
  accepts _ := ⟨rfl, rfl⟩
  apart door hdoor := by
    rw [List.mem_singleton.mp hdoor]
    rfl
  snapshot := by
    rintro n _ rfl
    exact ⟨_, _, rfl, rfl, rfl, rfl, (tallyOf_sound n).crosses (tallyOf_wireable n)⟩
  policy := by
    rintro n _ rfl
    exact ⟨_, _, rfl, rfl, rfl, rfl, policyOf_crosses⟩
  revive := by
    rintro n _ v v' rfl alike _ _
    have same : tallyIn v = tallyIn v' := by
      rw [← tallyIn_canon v, ← tallyIn_canon v', show v.canon = v'.canon from alike]
    simp only [EStateM.run, meter, same]
    cases tallyIn v' with
    | ok next => exact .ok trivial rfl
    | error e => exact .error rfl
  handle := by
    rintro n _ msg msg' rfl same schema crosses
    obtain ⟨more, read⟩ := tallyIn_of_crosses (List.mem_singleton.mp schema) crosses
    have alike : msg.payload.Alike msg'.payload := congrArg Message.payload same
    have read' : tallyIn msg'.payload = .ok more := by
      rw [← tallyIn_canon, ← show msg.payload.canon = msg'.payload.canon from alike, tallyIn_canon, read]
    have replyTo : msg.replyTo = msg'.replyTo := (show msg.canon.replyTo = msg'.canon.replyTo by rw [same])
    have correlation : msg.correlation = msg'.correlation :=
      (show msg.canon.correlation = msg'.canon.correlation by rw [same])
    simp only [meter, read, read', replyTo, correlation]
    refine .ask ⟨.send _ ⟨rfl, meter_carried _⟩, List.mem_singleton.mpr rfl, ?_⟩ fun _ _ _ => .done ⟨rfl, rfl, rfl⟩
    exact (tallyOf_sound _).crosses (tallyOf_wireable _)

def meteredCalls (shard : Shard Object) : List (Sb.Input (Shard Object) (Foreign (Image Unit Int64))) :=
  [.registerShard (some shard) allowAny, .send 1 ⟨tallyOf 5, 0, 1, 9⟩, .pump, .kill 1, .send 1 ⟨tallyOf 6, 0, 0, 0⟩, .pump,
    .reload 1 []]

def meterHost (shard : Shard Object) : Option (Machine (Shard Object) (Foreign (Image Unit Int64))) :=
  play (hostOps (exported stillLoader fun _ => meter).toSeam (compiledOps fun _ => meter))
    (hostHandlers (exported stillLoader fun _ => meter) (compiledHandlers fun _ => meter)) 20
    (meteredCalls shard) (Author.published ⟨[Point]⟩ meterImage)

end Zen.Kernel
