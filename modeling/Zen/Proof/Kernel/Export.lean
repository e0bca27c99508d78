import Zen.Kernel.Delivery
import Zen.Proof.Core.Canon
import Zen.Proof.Core.Wire
import Zen.Proof.Switchboard.Substitution

/-!
# Handlers on both sides of the seam

A handler in a library is the handler of the class on a bus that makes NaNs canonical, lets through what
its host knows and the wire can carry, and says nothing of tickets and counts.
-/

namespace Zen.Kernel
open Lib Sb Proof

variable {τ ς ν : Type}

/-! ## Values on the wire -/

/-- The wire can carry the value. -/
def Wireable (v : Value) : Prop := v.schema.name.length < 2 ^ 16 ∧ validUtf8 v.schema.name = true ∧ v.raw.fits 0

/-- The value passes the gate at its own schema, and no two of the schemas it claims or declares collide. -/
structure Sound (v : Value) : Prop where
  own : (admitLive v v.schema .firstError).ok
  distinct : Raw.NoCollision v.raw.schemas v.schema.raw.schemas

theorem header_told {name name' : ByteString} {version version' : UInt32} {id id' : UInt64} {rest rest' : ByteString}
    (short : name.length < 2 ^ 16) (short' : name'.length < 2 ^ 16)
    (same : headerBytes name version id ++ rest = headerBytes name' version' id' ++ rest') :
    name = name' ∧ version = version' ∧ id = id' := by
  simp only [headerBytes, putU8, List.append_assoc, List.cons_append, List.nil_append, List.cons.injEq, true_and] at same
  have counted := (u16le_ok.mpr rfl).symm.trans (u16le_ok.mpr same)
  obtain ⟨count, same⟩ := EStateM.Result.ok.inj counted
  have length : name.length = name'.length := by
    rw [← UInt16.toNat_ofNat_of_lt' short, ← UInt16.toNat_ofNat_of_lt' short', count]
  obtain ⟨named, same⟩ := List.append_inj same length
  have versioned := (u32le_ok.mpr rfl).symm.trans (u32le_ok.mpr same)
  obtain ⟨sameVersion, same⟩ := EStateM.Result.ok.inj versioned
  have identified := (u64le_ok.mpr rfl).symm.trans (u64le_ok.mpr same)
  exact ⟨named, sameVersion, (EStateM.Result.ok.inj identified).1⟩

/-- Bytes that a door accepts were written for a value of its schema. -/
theorem accepted_identity {v : Value} {bytes : ByteString} (written : serialize v = .ok bytes) {door : Schema}
    {report : Report} {w : Value} (accepted : admitUnverified (parse bytes) door report = .accept w) :
    door.identity = v.schema.identity := by
  obtain ⟨short, body, _, rfl⟩ := serialize_ok.mp written
  obtain ⟨short', _, body', split, _, _⟩ := admit_parse_accept.mp accepted
  obtain ⟨name, version, id⟩ := header_told short short' split
  rw [Schema.identity, Schema.identity, name, version, id]

theorem parse_written {v : Value} {bytes : ByteString} (written : serialize v = .ok bytes)
    (utf8 : validUtf8 v.schema.name = true) :
    claimedName (parse bytes) = v.schema.name ∧ claimedVersion (parse bytes) = v.schema.version := by
  obtain ⟨short, body, _, rfl⟩ := serialize_ok.mp written
  have header : parseHeader.run (Schema.header v.schema ++ body) =
      .ok (v.schema.name, v.schema.version, v.schema.contentId) body := parseHeader_ok.mpr ⟨short, utf8, rfl⟩
  rw [parse, header]
  exact ⟨rfl, rfl⟩

/-- What becomes of a sound value at its own door. -/
theorem sound_admitted {v : Value} (sound : Sound v) {bytes : ByteString} (written : serialize v = .ok bytes) :
    (Wireable v ∧ admitUnverified (parse bytes) v.schema .firstError = .accept v.canon) ∨
      (¬ Wireable v ∧ ∃ errors, admitUnverified (parse bytes) v.schema .firstError = .reject errors) := by
  obtain ⟨_, ⟨body, code⟩, declared⟩ := live_encodes sound.distinct sound.own
  have conforms := (admitLive_ok.mp sound.own).2
  obtain ⟨short, body', code', rfl⟩ := serialize_ok.mp written
  rw [code] at code'
  cases code'
  have wire := accepted_iff_fits code declared .firstError
  by_cases wireable : Wireable v
  · exact .inl ⟨wireable, (wire v.canon).mpr ⟨short, wireable.2.1, wireable.2.2, rfl, conforms⟩⟩
  · refine .inr ⟨wireable, ?_⟩
    cases verdict : admitUnverified (parse (Schema.header v.schema ++ body)) v.schema .firstError with
    | accept w =>
        obtain ⟨_, utf8, fits, _⟩ := (wire w).mp verdict
        exact absurd ⟨short, utf8, fits⟩ wireable
    | reject errors => exact ⟨errors, rfl⟩

theorem serialize_sound {v : Value} (sound : Sound v) :
    (v.schema.name.length < 2 ^ 16 ∧ ∃ bytes, serialize v = .ok bytes) ∨
      (¬ v.schema.name.length < 2 ^ 16 ∧ serialize v =
        .error (.invalidArgument "serialize: schema name exceeds 65535 bytes")) := by
  obtain ⟨_, ⟨body, code⟩, _⟩ := live_encodes sound.distinct sound.own
  by_cases short : v.schema.name.length < 2 ^ 16
  · exact .inl ⟨short, _, serialize_ok.mpr ⟨short, body, code, rfl⟩⟩
  · refine .inr ⟨short, ?_⟩
    rw [serialize, if_pos (by omega)]

/-! ## From the library to the bus -/

/-- No schema that is published collides with one that the value claims. -/
def Apart (registry : Registry) (v : Value) : Prop :=
  ∀ door ∈ registry.published, Raw.NoCollision v.raw.schemas door.raw.schemas

-- the schema of the value is the one that is published under its name and version
def Published (registry : Registry) (v : Value) : Prop := registry.lookup v.schema.name v.schema.version = some v.schema

theorem lookup_published {registry : Registry} {name : ByteString} {version : UInt32} {door : Schema}
    (found : registry.lookup name version = some door) : door ∈ registry.published :=
  List.mem_of_find?_eq_some found

theorem resolved_sound {registry : Registry} {v : Value} (sound : Sound v) (apart : Apart registry v) {bytes : ByteString}
    (written : serialize v = .ok bytes) :
    (Wireable v ∧ Published registry v ∧ resolved registry bytes = .ok v.canon) ∨
      (¬ (Wireable v ∧ Published registry v) ∧ ∃ status, resolved registry bytes = .error status) := by
  by_cases good : Wireable v ∧ Published registry v
  · obtain ⟨wireable, published⟩ := good
    refine .inl ⟨wireable, published, ?_⟩
    obtain ⟨name, version⟩ := parse_written written wireable.2.1
    rcases sound_admitted sound written with ⟨_, accepted⟩ | ⟨unwireable, _⟩
    · simp only [resolved, name, version, show registry.lookup _ _ = _ from published, accepted]
    · exact absurd wireable unwireable
  · refine .inr ⟨good, ?_⟩
    unfold resolved
    simp only
    cases found : registry.lookup (claimedName (parse bytes)) (claimedVersion (parse bytes)) with
    | none => exact ⟨_, rfl⟩
    | some door =>
        simp only
        cases verdict : admitUnverified (parse bytes) door .firstError with
        | reject errors => exact ⟨_, rfl⟩
        | accept w =>
            have identity := accepted_identity written verdict
            have same : v.schema = door := by
              refine schema_of_raw (apart door (lookup_published found) v.raw.schema ?_ door.raw ?_ ?_)
              · simp [Raw.Value.schemas_eq]
              · simp [Raw.Schema.schemas_eq]
              · exact (congrArg (fun i => i.2.2) identity).symm
            subst same
            rcases sound_admitted sound written with ⟨wireable, _⟩ | ⟨_, errors, refused⟩
            · obtain ⟨name, version⟩ := parse_written written wireable.2.1
              rw [name, version] at found
              exact absurd ⟨wireable, found⟩ good
            · rw [refused] at verdict
              cases verdict

/-! ## The bus behind the seam -/

def tooLong : Exn := .invalidArgument "serialize: schema name exceeds 65535 bytes"

/-- What comes of a value that is sent in a library. -/
noncomputable def passed (registry : Registry) (v : Value) (call : Value → BusCall) : Dialogue BusCall BusAnswer BusAnswer :=
  open Classical in
  if ¬ v.schema.name.length < 2 ^ 16 then .done (.error tooLong)
  else if Wireable v ∧ Published registry v then .ask (call v.canon) fun _ => .done (.ok 0)
  else .done (.ok 0)

noncomputable def seamBus (registry : Registry) : BusCall → Dialogue BusCall BusAnswer BusAnswer
  | .send target msg => passed registry msg.payload fun v => .send target ⟨v, 0, msg.replyTo, msg.correlation⟩
  | .publish msg => passed registry msg.payload fun v => .publish ⟨v, 0, msg.replyTo, msg.correlation⟩

theorem forward_passed {registry : Registry} {v : Value} (sound : Sound v) (apart : Apart registry v)
    {call : ByteString → HostCall} {call' : Value → BusCall}
    (routes : ∀ bytes, hostApi registry (call bytes) = route registry bytes call') :
    (forward v call).through (hostApi registry) = passed registry v call' := by
  unfold forward passed
  rcases serialize_sound sound with ⟨short, bytes, written⟩ | ⟨long, fails⟩
  · rw [written, if_neg (not_not_intro short)]
    simp only [Dialogue.through, routes, route]
    rcases resolved_sound sound apart written with ⟨wireable, published, accepted⟩ | ⟨not, status, refused⟩
    · rw [if_pos ⟨wireable, published⟩, accepted]
      rfl
    · rw [if_neg not, refused]
      rfl
  · rw [fails, if_pos long]
    rfl

theorem bus_seamed {registry : Registry} {call : BusCall} (sound : Sound call.payload)
    (apart : Apart registry call.payload) : (hostApiBus call).through (hostApi registry) = seamBus registry call := by
  cases call with
  | send target msg =>
      exact @forward_passed registry _ sound apart (.send target msg.replyTo msg.correlation) _ fun _ => rfl
  | publish msg => exact @forward_passed registry _ sound apart (.publish msg.replyTo msg.correlation) _ fun _ => rfl

/-! ## One delivery -/

/-- All that a handler sends is sound, whatever it is answered. -/
def SendsSound (registry : Registry) {β : Type} (d : Dialogue BusCall BusAnswer β) : Prop :=
  d.Only fun call => Sound call.payload ∧ Apart registry call.payload

theorem handler_seamed {registry : Registry} {β : Type} {d : Dialogue BusCall BusAnswer β} (sends : SendsSound registry d) :
    (d.through hostApiBus).through (hostApi registry) = d.through (seamBus registry) := by
  rw [Dialogue.through_through]
  exact sends.through_congr fun call ⟨sound, apart⟩ => bus_seamed sound apart

/-- The door that a message has come through. -/
structure Through (accepted : List Schema) (v : Value) (door : Schema) : Prop where
  first : accepted.find? (fun sc => sc.name == v.schema.name && sc.version == v.schema.version) = some door
  gated : (admitLive v door .firstError).ok
  distinct : ∀ sc ∈ accepted, Raw.NoCollision v.raw.schemas sc.raw.schemas

theorem Through.schema {accepted : List Schema} {v : Value} {door : Schema} (h : Through accepted v door) :
    v.schema = door :=
  (live_encodes (h.distinct door (List.mem_of_find?_eq_some h.first)) h.gated).1

theorem Through.sound {accepted : List Schema} {v : Value} {door : Schema} (h : Through accepted v door) : Sound v := by
  have distinct := h.distinct door (List.mem_of_find?_eq_some h.first)
  obtain rfl := h.schema
  exact ⟨h.gated, distinct⟩

/-- The thunk, given what has been written of the message. -/
theorem doHandle_written (c : ShardClass τ) {s : τ} {accepted : List Schema} (declares : c.acceptedSchemas s = .ok accepted)
    {v : Value} {door : Schema} (through : Through accepted v door) {bytes : ByteString}
    (written : serialize v = .ok bytes) (sender replyTo : ShardId) (correlation : UInt64) :
    (Wireable v ∧ c.doHandle sender replyTo correlation bytes s =
      ((c.handle ⟨v.canon, sender, replyTo, correlation⟩ s).through hostApiBus).map fun (result, s) =>
        (statusOf result, s)) ∨
    (¬ Wireable v ∧ ∃ status, c.doHandle sender replyTo correlation bytes s = .done (status, s)) := by
  have schema := through.schema
  subst schema
  unfold ShardClass.doHandle
  simp only [declares]
  rcases sound_admitted through.sound written with ⟨wireable, admitted⟩ | ⟨unwireable, errors, refused⟩
  · obtain ⟨name, version⟩ := parse_written written wireable.2.1
    refine .inl ⟨wireable, ?_⟩
    rw [name, version, through.first]
    simp only [admitted]
  · refine .inr ⟨unwireable, ?_⟩
    cases found : accepted.find? fun sc =>
        sc.name == claimedName (parse bytes) && sc.version == claimedVersion (parse bytes) with
    | none => exact ⟨_, rfl⟩
    | some door =>
        simp only
        cases verdict : admitUnverified (parse bytes) door .firstError with
        | reject errors => exact ⟨_, rfl⟩
        | accept w =>
            have listed : door ∈ accepted := List.mem_of_find?_eq_some found
            have same : v.schema = door := by
              refine schema_of_raw (through.distinct door listed v.raw.schema ?_ door.raw ?_ ?_)
              · simp [Raw.Value.schemas_eq]
              · simp [Raw.Schema.schemas_eq]
              · exact (congrArg (fun i => i.2.2) (accepted_identity written verdict)).symm
            rw [← same, refused] at verdict
            cases verdict

theorem Objects.store_same {objects : Objects τ} {inst : Pointer} {s : τ} (there : objects.at? inst = some s) :
    objects.store inst s = objects := by
  rw [Objects.store, ← there, Function.update_eq_self]

variable {loader : Loader ς} {cls : Pointer → ShardClass τ}

/-- What a library leaves behind: the object as it is now. -/
def stored (foreign : Foreign (Image ς τ)) (inst : Pointer) (s : τ) : Foreign (Image ς τ) :=
  { foreign with memory := (foreign.memory.1, foreign.memory.2.store inst s) }

-- adds up what it is sent and answers with the sum
def meter : ShardClass Int64 where
  create := .ok 0
  acceptedSchemas _ := .ok [Point]
  snapshot n := .ok (tallyOf n)
  policy _ := .ok (policyOf 2)
  revive v := fun n =>
    match tallyIn v with
    | .ok next => .ok () next
    | .error e => .error e n
  handle msg n :=
    match tallyIn msg.payload with
    | .error e => .done (.error e, n)
    | .ok more => .ask (.send msg.replyTo ⟨tallyOf (n + more), 0, 0, msg.correlation⟩) fun _ => .done (.ok (), n + more)

theorem tallyOf_sound (n : Int64) : Sound (tallyOf n) := by
  refine ⟨admitLive_ok.mpr ⟨rfl, rfl, trivial⟩, ?_⟩
  intro s hs s' hs' _
  have claimed : s = Point.raw := by
    simpa [tallyOf, Raw.Value.schemas, Raw.slotSchemas, Raw.Cell.schemas] using hs
  have declared : s' = Point.raw := by
    simpa [tallyOf, Value.schema, Point, Raw.Schema.schemas, Raw.fieldSchemas, Raw.TypeRef.schemas] using hs'
  rw [claimed, declared]

theorem tallyOf_wireable (n : Int64) : Wireable (tallyOf n) := by
  refine ⟨?_, ?_, ?_⟩
  · show Point.name.length < 2 ^ 16
    decide
  · show validUtf8 Point.name = true
    decide +kernel
  · rfl

theorem tallyOf_published (n : Int64) : Published ⟨[Point]⟩ (tallyOf n) := by
  show Registry.lookup ⟨[Point]⟩ Point.name Point.version = some Point
  simp [Registry.lookup]

theorem tallyOf_apart (n : Int64) : Apart ⟨[Point]⟩ (tallyOf n) := by
  intro door hdoor
  rw [List.mem_singleton.mp hdoor]
  exact (tallyOf_sound n).distinct

-- a meter at address 1
def meterImage : Foreign (Image Unit Int64) := ⟨((), ⟨fun p => if p = 1 then some 40 else none, 2⟩), []⟩

-- every library is the one at 7
def stillLoader : Loader Unit := ⟨fun _ memory => (.ok 1, memory), fun _ => 7, fun _ memory => memory⟩

end Zen.Kernel
