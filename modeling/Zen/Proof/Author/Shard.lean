import Zen.Author.Shard
import Zen.Proof.Author.Shape
import Zen.Proof.Switchboard.Safety

/-!
# Which handler a message reaches

The bus chooses a door by name and version among canonical schemas, the gate compares content ids with
it, and `handle` compares identities with the class's own schemas. Each record keeps the identities that
its class declares, which joins the three.
-/

namespace Zen.Author
open Lib Sb
open Kernel (make_ok)

variable {τ ν ρ ω : Type}

/-! ## Dispatch -/

def Shape.key (s : Shape) : ByteString × UInt32 := (s.zenName, s.zenVersion)

theorem schemaOf_key {s : Shape} {schema : Schema} (derived : s.schemaOf = .ok schema) :
    s.key = (schema.name, schema.version) := by
  obtain ⟨zenName, zenVersion, entries⟩ := s
  rw [Shape.schemaOf] at derived
  obtain ⟨fields, _, made⟩ := except_bind_ok.mp derived
  rw [Schema.name, Schema.version, make_ok made]
  rfl

theorem sameIdentity_iff {a b : Schema} : sameIdentity a b = true ↔ a.identity = b.identity := by
  simp [sameIdentity, Schema.identity, and_assoc]

theorem dispatchTo_passes (on : On τ) (mail : Mail) {s : Shape} {schema : Schema} (derived : s.schemaOf = .ok schema)
    (other : ¬ sameIdentity schema mail.inbound.payload.schema) : dispatchTo on mail s = return false := by
  rw [dispatchTo, derived]
  simp [Handler.of, other]

theorem dispatchTo_calls (on : On τ) (mail : Mail) {s : Shape} {schema : Schema} (derived : s.schemaOf = .ok schema)
    (same : sameIdentity schema mail.inbound.payload.schema) {obj : s.Object}
    (read : fromValue s mail.inbound.payload.raw = .ok obj) :
    dispatchTo on mail s = do on s obj mail; return true := by
  rw [dispatchTo, derived, read]
  simp [Handler.of, Handler.unchecked, same]

/-- The shapes before the first match are passed over, and those after it are not tried. -/
theorem dispatchAny_calls (on : On τ) (mail : Mail) {shapes : List Shape} (typed : ∀ s ∈ shapes, ∃ schema, s.schemaOf = .ok schema)
    {s : Shape} (listed : s ∈ shapes) {obj : s.Object} (read : fromValue s mail.inbound.payload.raw = .ok obj)
    (chosen : ∀ s' ∈ shapes, ∀ schema, s'.schemaOf = .ok schema →
      (sameIdentity schema mail.inbound.payload.schema = true ↔ s' = s)) :
    dispatchAny on mail shapes = do on s obj mail; return true := by
  induction shapes with
  | nil => cases listed
  | cons head shapes ih =>
      obtain ⟨⟨schema, derived⟩, typed⟩ := List.forall_mem_cons.mp typed
      obtain ⟨here, chosen⟩ := List.forall_mem_cons.mp chosen
      rw [dispatchAny]
      by_cases first : head = s
      · subst first
        rw [dispatchTo_calls on mail derived ((here schema derived).mpr rfl) read]
        simp
      · rw [dispatchTo_passes on mail derived (fun same => first ((here schema derived).mp same))]
        have later := (List.mem_cons.mp listed).resolve_left (Ne.symm first)
        simpa using ih typed later chosen

theorem handle_calls (c : ShardClass) (on : On τ) (self : ShardId) (inbound : Message)
    (typed : ∀ s ∈ c.accept, ∃ schema, s.schemaOf = .ok schema) {s : Shape} (listed : s ∈ c.accept) {obj : s.Object}
    (read : fromValue s inbound.payload.raw = .ok obj)
    (chosen : ∀ s' ∈ c.accept, ∀ schema, s'.schemaOf = .ok schema →
      (sameIdentity schema inbound.payload.schema = true ↔ s' = s)) :
    c.handle on self inbound = on s obj ⟨inbound, self⟩ := by
  rw [ShardClass.handle, dispatchAny_calls on ⟨inbound, self⟩ typed listed read chosen]
  simp

/-! ## The doors of a class -/

/-- The schemas that a class declares are those of its record, up to identity. -/
def DoorsOf (c : ShardClass) (doors : List Schema) : Prop :=
  ∃ schemas, c.acceptedSchemas = .ok schemas ∧ schemas.map Schema.identity = doors.map Schema.identity

theorem DoorsOf.typed {c : ShardClass} {doors : List Schema} (h : DoorsOf c doors) :
    ∀ s ∈ c.accept, ∃ schema, s.schemaOf = .ok schema := by
  obtain ⟨schemas, declared, _⟩ := h
  intro s listed
  obtain ⟨schema, _, derived⟩ := (mapM_partners declared).1 s listed
  exact ⟨schema, derived⟩

theorem DoorsOf.shape {c : ShardClass} {doors : List Schema} (h : DoorsOf c doors) {door : Schema} (listed : door ∈ doors) :
    ∃ s ∈ c.accept, ∃ schema, s.schemaOf = .ok schema ∧ schema.identity = door.identity := by
  obtain ⟨schemas, declared, same⟩ := h
  have known : door.identity ∈ schemas.map Schema.identity := by
    rw [same]
    exact List.mem_map_of_mem listed
  obtain ⟨schema, among, identity⟩ := List.mem_map.mp known
  obtain ⟨s, accepted, derived⟩ := (mapM_partners declared).2 schema among
  exact ⟨s, accepted, schema, derived, identity⟩

/-! ## Along a run -/

theorem published_ok {σ : Type} (registry : Registry) (env : ω) :
    RecordsOk (published registry env : Machine σ ω) where
  keyed := by intro k rec found; cases found
  below := by intro k rec found; cases found
  granted := by intro k rec found; cases found
  good := by intro k rec found; cases found
  unique := List.nodup_nil
  used := by intro entry h; cases h

section
variable [DecidableEq ν] {cls : ν → ShardClass} {others : ShardOps ρ (Memory cls ω)}
variable {undefined : Fault → EStateM Exn (Memory cls ω) Unit}

def DoorsOk (cls : ν → ShardClass) (m : Machine (ν ⊕ ρ) (Memory cls ω)) : Prop :=
  ∀ k rec n, m.world.sb.find k = some rec → rec.shard = .inl n → DoorsOf (cls n) rec.accept

theorem authored_schemas {n : ν} {memory memory' : Memory cls ω} {declared : List (Option Schema)}
    (asked : ((authorOps cls others undefined).acceptedSchemas (.inl n)).run memory = .ok declared memory') :
    ∃ schemas, (cls n).acceptedSchemas = .ok schemas ∧ declared = schemas.map some := by
  simp only [authorOps, EStateM.run] at asked
  cases written : (cls n).acceptedSchemas with
  | error e =>
      rw [written] at asked
      cases asked
  | ok schemas =>
      rw [written] at asked
      cases asked
      exact ⟨schemas, rfl, rfl⟩

theorem fresh_doors {w : World (ν ⊕ ρ) (Memory cls ω)} {incoming : Option (ν ⊕ ρ)} {id : ShardId} {grant : Grant}
    {rec : ShardRecord (ν ⊕ ρ)} (fresh : Fresh (authorOps cls others undefined) w incoming id grant rec) {n : ν}
    (authored : rec.shard = .inl n) : DoorsOf (cls n) rec.accept := by
  obtain ⟨declared, env, asked, same⟩ := fresh.accept
  rw [authored] at asked
  obtain ⟨schemas, known, rfl⟩ := authored_schemas asked
  refine ⟨schemas, known, ?_⟩
  apply List.map_injective_iff.mpr (Option.some_injective _)
  simpa [Function.comp_def] using same

theorem step_doors {input : Input (ν ⊕ ρ) (Memory cls ω)} {m m' : Machine (ν ⊕ ρ) (Memory cls ω)}
    (action : Machine.step (authorOps cls others undefined) input m = some m') (below : m.world.sb.Below)
    (ok : DoorsOk cls m) : DoorsOk cls m' := by
  intro k rec n found authored
  rcases step_joined action with ⟨grant, id, w, registered, state⟩ | reshaped
  · obtain ⟨_, _, rfl, _, added, shards, fresh⟩ := registered
    subst state
    rw [below.find_added shards] at found
    split at found
    · cases found
      exact fresh_doors fresh authored
    · exact ok k rec n found authored
  · rcases (reshaped none).origin below found with ⟨old, before, kept, _⟩ | ⟨_, _, _, _, joins⟩
    · rw [kept.accept]
      exact ok k old n before (kept.shard ▸ authored)
    · cases joins

theorem doors_ok {registry : Registry} {env : Memory cls ω} {inputs : List (Input (ν ⊕ ρ) (Memory cls ω))}
    {m : Machine (ν ⊕ ρ) (Memory cls ω)}
    (run : Reaches (authorOps cls others undefined) (published registry env) inputs m) : DoorsOk cls m := by
  refine (run.invariant (I := fun m => RecordsOk m ∧ DoorsOk cls m) ?_ ⟨published_ok registry env, ?_⟩).2
  · intro input m m' ok action
    exact ⟨(step_reshaped action).ok ok.1, step_doors action ok.1.below ok.2⟩
  · intro k rec n found
    cases found

/-! ## Delivery -/

/-- What the bus delivers to an authored Shard is for one of its handlers, whichever these are. -/
theorem delivered_reaches_one_handler {registry : Registry} {env : Memory cls ω}
    {inputs : List (Input (ν ⊕ ρ) (Memory cls ω))} {input : Input (ν ⊕ ρ) (Memory cls ω)}
    {m m' : Machine (ν ⊕ ρ) (Memory cls ω)} {target : ShardId} {msg : Message} {rec : ShardRecord (ν ⊕ ρ)} {n : ν}
    (run : Reaches (authorOps cls others undefined) (published registry env) inputs m)
    (action : Machine.step (authorOps cls others undefined) input m = some m')
    (delivered : m'.world.log.handled = m.world.log.handled ++ [(target, msg)])
    (found : m.world.sb.find target = some rec) (authored : rec.shard = .inl n)
    (distinct : ((cls n).accept.map Shape.key).Nodup)
    (apart : ∀ door ∈ rec.accept, ∀ s ∈ (cls n).accept, ∀ schema, s.schemaOf = .ok schema →
      door.contentId = schema.contentId → door = schema) :
    ∃ s ∈ (cls n).accept, s.key = (msg.name, msg.version) ∧
      (∀ s' ∈ (cls n).accept, s'.key = (msg.name, msg.version) → s' = s) ∧
      ∃ obj, fromValue s msg.payload.raw = .ok obj ∧ ∀ (τ : Type) (on : On τ) (self : ShardId),
        (cls n).handle on self msg = on s obj ⟨msg, self⟩ := by
  rcases step_handled action with same | ⟨e, queue, trusted, w, _, turn, grown⟩
  · rw [same] at delivered
    simp at delivered
  · rw [delivered] at grown
    obtain ⟨rfl, rfl⟩ := Prod.mk.inj (List.singleton_inj.mp (List.append_cancel_left grown))
    obtain ⟨known, door, located, _, matched, admitted⟩ := turn.routed
    have located : m.world.sb.find e.target = some known := located
    rw [found] at located
    cases located
    obtain ⟨listed, name, version⟩ := acceptMatch_eq_some matched
    have doors := doors_ok run e.target rec n found authored
    obtain ⟨s, accepted, schema, derived, identity⟩ := doors.shape listed
    have key := schemaOf_key derived
    have same := apart door listed s accepted schema derived (congrArg (fun i => i.2.2) identity).symm
    subst same
    rw [name, version] at key
    have unique : ∀ s' ∈ (cls n).accept, s'.key = (e.msg.name, e.msg.version) → s' = s := by
      intro s' among key'
      exact List.inj_on_of_nodup_map distinct among accepted (key'.trans key.symm)
    obtain ⟨content, conforms⟩ := Proof.admitLive_ok.mp (accepted_of_live admitted)
    obtain ⟨obj, read⟩ := fromValue_reads s derived e.msg.payload.raw conforms
    refine ⟨s, accepted, key, unique, obj, read, ?_⟩
    intro τ on self
    apply handle_calls (cls n) on self e.msg doors.typed accepted read
    intro s' among schema' derived'
    rw [sameIdentity_iff]
    constructor
    · intro claimed
      apply unique s' among
      rw [schemaOf_key derived']
      exact congrArg (fun i => (i.1, i.2.1)) claimed
    · rintro rfl
      rw [derived] at derived'
      cases derived'
      exact Prod.ext name (Prod.ext version content.symm)

end

/-! ## A greeting -/

def gongShape : Shape := ⟨ascii "Gong", 1, [⟨ascii "n", .int64⟩]⟩

def countedPing : Shape := ⟨ascii "Ping", 1, [⟨ascii "n", .int64⟩]⟩

def greeter : ShardClass := { state := countedPing, accept := [gongShape, countedPing] }

def greeterOps : ShardOps (Unit ⊕ Unit) (Memory (fun _ : Unit => greeter) Unit) :=
  authorOps (fun _ => greeter)
    { acceptedSchemas := fun _ => pure [some Ping], snapshot := fun _ => pure (pingValue 0),
      policy := fun _ => pure pingPolicy, revive := fun _ _ => pure () }
    fun _ => pure ()

def ungreeted : Machine (Unit ⊕ Unit) (Memory (fun _ : Unit => greeter) Unit) := published {} (fun _ => ((0 : Int64), ()), ())

-- the other Shard has published `Ping` before
def greeting : List (Input (Unit ⊕ Unit) (Memory (fun _ : Unit => greeter) Unit)) :=
  [.registerShard (some (.inr ())) anyone, .registerShard (some (.inl ())) {}, .sendAs 1 2 ⟨pingValue 7, 0, 0, 0⟩, .pump]

def Gong : Schema := ⟨⟨ascii "Gong", 1, [⟨ascii "n", .int, true⟩]⟩, by decide⟩

-- what a schema with a single counter is made of
structure Counter where
  name : ByteString
  version : UInt32
  field : ByteString
  deriving DecidableEq

def counter : Schema → Option Counter
  | ⟨⟨name, version, [⟨field, .int, true⟩]⟩, _⟩ => some ⟨name, version, field⟩
  | _ => none

theorem counter_inj {a b : Schema} {parts : Counter} (h : counter a = some parts)
    (h' : counter b = some parts) : a = b := by
  unfold counter at h h'
  split at h
  · split at h'
    · cases h
      cases h'
      rfl
    · cases h'
  · cases h

theorem greeter_apart {doors : List Schema} (made : doors.map counter = [counter Gong, counter Ping]) :
    ∀ door ∈ doors, ∀ s ∈ greeter.accept, ∀ schema, s.schemaOf = .ok schema → door.contentId = schema.contentId →
      door = schema := by
  intro door listed s among schema derived same
  have known : counter door ∈ [counter Gong, counter Ping] := by
    rw [← made]
    exact List.mem_map_of_mem listed
  have which : door = Gong ∨ door = Ping := by
    rcases List.mem_pair.mp known with gong | ping
    · exact Or.inl (counter_inj gong rfl)
    · exact Or.inr (counter_inj ping rfl)
  have derives : schema = Gong ∨ schema = Ping := by
    rcases List.mem_pair.mp among with rfl | rfl
    · exact Or.inl (Except.ok.inj derived).symm
    · exact Or.inr (Except.ok.inj derived).symm
  have different : Gong.contentId ≠ Ping.contentId := by decide +kernel
  rcases which with rfl | rfl <;> rcases derives with rfl | rfl
  · rfl
  · exact absurd same different
  · exact absurd same.symm different
  · rfl

theorem delivered_reaches_one_handler_greeting : ∃ m m' msg, Reaches greeterOps ungreeted greeting m ∧
    Machine.step greeterOps .turn m = some m' ∧ m'.world.log.handled = [(2, msg)] ∧
    ∃ s ∈ greeter.accept, s.key = (msg.name, msg.version) ∧ ∃ obj, fromValue s msg.payload.raw = .ok obj ∧
      ∀ (τ : Type) (on : On τ) (self : ShardId), greeter.handle on self msg = on s obj ⟨msg, self⟩ := by
  have evaluated : ((exec (Machine.step greeterOps) greeting ungreeted).bind fun m =>
      (m.world.sb.find 2).bind fun rec => (Machine.step greeterOps .turn m).map fun m' =>
        (m.world.log.handled.length, m'.world.log.handled.map Prod.fst, rec.shard, rec.accept.map counter)) =
          some (0, [2], .inl (), [counter Gong, counter Ping]) := by
    decide +kernel
  obtain ⟨m, reached, seen⟩ := Option.bind_eq_some_iff.mp evaluated
  obtain ⟨rec, found, seen⟩ := Option.bind_eq_some_iff.mp seen
  obtain ⟨m', action, seen⟩ := Option.map_eq_some_iff.mp seen
  simp only [Prod.mk.injEq, List.length_eq_zero_iff] at seen
  obtain ⟨before, after, authored, doors⟩ := seen
  obtain ⟨⟨target, msg⟩, handled, here⟩ := List.map_eq_singleton_iff.mp after
  cases here
  have run := Run.of_exec reached
  have delivered : m'.world.log.handled = m.world.log.handled ++ [(2, msg)] := by rw [before, handled, List.nil_append]
  obtain ⟨s, listed, key, _, called⟩ :=
    delivered_reaches_one_handler run action delivered found authored (by decide +kernel) (greeter_apart doors)
  exact ⟨m, m', msg, run, action, handled, s, listed, key, called⟩

end Zen.Author
