import Zen.Proof.Switchboard.Fifo

/-!
# Refused registrations

`register_shard` publishes each schema of the accept-set as it meets it, and the state schema before
the gate has seen the snapshot. What it has published when it throws stays published.
-/

namespace Zen

/-! ## Publishing -/

theorem Registry.registerSchema_keeps {r r' : Registry} {schema owner : Schema} {inserted : Bool}
    (h : r.registerSchema schema = .ok (r', owner, inserted)) {name : ByteString} {version : UInt32}
    (known : (r.lookup name version).isSome) : (r'.lookup name version).isSome := by
  unfold registerSchema at h
  split at h
  · split at h
    · cases h
      exact known
    · cases h
  · cases h
    rw [lookup, List.find?_append, ← lookup]
    simp [known]

theorem Registry.registerSchema_new {r : Registry} {schema : Schema}
    (new : r.lookup schema.name schema.version = none) :
    ∃ r', r.registerSchema schema = .ok (r', schema, true) ∧
      (r'.lookup schema.name schema.version).isSome := by
  rw [registerSchema, new]
  refine ⟨_, rfl, ?_⟩
  rw [lookup, List.find?_append, ← lookup, new]
  simp

theorem Registry.registerSchema_known {r : Registry} {schema existing : Schema}
    (known : r.lookup schema.name schema.version = some existing) :
    r.registerSchema schema = if existing.contentId = schema.contentId then .ok (r, existing, false)
      else .error (.schemaConflict (conflictWhat schema.name schema.version)) := by
  rw [registerSchema, known]

/-- Up to the first entry that is refused, each schema is published already. -/
def Registry.Knows (r : Registry) : List (Option Schema) → Prop
  | [] => True
  | none :: _ => True
  | some schema :: declared =>
      ∃ existing, r.lookup schema.name schema.version = some existing ∧
        (existing.contentId = schema.contentId → r.Knows declared)

/-- No entry is refused, and each is published already. -/
def Registry.Agrees (r : Registry) (declared : List (Option Schema)) : Prop :=
  ∀ entry ∈ declared, ∃ schema existing, entry = some schema ∧
    r.lookup schema.name schema.version = some existing ∧ existing.contentId = schema.contentId

/-- Some (name, version) is published that was not. -/
def Registry.Gained (r r' : Registry) : Prop :=
  ∃ name version, r.lookup name version = none ∧ (r'.lookup name version).isSome

theorem Registry.Gained.later {r r' r'' : Registry} (gained : r.Gained r')
    (keeps : ∀ name version, (r'.lookup name version).isSome → (r''.lookup name version).isSome) :
    r.Gained r'' := by
  obtain ⟨name, version, new, there⟩ := gained
  exact ⟨name, version, new, keeps name version there⟩

namespace Sb
open Lib BusM

variable {σ ω : Type}

def World.publishing (w : World σ ω) (registry : Registry) : World σ ω :=
  { w with sb := { w.sb with registry } }

theorem registerSchema_keeps (schema : Schema) (w : World σ ω) :
    wp (BusM.registerSchema schema) w fun _ w' => ∃ registry, w' = w.publishing registry ∧
      ∀ name version, (w.sb.registry.lookup name version).isSome → (registry.lookup name version).isSome := by
  simp only [wp, BusM.registerSchema, EStateM.run]
  cases registered : w.sb.registry.registerSchema schema with
  | error e => exact ⟨w.sb.registry, rfl, fun _ _ known => known⟩
  | ok result => exact ⟨result.1, rfl, fun _ _ known => Registry.registerSchema_keeps registered known⟩

theorem registerAccept_keeps (declared : List (Option Schema)) (w : World σ ω) :
    wp (registerAccept declared) w fun _ w' => ∃ registry, w' = w.publishing registry ∧
      ∀ name version, (w.sb.registry.lookup name version).isSome → (registry.lookup name version).isSome := by
  induction declared generalizing w with
  | nil => exact ⟨w.sb.registry, rfl, fun _ _ known => known⟩
  | cons entry declared ih =>
      cases entry with
      | none => exact ⟨w.sb.registry, rfl, fun _ _ known => known⟩
      | some schema =>
          rw [registerAccept, wp_bind]
          apply wp_mono (registerSchema_keeps schema w)
          rintro (e | owner) _ ⟨registry, rfl, keeps⟩
          · exact ⟨registry, rfl, keeps⟩
          · rw [andThen_ok, wp_bind]
            apply wp_mono (ih _)
            rintro (e | owners) _ ⟨registry', rfl, keeps'⟩
            · exact ⟨registry', rfl, fun name version known => keeps' name version (keeps name version known)⟩
            · exact ⟨registry', rfl, fun name version known => keeps' name version (keeps name version known)⟩

/-! ## The accept-set -/

inductive AcceptSet (declared : List (Option Schema)) (w : World σ ω) (r : Except Exn (List Schema))
    (w' : World σ ω) : Prop where
  | quiet (known : w.sb.registry.Knows declared) (same : w' = w)
      (agrees : (∃ owners, r = .ok owners) ↔ w.sb.registry.Agrees declared)
  | loud (unknown : ¬ w.sb.registry.Knows declared) (registry : Registry) (state : w' = w.publishing registry)
      (gained : w.sb.registry.Gained registry)

theorem registerAccept_set (declared : List (Option Schema)) (w : World σ ω) :
    wp (registerAccept declared) w (AcceptSet declared w) := by
  induction declared with
  | nil => exact .quiet trivial rfl ⟨fun _ => nofun, fun _ => ⟨[], rfl⟩⟩
  | cons entry declared ih =>
      cases entry with
      | none =>
          refine .quiet trivial rfl ⟨by rintro ⟨_, ⟨⟩⟩, fun agrees => ?_⟩
          obtain ⟨_, _, ⟨⟩, _⟩ := agrees none (by simp)
      | some schema =>
          rw [registerAccept, wp_bind]
          cases found : w.sb.registry.lookup schema.name schema.version with
          | none =>
              have unknown : ¬ w.sb.registry.Knows (some schema :: declared) := by
                rintro ⟨existing, known, _⟩
                rw [found] at known
                cases known
              obtain ⟨registry, registered, there⟩ := Registry.registerSchema_new found
              have run : (BusM.registerSchema schema : BusM σ ω Schema).run w =
                  .ok schema (w.publishing registry) := by
                simp only [BusM.registerSchema, EStateM.run, registered]
                rfl
              rw [wp_of_ok run, andThen_ok, wp_bind]
              apply wp_mono (registerAccept_keeps declared _)
              rintro r _ ⟨registry', rfl, keeps⟩
              have gained : w.sb.registry.Gained registry' :=
                ⟨schema.name, schema.version, found, keeps _ _ there⟩
              cases r with
              | error e => exact .loud unknown registry' rfl gained
              | ok owners => exact .loud unknown registry' rfl gained
          | some existing =>
              have registered := Registry.registerSchema_known found
              by_cases same : existing.contentId = schema.contentId
              · rw [if_pos same] at registered
                have run : (BusM.registerSchema schema : BusM σ ω Schema).run w = .ok existing w := by
                  simp only [BusM.registerSchema, EStateM.run, registered]
                have walks : w.sb.registry.Knows (some schema :: declared) ↔ w.sb.registry.Knows declared := by
                  simp [Registry.Knows, found, same]
                have joins : w.sb.registry.Agrees (some schema :: declared) ↔
                    w.sb.registry.Agrees declared := by
                  simp [Registry.Agrees, found, same]
                rw [wp_of_ok run, andThen_ok, wp_bind]
                apply wp_mono ih
                intro r w' h
                cases h with
                | quiet known state agrees =>
                    cases r with
                    | error e =>
                        refine .quiet (walks.mpr known) state ?_
                        rw [joins, ← agrees]
                    | ok owners =>
                        refine .quiet (walks.mpr known) state ?_
                        rw [joins, ← agrees]
                        simp
                | loud unknown registry state gained =>
                    cases r with
                    | error e => exact .loud (mt walks.mp unknown) registry state gained
                    | ok owners => exact .loud (mt walks.mp unknown) registry state gained
              · rw [if_neg same] at registered
                have run : (BusM.registerSchema schema : BusM σ ω Schema).run w =
                    .error (.schemaConflict (conflictWhat schema.name schema.version)) w := by
                  simp only [BusM.registerSchema, EStateM.run, registered]
                rw [wp, run]
                refine .quiet ⟨existing, found, fun h => absurd h same⟩ rfl ⟨by rintro ⟨_, ⟨⟩⟩, fun agrees => ?_⟩
                obtain ⟨schema', existing', ⟨⟩, found', same'⟩ := agrees (some schema) (by simp)
                rw [found] at found'
                cases found'
                exact absurd same' same

/-! ## The whole call -/

structure Untouched (w w' : World σ ω) : Prop where
  published : ∀ name version, w'.sb.resolveSchema name version = w.sb.resolveSchema name version
  shards : w'.sb.shards = w.sb.shards
  nextShardId : w'.sb.nextShardId = w.sb.nextShardId
  queue : w'.sb.queue = w.sb.queue
  conflicts : ∀ schema, (∃ e, w'.sb.registry.registerSchema schema = .error e) ↔
    ∃ e, w.sb.registry.registerSchema schema = .error e

/-- Whatever `register_shard` publishes before the point where it throws is published already. -/
def Foreseen (ops : ShardOps σ ω) (w : World σ ω) (incoming : Option σ) : Prop :=
  ∀ shard, incoming = some shard → ∀ declared env, (ops.acceptedSchemas shard).run w.env = .ok declared env →
    w.sb.registry.Knows declared ∧
    (w.sb.registry.Agrees declared → ∀ snap env', (ops.snapshot shard).run env = .ok snap env' →
      (w.sb.resolveSchema snap.schema.name snap.schema.version).isSome)

/-- What `register_shard` does once the accept-set is published. -/
def seedRecord (ops : ShardOps σ ω) (shard : σ) (grant : Grant) (accept : List Schema) : BusM σ ω ShardId := do
  let snap ← callback (ops.snapshot shard)
  let _ ← registerSchema snap.schema
  match ← gate snap snap.schema with
  | .reject errors => throw (.invalidArgument
      (ascii "register_shard: initial snapshot does not conform to its own schema: " ++
        (Admission.reject errors).firstError.message))
  | .accept lastKnownGood => addRecord shard accept snap.schema lastKnownGood grant

theorem registerShard_eq (ops : ShardOps σ ω) (shard : σ) (grant : Grant) :
    registerShard ops (some shard) grant = (do
      let declared ← callback (ops.acceptedSchemas shard)
      let accept ← registerAccept declared
      seedRecord ops shard grant accept) := rfl

inductive SeedRefused (ops : ShardOps σ ω) (shard : σ) (w w' : World σ ω) : Prop where
  | clean (known : ∀ snap env, (ops.snapshot shard).run w.env = .ok snap env →
      (w.sb.registry.lookup snap.schema.name snap.schema.version).isSome) (bus : w'.sb = w.sb)
  | leaves (snap : Value) (env : ω) (taken : (ops.snapshot shard).run w.env = .ok snap env)
      (new : w.sb.registry.lookup snap.schema.name snap.schema.version = none)
      (there : (w'.sb.registry.lookup snap.schema.name snap.schema.version).isSome)
      (keeps : ∀ name version, (w.sb.registry.lookup name version).isSome →
        (w'.sb.registry.lookup name version).isSome)

theorem SeedRefused.keeps {ops : ShardOps σ ω} {shard : σ} {w w' : World σ ω}
    (h : SeedRefused ops shard w w') (name : ByteString) (version : UInt32)
    (known : (w.sb.registry.lookup name version).isSome) : (w'.sb.registry.lookup name version).isSome := by
  cases h with
  | clean _ bus => rwa [bus]
  | leaves _ _ _ _ _ keeps => exact keeps name version known

theorem seedRecord_refused (ops : ShardOps σ ω) (shard : σ) (grant : Grant) (accept : List Schema)
    (w : World σ ω) : wp (seedRecord ops shard grant accept) w fun r w' =>
      ∀ e, r = .error e → SeedRefused ops shard w w' := by
  unfold seedRecord
  rw [wp_bind, wp_callback]
  refine wp_intro ?_ ?_
  · intro snap env taken
    rw [andThen_ok, wp_bind]
    cases found : w.sb.registry.lookup snap.schema.name snap.schema.version with
    | none =>
        obtain ⟨registry, registered, there⟩ := Registry.registerSchema_new found
        have run : (BusM.registerSchema snap.schema : BusM σ ω Schema).run { w with env } =
            .ok snap.schema (World.publishing { w with env } registry) := by
          simp only [BusM.registerSchema, EStateM.run, registered]
          rfl
        rw [wp_of_ok run, andThen_ok, wp_bind, wp_gate, andThen_ok]
        cases admitLive snap snap.schema .firstError with
        | reject errors =>
            exact fun _ _ => .leaves snap env taken found there fun _ _ known =>
              Registry.registerSchema_keeps registered known
        | accept v =>
            intro e failed
            cases failed
    | some existing =>
        have registered := Registry.registerSchema_known found
        have known : ∀ snap' env', (ops.snapshot shard).run w.env = .ok snap' env' →
            (w.sb.registry.lookup snap'.schema.name snap'.schema.version).isSome := by
          intro snap' env' taken'
          rw [taken] at taken'
          cases taken'
          rw [found]
          rfl
        by_cases same : existing.contentId = snap.schema.contentId
        · rw [if_pos same] at registered
          have run : (BusM.registerSchema snap.schema : BusM σ ω Schema).run { w with env } =
              .ok existing { w with env } := by
            simp only [BusM.registerSchema, EStateM.run, registered]
          rw [wp_of_ok run, andThen_ok, wp_bind, wp_gate, andThen_ok]
          cases admitLive snap snap.schema .firstError with
          | reject errors => exact fun _ _ => .clean known rfl
          | accept v =>
              intro e failed
              cases failed
        · rw [if_neg same] at registered
          have run : (BusM.registerSchema snap.schema : BusM σ ω Schema).run { w with env } =
              .error (.schemaConflict (conflictWhat snap.schema.name snap.schema.version)) { w with env } := by
            simp only [BusM.registerSchema, EStateM.run, registered]
          rw [wp, run]
          exact fun _ _ => .clean known rfl
  · intro e env thrown e' _
    refine .clean ?_ rfl
    intro snap env' taken
    rw [thrown] at taken
    cases taken

inductive RefusedWith (ops : ShardOps σ ω) (w : World σ ω) (incoming : Option σ) (w' : World σ ω) : Prop where
  | clean (foreseen : Foreseen ops w incoming) (bus : w'.sb = w.sb)
  | leaves (unforeseen : ¬ Foreseen ops w incoming) (gained : w.sb.registry.Gained w'.sb.registry)

theorem registerShard_refused (ops : ShardOps σ ω) (incoming : Option σ) (grant : Grant) (w : World σ ω) :
    wp (registerShard ops incoming grant) w fun r w' => ∀ e, r = .error e → RefusedWith ops w incoming w' := by
  cases incoming with
  | none => exact fun _ _ => .clean nofun rfl
  | some shard =>
      rw [registerShard_eq, wp_bind, wp_callback]
      refine wp_intro ?_ ?_
      · intro declared env asked
        have settled : Foreseen ops w (some shard) ↔ w.sb.registry.Knows declared ∧
            (w.sb.registry.Agrees declared → ∀ snap env', (ops.snapshot shard).run env = .ok snap env' →
              (w.sb.resolveSchema snap.schema.name snap.schema.version).isSome) := by
          constructor
          · intro foreseen
            exact foreseen shard rfl declared env asked
          · rintro known shard' ⟨⟩ declared' env' asked'
            rw [asked] at asked'
            cases asked'
            exact known
        rw [andThen_ok, wp_bind]
        apply wp_mono (registerAccept_set declared _)
        intro r w₁ accepted
        cases accepted with
        | loud unknown registry state gained =>
            subst state
            have unforeseen : ¬ Foreseen ops w (some shard) := fun foreseen => unknown (settled.mp foreseen).1
            cases r with
            | error e => exact fun _ _ => .leaves unforeseen gained
            | ok accept =>
                rw [andThen_ok]
                apply wp_mono (seedRecord_refused ops shard grant accept _)
                intro r w' refused e he
                exact .leaves unforeseen (gained.later (refused e he).keeps)
        | quiet known state agrees =>
            subst state
            cases r with
            | error e =>
                have disagrees : ¬ w.sb.registry.Agrees declared := fun h => by
                  obtain ⟨_, ⟨⟩⟩ := agrees.mpr h
                exact fun _ _ => .clean (settled.mpr ⟨known, fun h => absurd h disagrees⟩) rfl
            | ok accept =>
                rw [andThen_ok]
                apply wp_mono (seedRecord_refused ops shard grant accept _)
                intro r w' refused e he
                cases refused e he with
                | clean published bus => exact .clean (settled.mpr ⟨known, fun _ => published⟩) bus
                | leaves snap env' taken new there keeps =>
                    refine .leaves ?_ ⟨_, _, new, there⟩
                    intro foreseen
                    have seen := (settled.mp foreseen).2 (agrees.mp ⟨accept, rfl⟩) snap env' taken
                    rw [Switchboard.resolveSchema, new] at seen
                    cases seen
      · intro e env thrown e' _
        refine .clean ?_ rfl
        rintro shard' ⟨⟩ declared env' asked
        rw [thrown] at asked
        cases asked

theorem refused_registration {ops : ShardOps σ ω} {incoming : Option σ} {grant : Grant} {w w' : World σ ω}
    {e : Exn} (refused : (registerShard ops incoming grant).run w = .error e w') :
    Untouched w w' ↔ Foreseen ops w incoming := by
  cases wp_error (registerShard_refused ops incoming grant w) refused e rfl with
  | clean foreseen bus =>
      refine ⟨fun _ => foreseen, fun _ => ?_⟩
      constructor
      · intro name version
        rw [bus]
      · rw [bus]
      · rw [bus]
      · rw [bus]
      · intro schema
        rw [bus]
  | leaves unforeseen gained =>
      refine ⟨fun untouched => ?_, fun foreseen => absurd foreseen unforeseen⟩
      obtain ⟨name, version, new, there⟩ := gained
      have same : w'.sb.registry.lookup name version = w.sb.registry.lookup name version :=
        untouched.published name version
      rw [same, new] at there
      cases there

-- a Shard that declares these schemas, on a bus where nothing is published
def declaring (declared : List (Option Schema)) : ShardOps Unit Unit :=
  { pingOps with acceptedSchemas := fun _ => pure declared }

def emptyBus : World Unit Unit := { sb := {}, env := () }

theorem refused_registration_null : ∃ e w', (registerShard (declaring [none]) (some ()) {}).run emptyBus = .error e w' ∧
    Untouched emptyBus w' := by
  refine ⟨_, _, rfl, (@refused_registration Unit Unit (declaring [none]) (some ()) {} emptyBus _ _ rfl).mpr ?_⟩
  rintro _ _ declared _ ⟨⟩
  refine ⟨trivial, fun agrees => ?_⟩
  obtain ⟨_, _, ⟨⟩, _⟩ := agrees none (by simp)

theorem half_declared_stays : ∃ e w',
    (registerShard (declaring [some Ping, none]) (some ()) {}).run emptyBus = .error e w' ∧
    emptyBus.sb.resolveSchema "Ping" 1 = none ∧ w'.sb.resolveSchema "Ping" 1 = some Ping ∧
    ¬ Untouched emptyBus w' := by
  refine ⟨_, _, rfl, rfl, rfl, ?_⟩
  intro untouched
  have same := untouched.published "Ping" 1
  cases same

end Sb
end Zen
