import Zen.Proof.Core.Serialize
import Zen.Switchboard.Machine

/-!
# What each operation of the bus does

One lemma for each operation, so that later proofs need not open it again. Operations that call
back into a Shard are described by what they leave in the bus and in the log, whether they return
or throw.
-/

namespace Zen.Sb
open Lib BusM

variable {σ ω α : Type}

/-! ## Enqueueing -/

def Switchboard.appended (sb : Switchboard σ) (es : List Envelope) : Switchboard σ :=
  { sb with
    nextSeq := sb.nextSeq + es.length
    journal := sb.journal ++ List.replicate es.length {}
    queue := sb.queue ++ es }

def recipient (msg : Message) (rec : ShardRecord σ) : Bool :=
  rec.alive && (acceptMatch rec msg.name msg.version).isSome

def addressed (msg : Message) (gated : Bool) (records : List (ShardRecord σ)) (seq : Nat) :
    List Envelope :=
  (records.zipIdx seq).map fun x => ⟨msg, x.1.id, x.2, gated⟩

theorem enqueueDirected_eq (sb : Switchboard σ) (target : ShardId) (msg : Message) (gated : Bool) :
    sb.enqueueDirected target msg gated = sb.appended [⟨msg, target, sb.nextSeq, gated⟩] := rfl

theorem appended_appended (sb : Switchboard σ) (es es' : List Envelope) :
    (sb.appended es).appended es' = sb.appended (es ++ es') := by
  simp [Switchboard.appended, Nat.add_assoc, List.append_assoc, List.replicate_append_replicate]

theorem fanoutLoop_eq (msg : Message) (gated : Bool) (records : List (ShardRecord σ))
    (sb : Switchboard σ) (n : Nat) : Switchboard.fanoutLoop msg gated records sb n =
      (sb.appended (addressed msg gated (records.filter (recipient msg)) sb.nextSeq),
        n + (records.filter (recipient msg)).length) := by
  induction records generalizing sb n with
  | nil => simp [Switchboard.fanoutLoop, addressed, Switchboard.appended]
  | cons rec records ih =>
      rw [Switchboard.fanoutLoop]
      split
      · rename_i dead
        have skipped : recipient msg rec = false := by simp_all [recipient]
        rw [ih, List.filter_cons_of_neg (by simp [skipped])]
      · rename_i alive
        split
        · rename_i unmatched
          have skipped : recipient msg rec = false := by simp [recipient, unmatched]
          rw [ih, List.filter_cons_of_neg (by simp [skipped])]
        · rename_i matched
          have chosen : recipient msg rec = true := by
            simpa [recipient, Option.isSome_iff_ne_none, matched] using alive
          rw [ih, List.filter_cons_of_pos chosen, enqueueDirected_eq, appended_appended]
          simp only [addressed, List.zipIdx_cons, List.map_cons, List.length_cons, List.singleton_append]
          congr 1
          omega

theorem fanout_eq (sb : Switchboard σ) (msg : Message) (gated : Bool) : sb.fanout msg gated =
    (sb.appended (addressed msg gated (sb.shards.values.filter (recipient msg)) sb.nextSeq),
      (sb.shards.values.filter (recipient msg)).length) := by
  rw [Switchboard.fanout, fanoutLoop_eq, Nat.zero_add]

theorem addressed_seqs (msg : Message) (gated : Bool) (records : List (ShardRecord σ)) (seq : Nat) :
    (addressed msg gated records seq).map Envelope.seq = List.range' seq records.length := by
  induction records generalizing seq with
  | nil => rfl
  | cons rec records ih =>
      rw [List.length_cons, List.range'_succ, ← ih (seq + 1)]
      rfl

theorem mem_addressed {msg : Message} {gated : Bool} {records : List (ShardRecord σ)} {seq : Nat}
    {e : Envelope} (h : e ∈ addressed msg gated records seq) : e.msg = msg ∧ e.gated = gated := by
  obtain ⟨x, _, rfl⟩ := List.mem_map.mp h
  exact ⟨rfl, rfl⟩

/-! ## Callbacks -/

@[simp] theorem wp_callback {call : EStateM Exn ω α} {w : World σ ω}
    {Q : Except Exn α → World σ ω → Prop} :
    wp (callback call) w Q ↔ wp call w.env (fun r env => Q r { w with env }) := by
  simp only [wp, callback, EStateM.run]
  cases call w.env <;> rfl

@[simp] theorem wp_gate {claimant : Value} {door : Schema} {w : World σ ω}
    {Q : Except Exn Admission → World σ ω → Prop} :
    wp (gate claimant door) w Q ↔ Q (.ok (admitLive claimant door .firstError))
      { w with log := { w.log with gated := w.log.gated ++ [(claimant, door)] } } := Iff.rfl

@[simp] theorem wp_updateRecord {id : ShardId} {f : ShardRecord σ → ShardRecord σ} {w : World σ ω}
    {Q : Except Exn Unit → World σ ω → Prop} :
    wp (updateRecord id f) w Q ↔
      Q (.ok ()) { w with sb := { w.sb with shards := w.sb.shards.update id f } } := Iff.rfl

@[simp] theorem wp_revive {ops : ShardOps σ ω} {rec : ShardRecord σ} {state : Value} {w : World σ ω}
    {Q : Except Exn Unit → World σ ω → Prop} :
    wp (revive ops rec state) w Q ↔ wp (ops.revive rec.shard state) w.env fun r env => Q r
      { w with env, log := { w.log with
        revived := w.log.revived ++ [(rec.id, rec.stateSchema, state)] } } := by
  unfold revive
  rw [wp_bind, wp_modify, andThen_ok, wp_callback]

/-! ## Registration -/

theorem registerSchema_spec (schema : Schema) (w : World σ ω) :
    wp (BusM.registerSchema schema) w fun r w' =>
      (∃ registry, w' = { w with sb := { w.sb with registry } }) ∧
      ∀ owner, r = .ok owner → owner.identity = schema.identity := by
  simp only [wp, BusM.registerSchema, EStateM.run]
  cases registered : w.sb.registry.registerSchema schema with
  | error e => exact ⟨⟨w.sb.registry, rfl⟩, by simp⟩
  | ok result =>
      obtain ⟨registry, owner, inserted⟩ := result
      refine ⟨⟨registry, rfl⟩, ?_⟩
      rintro _ ⟨⟩
      exact Registry.registerSchema_identity registered

theorem registerAccept_spec (declared : List (Option Schema)) (w : World σ ω) :
    wp (registerAccept declared) w fun r w' =>
      (∃ registry, w' = { w with sb := { w.sb with registry } }) ∧
      ∀ owners, r = .ok owners →
        declared.map (Option.map Schema.identity) = owners.map fun s => some s.identity := by
  induction declared generalizing w with
  | nil =>
      rw [registerAccept, wp_pure]
      refine ⟨⟨w.sb.registry, rfl⟩, ?_⟩
      rintro _ ⟨⟩
      rfl
  | cons schema declared ih =>
      cases schema with
      | none =>
          rw [registerAccept, wp_throw]
          exact ⟨⟨w.sb.registry, rfl⟩, by simp⟩
      | some schema =>
          rw [registerAccept, wp_bind]
          apply wp_mono (registerSchema_spec schema w)
          rintro (e | owner) _ ⟨⟨registry, rfl⟩, same⟩
          · exact ⟨⟨registry, rfl⟩, by simp⟩
          · rw [andThen_ok, wp_bind]
            apply wp_mono (ih _)
            rintro (e | owners) _ ⟨⟨registry', rfl⟩, rest⟩
            · exact ⟨⟨registry', rfl⟩, by simp⟩
            · rw [andThen_ok, wp_pure]
              refine ⟨⟨registry', rfl⟩, ?_⟩
              rintro _ ⟨⟩
              simp [same owner rfl, rest owners rfl]

structure Mail where
  queue : List Envelope
  journal : List DeliveryOutcome
  nextSeq : Nat
  inDispatch : Bool
  handled : List (ShardId × Message)
  dequeued : List Nat
  decided : List Nat

def World.mail (w : World σ ω) : Mail :=
  ⟨w.sb.queue, w.sb.journal, w.sb.nextSeq, w.sb.inDispatch, w.log.handled, w.log.dequeued, w.log.decided⟩

/-- A record as `register_shard` makes it. -/
structure Fresh (ops : ShardOps σ ω) (w : World σ ω) (incoming : Option σ) (id : ShardId) (grant : Grant)
    (rec : ShardRecord σ) : Prop where
  shard : incoming = some rec.shard
  accept : ∃ declared env, (ops.acceptedSchemas rec.shard).run w.env = .ok declared env ∧
    declared.map (Option.map Schema.identity) = rec.accept.map fun s => some s.identity
  id : rec.id = id
  grant : rec.grant = grant
  seeded : admitLive rec.lastKnownGood rec.stateSchema .firstError = .accept rec.lastKnownGood
  snapshot : ∃ before after, (ops.snapshot rec.shard).run before = .ok rec.lastKnownGood after ∧
    rec.stateSchema = rec.lastKnownGood.schema

def Registered (ops : ShardOps σ ω) (w : World σ ω) (incoming : Option σ) (grant : Grant)
    (r : Except Exn ShardId) (w' : World σ ω) : Prop :=
  w'.mail = w.mail ∧ w'.log.revived = w.log.revived ∧
  match r with
  | .error _ => w'.sb.shards = w.sb.shards ∧ w'.sb.nextShardId = w.sb.nextShardId
  | .ok id => id = w.sb.nextShardId ∧ w'.sb.nextShardId = id + 1 ∧
      ∃ rec, w'.sb.shards = w.sb.shards.emplace id rec ∧ Fresh ops w incoming id grant rec

theorem registerShard_spec (ops : ShardOps σ ω) (incoming : Option σ) (grant : Grant) (w : World σ ω) :
    wp (registerShard ops incoming grant) w (Registered ops w incoming grant) := by
  unfold registerShard
  cases incoming with
  | none => exact ⟨rfl, rfl, rfl, rfl⟩
  | some shard =>
      simp only [wp_bind, wp_callback]
      refine wp_intro ?_ (fun e env _ => ⟨rfl, rfl, rfl, rfl⟩)
      intro declared env asked
      simp only [andThen_ok, wp_bind]
      apply wp_mono (registerAccept_spec declared _)
      rintro (e | accept) _ ⟨⟨registry, rfl⟩, owners⟩
      · exact ⟨rfl, rfl, rfl, rfl⟩
      · simp only [andThen_ok, wp_bind, wp_callback]
        refine wp_intro ?_ (fun e env _ => ⟨rfl, rfl, rfl, rfl⟩)
        intro snap env' taken
        simp only [andThen_ok, wp_bind]
        apply wp_mono (registerSchema_spec snap.schema _)
        rintro (e | owner) _ ⟨⟨registry', rfl⟩, _⟩
        · exact ⟨rfl, rfl, rfl, rfl⟩
        · simp only [andThen_ok, wp_bind, wp_gate]
          cases verdict : admitLive snap snap.schema .firstError with
          | reject errors => exact ⟨rfl, rfl, rfl, rfl⟩
          | accept v =>
              obtain ⟨_, rfl⟩ := Proof.admitLive_accept.mp verdict
              exact ⟨rfl, rfl, rfl, rfl, _, rfl, rfl, ⟨declared, env, asked, owners accept rfl⟩, rfl, rfl,
                verdict, _, env', taken, rfl⟩

/-! ## Revival -/

/-- What no revival changes of a record. -/
structure Kept (rec rec' : ShardRecord σ) : Prop where
  id : rec'.id = rec.id
  shard : rec'.shard = rec.shard
  accept : rec'.accept = rec.accept
  stateSchema : rec'.stateSchema = rec.stateSchema
  grant : rec'.grant = rec.grant

structure Unrevived (w : World σ ω) (r : Except Exn ReviveOutcome) (w' : World σ ω) : Prop where
  bus : w'.sb = w.sb
  revived : w'.log.revived = w.log.revived
  outcome : ∀ out, r = .ok out → out.revived = false

/-- What the operation does to the record once `revive` has returned is `f`. -/
structure RevivedWith (id : ShardId) (state : Value) (rec : ShardRecord σ)
    (f : ShardRecord σ → ShardRecord σ) (w : World σ ω) (r : Except Exn ReviveOutcome) (w' : World σ ω) :
    Prop where
  found : w.sb.find id = some rec
  kept : ∀ rec, Kept rec (f rec)
  spent : ∀ rec, rec.reloadsUsed ≤ (f rec).reloadsUsed
  saved : (f rec).lastKnownGood = state
  called : w'.log.revived = w.log.revived ++ [(rec.id, rec.stateSchema, state)]
  bus : match r with
    | .ok out => out.revived = true ∧ w'.sb = { w.sb with shards := w.sb.shards.update id f }
    | .error _ => w'.sb = w.sb

def Swapped (id : ShardId) (candidateBytes : ByteString) (w : World σ ω)
    (r : Except Exn ReviveOutcome) (w' : World σ ω) : Prop :=
  w'.mail = w.mail ∧ (Unrevived w r w' ∨ ∃ (rec : ShardRecord σ) (state : Value),
    admitUnverified (parse candidateBytes) rec.stateSchema .firstError = .accept state ∧
    RevivedWith id state rec (fun rec => { rec with lastKnownGood := state, alive := true }) w r w')

theorem swapState_spec (ops : ShardOps σ ω) (id : ShardId) (candidateBytes : ByteString)
    (w : World σ ω) : wp (swapState ops id candidateBytes) w (Swapped id candidateBytes w) := by
  unfold swapState
  rw [wp_bind, wp_get, andThen_ok]
  cases found : w.sb.find id with
  | none => exact ⟨rfl, Or.inl ⟨rfl, rfl, by rintro _ ⟨⟩; rfl⟩⟩
  | some rec =>
      simp only
      cases verdict : admitUnverified (parse candidateBytes) rec.stateSchema .firstError with
      | reject errors => exact ⟨rfl, Or.inl ⟨rfl, rfl, by rintro _ ⟨⟩; rfl⟩⟩
      | accept state =>
          simp only [wp_bind, wp_revive]
          refine wp_intro ?_ ?_
          · intro _ env _
            exact ⟨rfl, Or.inr ⟨rec, state, verdict, found, fun _ => ⟨rfl, rfl, rfl, rfl, rfl⟩,
              fun _ => Nat.le_refl _, rfl, rfl, rfl, rfl⟩⟩
          · intro e env _
            exact ⟨rfl, Or.inr ⟨rec, state, verdict, found, fun _ => ⟨rfl, rfl, rfl, rfl, rfl⟩,
              fun _ => Nat.le_refl _, rfl, rfl, rfl⟩⟩

def Reloaded (id : ShardId) (candidateBytes : ByteString) (w : World σ ω)
    (r : Except Exn ReviveOutcome) (w' : World σ ω) : Prop :=
  w'.mail = w.mail ∧ (Unrevived w r w' ∨ ∃ (rec : ShardRecord σ) (state : Value) (f : ShardRecord σ → ShardRecord σ),
    (admitUnverified (parse candidateBytes) rec.stateSchema .firstError = .accept state ∨
      state = rec.lastKnownGood) ∧ RevivedWith id state rec f w r w')

theorem Swapped.reloaded {id : ShardId} {candidateBytes : ByteString} {w w' : World σ ω}
    {r : Except Exn ReviveOutcome} (h : Swapped id candidateBytes w r w') : Reloaded id candidateBytes w r w' := by
  obtain ⟨mail, unrevived | ⟨rec, state, accepted, revived⟩⟩ := h
  · exact ⟨mail, Or.inl unrevived⟩
  · exact ⟨mail, Or.inr ⟨rec, state, _, Or.inl accepted, revived⟩⟩

theorem reload_spec (ops : ShardOps σ ω) (id : ShardId) (candidateBytes : ByteString) (w : World σ ω) :
    wp (reload ops id candidateBytes) w (Reloaded id candidateBytes w) := by
  unfold reload
  rw [wp_bind, wp_get, andThen_ok]
  cases found : w.sb.find id with
  | none => exact ⟨rfl, Or.inl ⟨rfl, rfl, by rintro _ ⟨⟩; rfl⟩⟩
  | some rec =>
      simp only [wp_bind, wp_callback]
      refine wp_intro ?_ (fun e env _ => ⟨rfl, Or.inl ⟨rfl, rfl, by simp⟩⟩)
      intro declared env _
      simp only [andThen_ok, wp_bind, wp_gate]
      cases admitLive declared lifecyclePolicySchema .firstError with
      | reject errors => exact ⟨rfl, Or.inl ⟨rfl, rfl, by rintro _ ⟨⟩; rfl⟩⟩
      | accept policy =>
          simp only
          split
          · exact ⟨rfl, Or.inl ⟨rfl, rfl, by rintro _ ⟨⟩; rfl⟩⟩
          · cases verdict : admitUnverified (parse candidateBytes) rec.stateSchema .firstError with
            | accept state =>
                simp only [wp_bind, wp_revive]
                refine wp_intro ?_ ?_
                · intro _ env _
                  exact ⟨rfl, Or.inr ⟨rec, state, fun rec => { rec with
                      lastKnownGood := state, reloadsUsed := rec.reloadsUsed + 1, alive := true },
                    Or.inl verdict, found, fun _ => ⟨rfl, rfl, rfl, rfl, rfl⟩,
                    fun _ => Nat.le_succ _, rfl, rfl, rfl, rfl⟩⟩
                · intro e env _
                  exact ⟨rfl, Or.inr ⟨rec, state, fun rec => { rec with lastKnownGood := state },
                    Or.inl verdict, found, fun _ => ⟨rfl, rfl, rfl, rfl, rfl⟩,
                    fun _ => Nat.le_refl _, rfl, rfl, rfl⟩⟩
            | reject errors =>
                simp only
                split
                · simp only [wp_bind, wp_revive]
                  refine wp_intro ?_ ?_
                  · intro _ env _
                    exact ⟨rfl, Or.inr ⟨rec, rec.lastKnownGood, fun rec => { rec with
                        reloadsUsed := rec.reloadsUsed + 1, alive := true }, Or.inr rfl, found,
                      fun _ => ⟨rfl, rfl, rfl, rfl, rfl⟩, fun _ => Nat.le_succ _, rfl, rfl, rfl, rfl⟩⟩
                  · intro e env _
                    exact ⟨rfl, Or.inr ⟨rec, rec.lastKnownGood, fun rec => rec, Or.inr rfl, found,
                      fun _ => ⟨rfl, rfl, rfl, rfl, rfl⟩, fun _ => Nat.le_refl _, rfl, rfl, rfl⟩⟩
                · exact ⟨rfl, Or.inl ⟨rfl, rfl, by rintro _ ⟨⟩; rfl⟩⟩

end Zen.Sb
