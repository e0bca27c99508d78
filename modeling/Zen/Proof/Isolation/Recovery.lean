import Zen.Proof.Isolation.Links

/-!
# Supervision of a link

What a turn of the last part of `step` does to a link whose cached state is in order: nothing, or a
recovery, which ends with a child that has been sent its state or with the link in quarantine.
-/

namespace Zen.Isolation
open Lib Sb BusM BusHostM

variable {ν ς α : Type}

/-- What a mounted link keeps of the handshake and of the last snapshot. -/
structure Cached (link : Link) (door : Schema) (v policy : Value) : Prop where
  stateSchema : link.stateSchema = some door
  value : link.snapshotValue = some v
  admitted : admitUnverified (parse link.snapshotBytes) door .firstError = .accept v
  fits : 5 + link.snapshotBytes.length ≤ kMaxBacklog
  policyValue : link.policyValue = some policy
  declared : admitLive policy lifecyclePolicySchema .firstError = .accept policy

theorem Cached.written {link : Link} {door : Schema} {v policy : Value} (h : Cached link door v policy) :
    serialize v = .ok link.snapshotBytes := (Proof.accepted_written h.admitted).2

/-- Supervision leaves everything else of a link as it is. -/
def Link.Ruled (link link' : Link) : Prop :=
  link' = { link with
    channel := link'.channel, pid := link'.pid, resolutions := link'.resolutions
    dead := link'.dead, deathSignaled := link'.deathSignaled, quarantined := link'.quarantined }

theorem Link.Ruled.trans {link mid link' : Link} (first : link.Ruled mid) (second : mid.Ruled link') :
    link.Ruled link' := by
  unfold Link.Ruled at *
  rw [second, first]

theorem Link.Rehoused.ruled {link link' : Link} (h : link.Rehoused link') : link.Ruled link' := by
  unfold Link.Rehoused at h
  unfold Link.Ruled
  rw [h]

theorem Cached.ruled {link link' : Link} {door : Schema} {v policy : Value} (h : Cached link door v policy)
    (same : link.Ruled link') : Cached link' door v policy := by
  rw [same]
  exact ⟨h.stateSchema, h.value, h.admitted, h.fits, h.policyValue, h.declared⟩

/-! ## The reload of a proxy -/

def comeback (v : Value) (rec : ShardRecord (Shard ν)) : ShardRecord (Shard ν) :=
  { rec with lastKnownGood := v, reloadsUsed := rec.reloadsUsed + 1, alive := true }

structure CameBack (id : ShardId) (p : Pointer) (link : Link) (v : Value) (rec : ShardRecord (Shard ν))
    (w w' : World (Shard ν) (Host ς)) : Prop where
  bus : w'.sb = { w.sb with shards := w.sb.shards.update id (comeback v) }
  events : w'.log.events = w.log.events ++ [World.stateEvent rec id .revived]
  revived : w'.log.revived = w.log.revived ++ [(rec.id, rec.stateSchema, v)]
  host : ∃ calls, w'.env = w.env.revived p link v calls

structure Unmoved (w w' : World (Shard ν) (Host ς)) : Prop where
  bus : w'.sb = w.sb
  events : w'.log.events = w.log.events
  revived : w'.log.revived = w.log.revived
  host : w'.env = w.env

theorem reload_proxy (native : ShardOps ν ς) (w : World (Shard ν) (Host ς)) {id : ShardId} {p : Pointer}
    {link : Link} {door : Schema} {v policy : Value} {rec : ShardRecord (Shard ν)}
    (found : w.sb.find id = some rec) (proxy : rec.shard = .proxy p) (mounted : w.env.heap p = some link)
    (schema : rec.stateSchema = door) (cached : Cached link door v policy) :
    wp (reload (proxyOps native) id link.snapshotBytes) w fun r w' =>
      if maxReloads policy ≤ rec.reloadsUsed then r = .ok { reloadsExhausted := true } ∧ Unmoved w w'
      else r = .ok { revived := true } ∧ CameBack id p link v rec w w' := by
  subst schema
  have asked : ∀ {Q : Except Exn Value → World (Shard ν) (Host ς) → Prop}, Q (.ok policy) w →
      wp (callback ((proxyOps native).policy rec.shard)) w Q := by
    intro Q given
    rw [wp_callback, proxy]
    simp only [proxyOps, wp_bind, wp_get, andThen_ok, mounted, Option.bind_eq_bind, Option.bind_some,
      cached.policyValue]
    exact given
  unfold reload
  rw [wp_bind, wp_get, andThen_ok, found]
  simp only
  rw [wp_bind]
  refine asked ?_
  rw [andThen_ok, wp_bind, wp_gate, andThen_ok, cached.declared]
  simp only
  split
  · exact ⟨rfl, rfl, rfl, rfl, rfl⟩
  · rw [cached.admitted]
    simp only [wp_bind, wp_revive]
    rw [proxy]
    apply wp_mono (respawnAndRevive_spec mounted v)
    rintro r _ ⟨rfl, returns⟩
    rw [returns _ cached.written]
    exact ⟨rfl, rfl, rfl, rfl, _, rfl⟩

/-! ## Recovery -/

/-- A link in quarantine, without a child. -/
structure Link.Buried (link : Link) : Prop where
  quarantined : link.quarantined = true
  channel : link.channel = none

/-- A link with a new child. What is queued to it is its state, or nothing if the child has already
broken the link. -/
structure Link.Restored (link : Link) (bytes : ByteString) : Prop where
  quarantined : link.quarantined = false
  dead : link.dead = false
  deathSignaled : link.deathSignaled = false
  channel : ∃ fresh : Channel, fresh.Fresh ∧ link.channel = some (fresh.queue .revive bytes)

inductive Recovered (p : Pointer) (link : Link) (door : Schema) (v policy : Value)
    (w w' : World (Shard ν) (Host ς)) : Prop where
  | spent (link' : Link) (ruled : link.Ruled link') (buried : link'.Buried)
      (exhausted : ∀ rec, w.sb.find link.id = some rec → maxReloads policy ≤ rec.reloadsUsed) (bus : w'.sb = w.sb)
      (events : w'.log.events = w.log.events) (revived : w'.log.revived = w.log.revived)
      (host : ∃ calls, w'.env = { w.env.put p link' with calls })
  | tried (link' : Link) (ruled : link.Ruled link') (result : link'.Buried ∨ link'.Restored link.snapshotBytes)
      (rec : ShardRecord (Shard ν)) (found : w.sb.find link.id = some rec)
      (left : rec.reloadsUsed < maxReloads policy)
      (bus : w'.sb = { w.sb with shards := w.sb.shards.update link.id (comeback v) })
      (events : w'.log.events = w.log.events ++ [World.stateEvent rec link.id .revived])
      (revived : w'.log.revived = w.log.revived ++ [(rec.id, door, v)])
      (host : ∃ calls, w'.env = { w.env.put p link' with calls, respawns := w.env.respawns ++ [p] })
      (spawned : link'.quarantined = !(respawn w.env.forceEntryFailure w.env.answers (teardownChild link).1).2.2)
      (opened : ∀ ch, link'.channel = some ch → ch = (greeted w.env.answers).queue .revive link.snapshotBytes)

/-- A link and what the bus knows of it. -/
structure Bound (p : Pointer) (link : Link) (door : Schema) (w : World (Shard ν) (Host ς)) : Prop where
  mounted : w.env.heap p = some link
  proxy : ∀ rec, w.sb.find link.id = some rec → rec.shard = .proxy p ∧ rec.stateSchema = door

theorem revivedLink_channel (h : Host ς) (link : Link) {state : Value} {bytes : ByteString}
    (written : serialize state = .ok bytes) :
    let spawned := (respawn h.forceEntryFailure h.answers link).2.2
    spawned = false ∧ (revivedLink h link state).channel = none ∨
      spawned = true ∧
        (revivedLink h link state).channel = some ((greeted h.answers).queue .revive bytes) := by
  have spec := respawn_spec h.forceEntryFailure h.answers link
  unfold revivedLink
  simp only [written]
  have channel := spec.channel
  cases fine : (respawn h.forceEntryFailure h.answers link).2.2 with
  | false =>
      rw [fine] at channel
      exact Or.inl ⟨rfl, channel⟩
  | true =>
      rw [fine, if_pos rfl] at channel
      refine Or.inr ⟨rfl, ?_⟩
      simp only [Link.queue, channel, Option.map_some]

@[simp] theorem wp_modifyHost {f : Host ς → Host ς} {w : World (Shard ν) (Host ς)}
    {Q : Except Exn Unit → World (Shard ν) (Host ς) → Prop} :
    wp (modifyHost f) w Q ↔ Q (.ok ()) { w with env := f w.env } := Iff.rfl

theorem concluded_buries {p : Pointer} {link : Link} {ro : ReviveOutcome} {w : World (Shard ν) (Host ς)}
    (found : w.env.heap p = some link) (lost : (ro.revived && link.channel.isSome) = false) :
    wp (concluded p ro) w fun r w' => r = .ok () ∧ ∃ link' calls, link.Ruled link' ∧ link'.Buried ∧
      w' = { w with env := { w.env.put p link' with calls } } := by
  unfold concluded
  rw [wp_bind, wp_get, andThen_ok, found]
  simp only [lost, Bool.false_eq_true, if_false, wp_modifyHost]
  exact ⟨trivial, (teardownChild { link with quarantined := true, dead := true }).1, _, rfl, ⟨rfl, rfl⟩, rfl⟩

theorem concluded_restores {p : Pointer} {link : Link} {ro : ReviveOutcome} {w : World (Shard ν) (Host ς)}
    (found : w.env.heap p = some link) (back : (ro.revived && link.channel.isSome) = true) :
    wp (concluded p ro) w fun r w' => r = .ok () ∧
      w' = { w with env := w.env.put p { link with dead := false, deathSignaled := false } } := by
  unfold concluded
  rw [wp_bind, wp_get, andThen_ok, found]
  simp only [back, if_true, wp_modifyHost]
  exact ⟨trivial, trivial⟩

theorem recover_spec {native : ShardOps ν ς} {p : Pointer} {link : Link} {door : Schema} {v policy : Value}
    {w : World (Shard ν) (Host ς)} (bound : Bound p link door w) (cached : Cached link door v policy)
    (free : link.quarantined = false) :
    wp (recover native p link) w fun r w' => r = .ok () ∧ Recovered p link door v policy w w' := by
  have torn : link.Ruled (teardownChild link).1 := (teardownChild_rehoused link).ruled
  have mounted : (w.env.teardown p link).heap p = some (teardownChild link).1 := put_heap _ _ _
  unfold recover
  rw [wp_bind, wp_modifyHost, andThen_ok, wp_bind]
  cases found : w.sb.find link.id with
  | none =>
      unfold reload
      rw [wp_bind, wp_get, andThen_ok]
      simp only [found, wp_pure, andThen_ok]
      apply wp_mono (concluded_buries mounted rfl)
      rintro r _ ⟨returned, link', calls, ruled, buried, rfl⟩
      refine ⟨returned, .spent link' (torn.trans ruled) buried ?_ rfl rfl rfl ⟨calls, ?_⟩⟩
      · intro rec known
        rw [found] at known
        cases known
      · simp [Host.teardown, Host.called, Host.put]
  | some rec =>
      obtain ⟨proxy, schema⟩ := bound.proxy rec found
      apply wp_mono (reload_proxy native { w with env := w.env.teardown p link } found proxy mounted schema
        (cached.ruled torn))
      intro r w' reloaded
      split at reloaded
      · rename_i exhausted
        obtain ⟨rfl, bus, events, revived, host⟩ := reloaded
        have mounted : w'.env.heap p = some (teardownChild link).1 := by rw [host]; exact mounted
        rw [andThen_ok]
        apply wp_mono (concluded_buries mounted rfl)
        rintro r _ ⟨returned, link', calls, ruled, buried, rfl⟩
        refine ⟨returned, .spent link' (torn.trans ruled) buried ?_ bus events revived ⟨calls, ?_⟩⟩
        · intro rec' known
          cases found.symm.trans known
          exact exhausted
        · simp [host, Host.teardown, Host.called, Host.put]
      · rename_i left
        obtain ⟨rfl, bus, events, revived, calls, host⟩ := reloaded
        have left := Int.not_le.mp left
        have rehoused := (teardownChild_rehoused link).trans
          (revivedLink_spec (w.env.teardown p link) (teardownChild link).1 v).1
        have ruled := rehoused.ruled
        have mounted : w'.env.heap p = some (revivedLink (w.env.teardown p link) (teardownChild link).1 v) := by
          rw [host]
          exact put_heap _ _ _
        rw [andThen_ok]
        rcases revivedLink_channel (w.env.teardown p link) (teardownChild link).1 cached.written with
          ⟨failed, none⟩ | ⟨spawned, channel⟩
        · apply wp_mono (concluded_buries mounted (by rw [none]; rfl))
          rintro r _ ⟨returned, link', calls', ruled', buried, rfl⟩
          refine ⟨returned, .tried link' (ruled.trans ruled') (Or.inl buried) rec found left bus events ?_
            ⟨calls', ?_⟩ ?_ ?_⟩
          · rw [revived, schema]
          · simp [host, Host.revived, Host.teardown, Host.called, Host.put]
          · rw [buried.quarantined]
            exact congrArg not failed.symm
          · intro ch live
            rw [buried.channel] at live
            cases live
        · have kept := (congrArg Link.quarantined rehoused).trans free
          apply wp_mono (concluded_restores mounted (by rw [channel]; rfl))
          rintro r _ ⟨returned, rfl⟩
          refine ⟨returned, .tried { revivedLink (w.env.teardown p link) (teardownChild link).1 v with
              dead := false, deathSignaled := false } (ruled.trans rfl)
            (Or.inr ⟨kept, rfl, rfl, _, greeted_fresh w.env.answers, channel⟩) rec found left bus events ?_ ⟨w'.env.calls, ?_⟩ ?_ ?_⟩
          · rw [revived, schema]
          · simp [host, Host.revived, Host.teardown, Host.called, Host.put]
          · rw [kept]
            exact congrArg not spawned.symm
          · intro ch live
            exact Option.some.inj (live.symm.trans channel)

/-! ## A link's turn -/

/-- Supervision finds the child gone and has not said so yet. -/
def Link.detected (link : Link) : Bool := !link.quarantined && !link.hasChild && !link.deathSignaled

/-- Supervision has something to do for the link. -/
def Link.needy (link : Link) : Bool := link.detected || !link.quarantined && link.dead

def Link.struck (link : Link) : Link := { link with dead := true, deathSignaled := true }

/-- The world with which the recovery of `link` begins. -/
def stricken (p : Pointer) (link : Link) (w : World (Shard ν) (Host ς)) : World (Shard ν) (Host ς) :=
  if link.detected then World.kill { w with env := w.env.put p link.struck } link.id else w

def Link.mourned (link : Link) : Link := if link.detected then link.struck else link

theorem Link.mourned_ruled (link : Link) : link.Ruled link.mourned := by
  unfold Link.mourned
  split
  · rfl
  · rfl

theorem Link.mourned_same (link : Link) : link.mourned.id = link.id ∧ link.mourned.quarantined = link.quarantined ∧
    link.mourned.snapshotBytes = link.snapshotBytes := by
  unfold Link.mourned
  split
  · exact ⟨rfl, rfl, rfl⟩
  · exact ⟨rfl, rfl, rfl⟩

theorem kill_env (w : World (Shard ν) (Host ς)) (id : ShardId) : (w.kill id).env = w.env := by
  unfold World.kill
  cases w.sb.find id <;> rfl

theorem stricken_host {p : Pointer} {link : Link} {w : World (Shard ν) (Host ς)} (mounted : w.env.heap p = some link) :
    (stricken p link w).env = w.env.put p link.mourned := by
  unfold stricken Link.mourned
  split
  · rw [kill_env]
  · rw [put_self mounted]

theorem stricken_faded (p : Pointer) (link : Link) (w : World (Shard ν) (Host ς)) (id : ShardId) :
    Faded id w.sb (stricken p link w).sb := by
  unfold stricken
  split
  · exact kill_faded { w with env := w.env.put p link.struck } link.id id
  · exact .of_shards rfl

theorem stricken_keeps (p : Pointer) (link : Link) {w : World (Shard ν) (Host ς)} {id : ShardId}
    {rec : ShardRecord (Shard ν)} (known : w.sb.find id = some rec) :
    ∃ rec', (stricken p link w).sb.find id = some rec' ∧ Dulled rec rec' := by
  unfold stricken
  split
  · exact kill_keeps { w with env := w.env.put p link.struck } link.id known
  · exact ⟨rec, known, .refl rec⟩

/-- What the observers are told when a death is detected. -/
def deathNotice (link : Link) (sb : Switchboard (Shard ν)) : List BusEvent :=
  if link.detected then
    match sb.find link.id with
    | some rec => [World.stateEvent rec link.id .died]
    | none => []
  else []

theorem stricken_log (p : Pointer) (link : Link) (w : World (Shard ν) (Host ς)) :
    (stricken p link w).log.events = w.log.events ++ deathNotice link w.sb ∧
      (stricken p link w).log.revived = w.log.revived := by
  unfold stricken deathNotice World.kill
  split
  · simp only
    cases w.sb.find link.id with
    | none => exact ⟨(List.append_nil _).symm, rfl⟩
    | some rec => exact ⟨rfl, rfl⟩
  · exact ⟨(List.append_nil _).symm, rfl⟩

theorem stricken_bound {p : Pointer} {link : Link} {door : Schema} {w : World (Shard ν) (Host ς)}
    (bound : Bound p link door w) : Bound p link.mourned door (stricken p link w) := by
  refine ⟨by rw [stricken_host bound.mounted, put_heap], ?_⟩
  intro rec' found
  rw [link.mourned_same.1] at found
  obtain ⟨rec, known, dulled⟩ := stricken_faded p link w link.id rec' found
  obtain ⟨proxy, schema⟩ := bound.proxy rec known
  exact ⟨dulled.kept.shard.trans proxy, dulled.kept.stateSchema.trans schema⟩

theorem supervise_spec (native : ShardOps ν ς) {p : Pointer} {link : Link} {door : Schema} {v policy : Value}
    {w : World (Shard ν) (Host ς)} (bound : Bound p link door w) (cached : Cached link door v policy) :
    wp (supervise native p) w fun r w' => r = .ok () ∧
      if link.needy then Recovered p link.mourned door v policy (stricken p link w) w' else w' = w := by
  have recovers : link.quarantined = false → link.needy = true →
      wp (recover native p link.mourned) (stricken p link w) fun r w' => r = .ok () ∧
        if link.needy then Recovered p link.mourned door v policy (stricken p link w) w' else w' = w := by
    intro free needy
    simp only [needy, if_true]
    exact recover_spec (stricken_bound bound) (cached.ruled link.mourned_ruled)
      (link.mourned_same.2.1.trans free)
  unfold supervise
  rw [wp_bind, wp_get, andThen_ok, bound.mounted]
  simp only
  split
  · rename_i exhausted
    have calm : link.needy = false := by simp [Link.needy, Link.detected, exhausted]
    simp only [calm, Bool.false_eq_true, if_false, wp_pure]
    exact ⟨trivial, trivial⟩
  · rename_i free
    have free : link.quarantined = false := by simpa using free
    split
    · rename_i gone
      have detected : link.detected = true := by simpa [Link.detected, free] using gone
      have needy : link.needy = true := by simp [Link.needy, detected]
      have again := recovers free needy
      simp only [Link.mourned, stricken, detected, if_true] at again ⊢
      exact again
    · rename_i known
      have undetected : link.detected = false := by simpa [Link.detected, free] using known
      split
      · rename_i dead
        have needy : link.needy = true := by simp [Link.needy, free, dead]
        have again := recovers free needy
        simp only [Link.mourned, stricken, undetected, Bool.false_eq_true, if_false] at again ⊢
        exact again
      · rename_i living
        have calm : link.needy = false := by simpa [Link.needy, undetected, free] using living
        simp only [calm, Bool.false_eq_true, if_false, wp_pure]
        exact ⟨trivial, trivial⟩

end Zen.Isolation
