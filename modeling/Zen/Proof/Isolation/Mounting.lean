import Zen.Proof.Isolation.Recovery

/-!
# Mounting and unmounting

A mount that fails leaves the links and the records as they were. One that succeeds adds one of each,
with the cached state in order.
-/

namespace Zen.Isolation
open Lib Sb BusM BusHostM

variable {ν ς α : Type}

/-! ## The handshake's contents -/

theorem reconstructAndCache_spec (link : Link) (hello : Hello) (fits : 5 + hello.snapshot.length ≤ kMaxBacklog)
    (registry : Registry) : wp (reconstructAndCache link hello) registry fun r _ =>
      ∀ link', r = .ok link' → ∃ accept door v policy, Cached link' door v policy ∧ link' = { link with
        accept, stateSchema := some door, policyValue := some policy, snapshotValue := some v,
        snapshotBytes := hello.snapshot } := by
  unfold reconstructAndCache
  split
  · simp
  · rw [wp_bind]
    refine wp_intro ?_ (by simp)
    intro accept registry' _
    rw [andThen_ok, wp_bind]
    refine wp_intro ?_ (by simp)
    intro door registry'' _
    rw [andThen_ok]
    split
    · simp
    · rename_i policy declared
      split
      · simp
      · rename_i v admitted
        rw [wp_pure]
        rintro _ ⟨⟩
        obtain ⟨_, _, _, _, _, valid⟩ := Proof.admit_parse_accept.mp declared
        have live := Proof.admitLive_accept.mpr ⟨valid, rfl⟩
        exact ⟨accept, door, v, policy, ⟨rfl, rfl, admitted, fits, rfl, live⟩, rfl⟩

/-! ## Registering a proxy -/

structure Enrolled (p : Pointer) (door : Schema) (sb sb' : Switchboard (Shard ν))
    (rec : ShardRecord (Shard ν)) : Prop where
  nextShardId : sb'.nextShardId = sb.nextShardId + 1
  shards : sb'.shards = sb.shards.emplace sb.nextShardId rec
  id : rec.id = sb.nextShardId
  shard : rec.shard = .proxy p
  stateSchema : rec.stateSchema = door
  reloadsUsed : rec.reloadsUsed = 0
  alive : rec.alive = true
  good : Accepted rec.stateSchema rec.lastKnownGood

/-- What stays as it is when nothing is mounted. -/
structure Untaken (w w' : World (Shard ν) (Host ς)) : Prop where
  shards : w'.sb.shards = w.sb.shards
  nextShardId : w'.sb.nextShardId = w.sb.nextShardId
  heap : w'.env.heap = w.env.heap
  links : w'.env.links = w.env.links
  nextLink : w.env.nextLink ≤ w'.env.nextLink
  respawns : w'.env.respawns = w.env.respawns

theorem registerShard_proxy (native : ShardOps ν ς) {p : Pointer} {link : Link} {door : Schema} {v policy : Value}
    {w : World (Shard ν) (Host ς)} (found : w.env.heap p = some link) (cached : Cached link door v policy)
    (grant : Grant) : wp (registerShard (proxyOps native) (some (.proxy p)) grant) w fun r w' => w'.env = w.env ∧
      match r with
      | .error _ => w'.sb.shards = w.sb.shards ∧ w'.sb.nextShardId = w.sb.nextShardId
      | .ok id => id = w.sb.nextShardId ∧ ∃ rec, Enrolled p door w.sb w'.sb rec ∧ rec.grant = grant := by
  have accepts : ∀ {Q : Except Exn (List (Option Schema)) → World (Shard ν) (Host ς) → Prop},
      Q (.ok (link.accept.map some)) w → wp (callback ((proxyOps native).acceptedSchemas (.proxy p))) w Q := by
    intro Q given
    rw [wp_callback]
    exact (wp_onLink found).mpr given
  have snaps : ∀ {w' : World (Shard ν) (Host ς)} {Q : Except Exn Value → World (Shard ν) (Host ς) → Prop},
      w'.env = w.env → Q (.ok v) w' → wp (callback ((proxyOps native).snapshot (.proxy p))) w' Q := by
    intro w' Q same given
    rw [wp_callback]
    simp only [proxyOps, wp_bind, wp_get, andThen_ok, same, found, Option.bind_eq_bind, Option.bind_some,
      cached.value]
    rw [← same]
    exact given
  have schema : v.schema = door := (Proof.accepted_written cached.admitted).1
  rw [registerShard, wp_bind]
  refine accepts ?_
  rw [andThen_ok, wp_bind]
  apply wp_mono (registerAccept_spec _ w)
  rintro (e | accept) _ ⟨⟨registry, rfl⟩, _⟩
  · exact ⟨rfl, rfl, rfl⟩
  rw [andThen_ok, wp_bind]
  refine snaps rfl ?_
  rw [andThen_ok, wp_bind]
  apply wp_mono (registerSchema_spec v.schema _)
  rintro (e | owner) _ ⟨⟨registry', rfl⟩, _⟩
  · exact ⟨rfl, rfl, rfl⟩
  rw [andThen_ok, wp_bind, wp_gate, andThen_ok]
  cases verdict : admitLive v v.schema .firstError with
  | reject errors => exact ⟨rfl, rfl, rfl⟩
  | accept good =>
      obtain ⟨_, rfl⟩ := Proof.admitLive_accept.mp verdict
      exact ⟨rfl, rfl, _, ⟨rfl, rfl, rfl, rfl, schema, rfl, rfl, accepted_of_live verdict⟩, rfl⟩

/-! ## Mounting -/

/-- What the resolution of a capability may change. -/
structure Resolved (s s' : Host ς × Link) : Prop where
  host : ∃ calls leafCounter, s'.1 = { s.1 with calls, leafCounter }
  link : ∃ resolutions fsRoot cgLeaf cgCaps, s'.2 = { s.2 with resolutions, fsRoot, cgLeaf, cgCaps }

theorem Resolved.refl (s : Host ς × Link) : Resolved s s := ⟨⟨_, _, rfl⟩, _, _, _, _, rfl⟩

theorem Resolved.trans {s mid s' : Host ς × Link} (first : Resolved s mid) (second : Resolved mid s') :
    Resolved s s' := by
  obtain ⟨⟨calls, leafCounter, host⟩, resolutions, fsRoot, cgLeaf, cgCaps, link⟩ := second
  obtain ⟨⟨_, _, host'⟩, _, _, _, _, link'⟩ := first
  refine ⟨⟨calls, leafCounter, ?_⟩, resolutions, fsRoot, cgLeaf, cgCaps, ?_⟩
  · rw [host, host']
  · rw [link, link']

theorem resolveNetwork_spec (grant : HostGrant) (s : Host ς × Link) :
    wp (resolveNetwork grant) s fun _ s' => Resolved s s' := by
  unfold resolveNetwork
  rw [wp_bind, wp_get, andThen_ok]
  split
  split
  · exact .refl _
  · exact ⟨⟨_, _, rfl⟩, _, _, _, _, rfl⟩

theorem resolveFilesystem_spec (grant : HostGrant) (a : MountAnswers) (s : Host ς × Link) :
    wp (resolveFilesystem grant a) s fun _ s' => Resolved s s' := by
  unfold resolveFilesystem
  rw [wp_bind, wp_get, andThen_ok]
  split
  split
  · exact .refl _
  · split
    · exact .refl _
    · exact ⟨⟨_, _, rfl⟩, _, _, _, _, rfl⟩
  · exact ⟨⟨_, _, rfl⟩, _, _, _, _, rfl⟩

theorem resolveResources_spec (grant : HostGrant) (a : MountAnswers) (s : Host ς × Link) :
    wp (resolveResources grant a) s fun _ s' => Resolved s s' := by
  unfold resolveResources
  rw [wp_bind, wp_get, andThen_ok]
  split
  split
  · exact .refl _
  · exact ⟨⟨_, _, rfl⟩, _, _, _, _, rfl⟩
  · exact ⟨⟨_, _, rfl⟩, _, _, _, _, rfl⟩

theorem resolveCapabilities_spec (grant : HostGrant) (a : MountAnswers) (s : Host ς × Link) :
    wp (resolveCapabilities grant a) s fun _ s' => Resolved s s' := by
  unfold resolveCapabilities
  rw [wp_bind]
  apply wp_mono (resolveNetwork_spec grant s)
  rintro (e | _) s₁ first
  · exact first
  rw [andThen_ok, wp_bind]
  apply wp_mono (resolveFilesystem_spec grant a s₁)
  rintro (e | _) s₂ second
  · exact first.trans second
  rw [andThen_ok]
  exact wp_mono (resolveResources_spec grant a s₂) fun _ _ third => first.trans (second.trans third)

theorem wp_caught {x : BusHostM ν ς α} {w : World (Shard ν) (Host ς)}
    {Q : Except Exn (Except Exn α) → World (Shard ν) (Host ς) → Prop} :
    wp (caught x) w Q ↔ wp x w fun r w' => Q (.ok r) w' := by
  simp only [wp, caught, EStateM.run]
  cases x w <;> rfl

/-- A link that has just been mounted. -/
structure Newcomer (link : Link) : Prop where
  living : link.dead = false ∧ link.deathSignaled = false ∧ link.quarantined = false
  channel : ∃ ch, link.channel = some ch ∧ ch.Fresh

structure Taken (name : ByteString) (grant : Grant) (w w' : World (Shard ν) (Host ς)) (id : ShardId) (link : Link)
    (rec : ShardRecord (Shard ν)) : Prop where
  id : link.id = id ∧ id = w.sb.nextShardId
  cached : ∃ door v policy, Cached link door v policy ∧ Enrolled w.env.nextLink door w.sb w'.sb rec
  grant : rec.grant = grant
  newcomer : Newcomer link
  fresh : findLink w.env name = none
  heap : w'.env.heap = Function.update w.env.heap w.env.nextLink (some link)
  links : w'.env.links = insertLink name w.env.nextLink w.env.links
  nextLink : w'.env.nextLink = w.env.nextLink + 1
  respawns : w'.env.respawns = w.env.respawns

theorem drop_put {h : Host ς} {p : Pointer} (unused : h.heap p = none) (link : Link) :
    (h.put p link).drop p = h := by
  unfold Host.put Host.drop
  simp only [Function.update_idem, ← unused, Function.update_eq_self]

theorem enroll_spec (native : ShardOps ν ς) (name : ByteString) (grant : Grant) {p : Pointer} {link : Link}
    {door : Schema} {v policy : Value} {w : World (Shard ν) (Host ς)} {h : Host ς} (host : w.env = h.put p link)
    (unused : h.heap p = none) (cached : Cached link door v policy) :
    wp (enroll native name p link grant) w fun r w' => ∃ result, r = .ok result ∧
      if result.ok then result.id = w.sb.nextShardId ∧
        (∃ rec, Enrolled p door w.sb w'.sb rec ∧ rec.grant = grant) ∧
        w'.env = { h.put p { link with id := result.id } with links := insertLink name p h.links }
      else w'.sb.shards = w.sb.shards ∧ w'.sb.nextShardId = w.sb.nextShardId ∧ ∃ calls, w'.env = h.called calls := by
  have found : w.env.heap p = some link := by rw [host, put_heap]
  unfold enroll
  rw [wp_bind, wp_caught]
  apply wp_mono (registerShard_proxy native found cached grant)
  rintro (e | id) w' ⟨same, registered⟩
  · rw [andThen_ok, wp_bind, wp_modifyHost, andThen_ok, wp_pure]
    refine ⟨_, rfl, registered.1, registered.2, (teardownChild link).2, ?_⟩
    simp only [same, host, drop_put unused]
  · rw [andThen_ok, wp_bind, wp_modifyHost, andThen_ok, wp_pure]
    refine ⟨_, rfl, registered.1, registered.2, ?_⟩
    simp only [same, host, put_put]
    rfl

theorem mount_spec (native : ShardOps ν ς) (name soPath : ByteString) (grant : HostGrant) (a : MountAnswers)
    {w : World (Shard ν) (Host ς)} (unused : w.env.heap w.env.nextLink = none) :
    wp (mount native name soPath grant a) w fun r w' => ∃ result, r = .ok result ∧
      if result.ok then ∃ link rec, Taken name grant.sends w w' result.id link rec else Untaken w w' := by
  unfold mount
  rw [wp_bind, wp_get, andThen_ok]
  simp only
  by_cases taken : (findLink w.env name).isSome = true
  · rw [if_pos taken]
    exact ⟨_, rfl, rfl, rfl, rfl, rfl, Nat.le_refl _, rfl⟩
  rw [if_neg taken]
  have resolution := resolveCapabilities_spec grant a ({ w.env with nextLink := w.env.nextLink + 1 }, { name, soPath })
  cases run : (resolveCapabilities grant a).run ({ w.env with nextLink := w.env.nextLink + 1 }, { name, soPath }) with
  | error e s =>
      obtain ⟨⟨calls, leafCounter, host⟩, _⟩ := wp_error resolution run
      obtain ⟨h, link⟩ := s
      simp only at host
      subst host
      exact ⟨_, rfl, rfl, rfl, rfl, rfl, Nat.le_succ _, rfl⟩
  | ok _ s =>
      obtain ⟨⟨calls, leafCounter, host⟩, resolutions, fsRoot, cgLeaf, cgCaps, bare⟩ := wp_ok resolution run
      obtain ⟨h, link⟩ := s
      simp only at host bare
      subst host bare
      simp only
      have spawning := spawnAndHandshake_spec w.env.forceEntryFailure a.spawn
        { link := { name, soPath, resolutions, fsRoot, cgLeaf, cgCaps } }
      split
      · exact ⟨_, rfl, rfl, rfl, rfl, rfl, Nat.le_succ _, rfl⟩
      · rename_i hello spawned ran
        obtain ⟨⟨rehoused, channel⟩, small⟩ := wp_ok spawning ran
        have reconstruction := reconstructAndCache_spec spawned.link hello (small hello rfl) w.env.registry
        split
        · exact ⟨_, rfl, rfl, rfl, rfl, rfl, Nat.le_succ _, rfl⟩
        · rename_i link registry made
          obtain ⟨accept, door, v, policy, cached, built⟩ := wp_ok reconstruction made link rfl
          rw [wp_bind, wp_modifyHost, andThen_ok]
          apply wp_mono (enroll_spec native name grant.sends (h := Host.called { w.env with
            registry, nextLink := w.env.nextLink + 1, calls, leafCounter } spawned.calls) rfl unused cached)
          rintro r w' ⟨result, rfl, outcome⟩
          refine ⟨result, rfl, ?_⟩
          split at outcome
          · rename_i ok
            obtain ⟨id, ⟨rec, enrolled, granted⟩, host⟩ := outcome
            rw [if_pos ok]
            have living : link.dead = false ∧ link.deathSignaled = false ∧ link.quarantined = false := by
              rw [built, rehoused]
              exact ⟨rfl, rfl, rfl⟩
            have opened : ∃ ch, link.channel = some ch ∧ ch.Fresh := by
              rw [built]
              exact ⟨_, channel hello rfl, greeted_fresh a.spawn⟩
            refine ⟨{ link with id := result.id }, rec, ⟨rfl, id⟩, ⟨door, v, policy, ?_, enrolled⟩, granted,
              ⟨living, opened⟩, by simpa using taken, by rw [host]; rfl, by rw [host]; rfl, by rw [host]; rfl,
              by rw [host]; rfl⟩
            exact ⟨cached.stateSchema, cached.value, cached.admitted, cached.fits, cached.policyValue,
              cached.declared⟩
          · rename_i failed
            obtain ⟨shards, nextShardId, calls', host⟩ := outcome
            rw [if_neg failed]
            exact ⟨shards, nextShardId, by rw [host]; rfl, by rw [host]; rfl, by rw [host]; exact Nat.le_succ _,
              by rw [host]; rfl⟩

/-! ## Unmounting -/

/-- What an unmount takes away. -/
structure Released (name : ByteString) (p : Pointer) (link : Link) (w w' : World (Shard ν) (Host ς)) : Prop where
  named : findLink w.env name = some p
  mounted : w.env.heap p = some link
  bus : w'.sb = (w.sb.unregisterShard link.id).1
  log : w'.log = w.log
  heap : w'.env.heap = Function.update w.env.heap p none
  links : w'.env.links = w.env.links.filter fun entry => entry.1 ≠ name
  nextLink : w'.env.nextLink = w.env.nextLink
  respawns : w'.env.respawns = w.env.respawns

theorem unmount_spec (name : ByteString) (w : World (Shard ν) (Host ς)) :
    wp (unmount name) w fun r w' => r = .ok () ∧ (w' = w ∨ ∃ p link, Released name p link w w') := by
  unfold unmount
  rw [wp_bind, wp_get, andThen_ok]
  simp only
  split
  · exact ⟨rfl, Or.inl rfl⟩
  · rename_i p named
    split
    · exact ⟨rfl, Or.inl rfl⟩
    · rename_i link mounted
      rw [wp_bind, wp_modify, andThen_ok, wp_modifyHost]
      exact ⟨rfl, Or.inr ⟨p, link, named, mounted, rfl, rfl, rfl, rfl, rfl, rfl⟩⟩

end Zen.Isolation
