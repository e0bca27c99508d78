import Zen.Proof.Isolation.Steps

/-!
# Links in order

Every input keeps the links and the records of the bus in order.
-/

namespace Zen.Isolation
open Lib Sb BusM

variable {ν ς : Type}

/-! ## Links that stay -/

/-- The link has kept its identity, and what it caches is in order if it was before. -/
structure Renewed (link link' : Link) : Prop where
  id : link'.id = link.id
  stateSchema : link'.stateSchema = link.stateSchema
  policyValue : link'.policyValue = link.policyValue
  sound : link.Sound → link'.Sound
  cached : link.Sound → ∀ {door v policy}, Cached link door v policy → ∃ v', Cached link' door v' policy

theorem Renewed.refl (link : Link) : Renewed link link := 
  ⟨rfl, rfl, rfl, fun h => h, fun _ {_ v _} cached => ⟨v, cached⟩⟩

theorem Link.Ruled.renewed {link link' : Link} (h : link.Ruled link') (sound : link.Sound → link'.Sound) :
    Renewed link link' := by
  refine ⟨?_, ?_, ?_, sound, fun _ {_ v _} cached => ⟨v, cached.ruled h⟩⟩
  · rw [h]
  · rw [h]
  · rw [h]

theorem shipped_rehoused (link : Link) (msg : Message) : link.Rehoused (shipped link msg) := by
  unfold shipped
  split <;> rfl

theorem shipped_sound {link : Link} (h : link.Sound) (msg : Message) : (shipped link msg).Sound := by
  unfold shipped
  split
  · rename_i ch bytes live written
    rintro _ ⟨⟩
    exact queue_sound (h ch live) _ _
  · exact h

theorem shipped_renewed (link : Link) (msg : Message) : Renewed link (shipped link msg) :=
  (shipped_rehoused link msg).ruled.renewed fun h => shipped_sound h msg

theorem absorbs_channel (link : Link) (f : Incoming) : (absorbs link f).channel = link.channel := by
  unfold absorbs handleSnapshot
  split
  · split
    · rfl
    · split <;> rfl
  · rfl

theorem frames_channel (frames : List Incoming) (link : Link) :
    (frames.foldl absorbs link).channel = link.channel := by
  induction frames generalizing link with
  | nil => rfl
  | cons f frames ih => rw [List.foldl_cons, ih, absorbs_channel]

theorem received_sound {ch : Channel} (h : ch.Sound) (sends : List SendResult) (recvs : List RecvResult) :
    (received ch sends recvs).1.Sound ∧
      ∀ f ∈ (received ch sends recvs).2, 5 + f.payload.length ≤ kMaxBacklog :=
  have polled := poll_spec (ch.flush sends).1 recvs
  ⟨polled.sound (flush_sound h sends), polled.small (flush_sound h sends)⟩

/-- The link of a child that has had its turn. -/
def drainedLink (link : Link) (ch : Channel) (sends : List SendResult) (recvs : List RecvResult) : Link :=
  (received ch sends recvs).2.foldl absorbs { link with channel := some (received ch sends recvs).1 }

theorem drainedLink_refreshed (link : Link) (ch : Channel) (sends : List SendResult) (recvs : List RecvResult) :
    Refreshed (received ch sends recvs).2 link (drainedLink link ch sends recvs) :=
  (Refreshed.refl link _).trans (frames_refreshed _ _)

theorem drainedLink_renewed {link : Link} {ch : Channel} (live : link.channel = some ch) (sends : List SendResult)
    (recvs : List RecvResult) : Renewed link (drainedLink link ch sends recvs) := by
  have refreshed := drainedLink_refreshed link ch sends recvs
  have channel : (drainedLink link ch sends recvs).channel = some (received ch sends recvs).1 := frames_channel _ _
  have policyValue : (drainedLink link ch sends recvs).policyValue = link.policyValue := by rw [refreshed.rest]
  refine ⟨refreshed.schema.1, refreshed.schema.2, policyValue, ?_, ?_⟩
  · intro sound ch' live'
    rw [channel] at live'
    cases live'
    exact (received_sound (sound ch live) sends recvs).1
  · intro sound door v policy cached
    rcases refreshed.cache with ⟨value, bytes⟩ | ⟨door', v', schema, sent, accepted, value⟩
    · refine ⟨v, refreshed.schema.2.trans cached.stateSchema, value.trans cached.value, ?_, ?_,
        policyValue.trans cached.policyValue, cached.declared⟩
      · rw [bytes]
        exact cached.admitted
      · rw [bytes]
        exact cached.fits
    · cases schema.symm.trans cached.stateSchema
      exact ⟨v', refreshed.schema.2.trans schema, value, accepted,
        (received_sound (sound ch live) sends recvs).2 _ sent, policyValue.trans cached.policyValue, cached.declared⟩

theorem Link.Restored.sound {link : Link} {bytes : ByteString} (h : link.Restored bytes) : link.Sound := by
  intro ch live
  obtain ⟨fresh, empty, channel⟩ := h.channel
  rw [channel] at live
  cases live
  exact queue_sound empty.sound _ _

theorem Link.Buried.sound {link : Link} (h : link.Buried) : link.Sound := by
  intro ch live
  rw [h.channel] at live
  cases live

/-! ## Inputs that mount nothing -/

/-- Links and records are those from before, but for records of native Shards. -/
structure Carried (m m' : Machine (Shard ν) (Host ς)) : Prop where
  ids : m.world.sb.nextShardId ≤ m'.world.sb.nextShardId
  records : ∀ id rec', m'.world.sb.find id = some rec' →
    (∃ rec, m.world.sb.find id = some rec ∧ Kept rec rec') ∨
    id = m.world.sb.nextShardId ∧ ∀ p, rec'.shard ≠ .proxy p
  links : m'.world.env.links = m.world.env.links
  nextLink : m.world.env.nextLink ≤ m'.world.env.nextLink
  tried : ∀ p ∈ m'.world.env.respawns, p ∈ m.world.env.respawns ∨ (m.world.env.heap p).isSome
  gone : ∀ p, m.world.env.heap p = none → m'.world.env.heap p = none
  kept : ∀ p link, m.world.env.heap p = some link → ∃ link', m'.world.env.heap p = some link' ∧ Renewed link link'

theorem Carried.came {m m' : Machine (Shard ν) (Host ς)} (h : Carried m m') {p : Pointer} {link' : Link}
    (found : m'.world.env.heap p = some link') :
    ∃ link, m.world.env.heap p = some link ∧ Renewed link link' := by
  cases before : m.world.env.heap p with
  | none =>
      rw [h.gone p before] at found
      cases found
  | some link =>
      obtain ⟨renewed, after, renews⟩ := h.kept p link before
      cases found.symm.trans after
      exact ⟨link, rfl, renews⟩

theorem HostOk.carried {m m' : Machine (Shard ν) (Host ς)} (ok : HostOk m) (records : RecordsOk m')
    (h : Carried m m') : HostOk m' where
  records := records
  below := by
    intro p link' found
    obtain ⟨link, before, _⟩ := h.came found
    exact Nat.lt_of_lt_of_le (ok.below p link before) h.nextLink
  tried := by
    intro p hp
    refine Nat.lt_of_lt_of_le ?_ h.nextLink
    rcases h.tried p hp with before | mounted
    · exact ok.tried p before
    · obtain ⟨link, before⟩ := Option.isSome_iff_exists.mp mounted
      exact ok.below p link before
  sound := by
    intro p link' found
    obtain ⟨link, before, renews⟩ := h.came found
    exact renews.sound (ok.sound p link before)
  cached := by
    intro p link' found
    obtain ⟨link, before, renews⟩ := h.came found
    obtain ⟨door, v, policy, cached⟩ := ok.cached p link before
    obtain ⟨v', cached'⟩ := renews.cached (ok.sound p link before) cached
    exact ⟨door, v', policy, cached'⟩
  known := by
    intro p link' found
    obtain ⟨link, before, renews⟩ := h.came found
    rw [renews.id]
    exact Nat.lt_of_lt_of_le (ok.known p link before) h.ids
  bound := by
    intro p link' rec' found record
    obtain ⟨link, before, renews⟩ := h.came found
    rw [renews.id] at record
    rcases h.records link.id rec' record with ⟨rec, old, kept⟩ | ⟨new, _⟩
    · obtain ⟨proxy, schema⟩ := ok.bound p link rec before old
      exact ⟨kept.shard.trans proxy, by rw [renews.stateSchema, schema, kept.stateSchema]⟩
    · exact absurd new (Nat.ne_of_lt (ok.known p link before))
  owned := by
    intro id rec' p record proxy
    rcases h.records id rec' record with ⟨rec, old, kept⟩ | ⟨_, native⟩
    · obtain ⟨link, before, same⟩ := ok.owned id rec p old (kept.shard ▸ proxy)
      obtain ⟨link', after, renews⟩ := h.kept p link before
      exact ⟨link', after, renews.id.trans same⟩
    · exact absurd proxy (native p)
  listed := by
    intro entry he
    rw [h.links] at he
    obtain ⟨link, before⟩ := ok.listed entry he
    obtain ⟨link', after, _⟩ := h.kept entry.2 link before
    exact ⟨link', after⟩
  apart := by
    rw [h.links]
    exact ok.apart

theorem records_kept {m m' : Machine (Shard ν) (Host ς)} {joining : Option (Shard ν)}
    (reshaped : Reshaped joining m m') (below : m.world.sb.Below)
    (native : ∀ p, joining ≠ some (.proxy p)) : ∀ id rec', m'.world.sb.find id = some rec' →
      (∃ rec, m.world.sb.find id = some rec ∧ Kept rec rec') ∨
      id = m.world.sb.nextShardId ∧ ∀ p, rec'.shard ≠ .proxy p := by
  intro id rec' found
  rcases reshaped.origin below found with ⟨rec, old, kept, _⟩ | ⟨new, _, _, _, joins⟩
  · exact Or.inl ⟨rec, old, kept⟩
  · refine Or.inr ⟨new, ?_⟩
    intro p proxy
    rw [proxy] at joins
    exact native p joins

theorem ids_grow {m m' : Machine (Shard ν) (Host ς)} {joining : Option (Shard ν)}
    (reshaped : Reshaped joining m m') : m.world.sb.nextShardId ≤ m'.world.sb.nextShardId := by
  rcases reshaped.ids with ids | ⟨next, _⟩
  · exact Nat.le_of_eq ids.nextShardId.symm
  · rw [next]
    exact Nat.le_succ _

theorem joining_native (input : Sb.Input ν ς) (p : Pointer) : (hosted input).joining ≠ some (.proxy p) := by
  cases input with
  | registerShard incoming grant => cases incoming <;> exact nofun
  | _ => exact nofun

theorem Aside.carried {s s' : System ν ς} (h : Aside s s') : Carried s.machine s'.machine where
  ids := Nat.le_of_eq h.ids.nextShardId.symm
  records := by
    intro id rec' found
    have same : s'.machine.world.sb.shards = s.machine.world.sb.shards := h.shards
    rw [Switchboard.find, same] at found
    exact Or.inl ⟨rec', found, rfl, rfl, rfl, rfl, rfl⟩
  links := h.links
  nextLink := h.nextLink
  tried := by
    intro p hp
    have same : s'.machine.world.env.respawns = s.machine.world.env.respawns := h.respawns
    exact Or.inl (same ▸ hp)
  gone := by
    intro p gone
    exact (congrFun h.heap p).trans gone
  kept := by
    intro p link found
    exact ⟨link, (congrFun h.heap p).trans found, .refl link⟩

/-- Only the link at `p` has changed. -/
structure Touched (p : Pointer) (link' : Link) (h h' : Host ς) : Prop where
  heap : h'.heap = Function.update h.heap p (some link')
  links : h'.links = h.links
  nextLink : h'.nextLink = h.nextLink
  respawns : ∃ n, h'.respawns = h.respawns ++ List.replicate n p

theorem Touched.here {p : Pointer} {link' : Link} {h h' : Host ς} (t : Touched p link' h h') :
    h'.heap p = some link' := by
  rw [t.heap, Function.update_self]

theorem Touched.elsewhere {p q : Pointer} {link' : Link} {h h' : Host ς} (t : Touched p link' h h') (other : q ≠ p) :
    h'.heap q = h.heap q := by
  rw [t.heap, Function.update_of_ne other]

theorem Touched.carried {m m' : Machine (Shard ν) (Host ς)} {p : Pointer} {link link' : Link}
    (t : Touched p link' m.world.env m'.world.env) (mounted : m.world.env.heap p = some link)
    (renewed : Renewed link link') (ids : m'.world.sb.nextShardId = m.world.sb.nextShardId)
    (records : ∀ id rec', m'.world.sb.find id = some rec' → ∃ rec, m.world.sb.find id = some rec ∧ Kept rec rec') :
    Carried m m' where
  ids := Nat.le_of_eq ids.symm
  records := fun id rec' found => Or.inl (records id rec' found)
  links := t.links
  nextLink := Nat.le_of_eq t.nextLink.symm
  tried := by
    intro q hq
    obtain ⟨n, respawns⟩ := t.respawns
    rw [respawns] at hq
    rcases List.mem_append.mp hq with old | new
    · exact Or.inl old
    · rw [List.eq_of_mem_replicate new, mounted]
      exact Or.inr rfl
  gone := by
    intro q gone
    have other : q ≠ p := by
      rintro rfl
      rw [mounted] at gone
      cases gone
    rw [t.elsewhere other]
    exact gone
  kept := by
    intro q link₀ found
    by_cases same : q = p
    · subst same
      cases mounted.symm.trans found
      exact ⟨link', t.here, renewed⟩
    · exact ⟨link₀, by rw [t.elsewhere same]; exact found, .refl link₀⟩

theorem records_same {sb sb' : Switchboard (Shard ν)} (shards : sb'.shards = sb.shards) :
    ∀ id rec', sb'.find id = some rec' → ∃ rec, sb.find id = some rec ∧ Kept rec rec' := by
  intro id rec' found
  rw [Switchboard.find, shards] at found
  exact ⟨rec', found, rfl, rfl, rfl, rfl, rfl⟩

theorem drained_touched {s s' : System ν ς} {p : Pointer} {link : Link} {ch : Channel} {sends : List SendResult}
    {recvs : List RecvResult} (mounted : s.host.heap p = some link) (live : link.channel = some ch)
    (world : s'.world = drainChild p sends recvs s.world) :
    Touched p (drainedLink link ch sends recvs) s.host s'.host ∧ Enqueues link.id s.bus s'.bus := by
  have found : s.world.env.heap p = some link := mounted
  rw [drainChild_eq found live] at world
  have host : s'.host = s.host.put p (drainedLink link ch sends recvs) := congrArg World.env world
  have bus : s'.bus = (received ch sends recvs).2.foldl (emits link) s.bus := congrArg World.sb world
  refine ⟨⟨by rw [host]; rfl, by rw [host]; rfl, by rw [host]; rfl, 0, by rw [host]; simp; rfl⟩, ?_⟩
  rw [bus]
  exact emits_enqueues link _ s.bus

theorem handled_touched {s s' : System ν ς} {e : Envelope} {trusted : Message} {p : Pointer} {link : Link}
    (h : Handled s e trusted p link s') : Touched p (shipped link trusted) s.host s'.host := by
  obtain ⟨answers, host⟩ := h.host
  exact ⟨by rw [host]; rfl, by rw [host]; rfl, by rw [host]; rfl, 0, by rw [host]; simp; rfl⟩

theorem Recovered.touched {p : Pointer} {link : Link} {door : Schema} {v policy : Value} {h : Host ς}
    {w w' : World (Shard ν) (Host ς)} (recovered : Recovered p link door v policy w w')
    (begun : w.env = h.put p link) :
    ∃ link' n, Touched p link' h w'.env ∧ link.Ruled link' ∧ (link'.Buried ∨ link'.Restored link.snapshotBytes) ∧
      w'.env.respawns = h.respawns ++ List.replicate n p := by
  cases recovered with
  | spent link' ruled buried exhausted bus events revived host =>
      obtain ⟨calls, host⟩ := host
      have respawns : w'.env.respawns = h.respawns ++ List.replicate 0 p := by rw [host, begun]; simp [Host.put]
      refine ⟨link', 0, ⟨?_, ?_, ?_, 0, respawns⟩, ruled, Or.inl buried, respawns⟩
      · rw [host, begun, put_put]
        rfl
      · rw [host, begun]
        rfl
      · rw [host, begun]
        rfl
  | tried link' ruled result rec found left bus events revived host =>
      obtain ⟨calls, host⟩ := host
      have respawns : w'.env.respawns = h.respawns ++ List.replicate 1 p := by rw [host, begun]; rfl
      refine ⟨link', 1, ⟨?_, ?_, ?_, 1, respawns⟩, ruled, result, respawns⟩
      · rw [host, begun]
        exact congrArg Host.heap (put_put h p link link')
      · rw [host, begun]
        rfl
      · rw [host, begun]
        rfl

/-! ## Every input -/

theorem RecordsOk.with_host {m : Machine (Shard ν) (Host ς)} (ok : RecordsOk m) (env : Host ς) :
    RecordsOk { m with world := { m.world with env } } :=
  (@Reshaped.same _ _ none m { m with world := { m.world with env } } rfl ⟨rfl, rfl⟩).ok ok

theorem stricken_records {m : Machine (Shard ν) (Host ς)} (ok : RecordsOk m) (p : Pointer) (link : Link)
    (answers : SpawnAnswers) : RecordsOk { m with
      world := stricken p link { m.world with env := { m.world.env with answers } } } := by
  unfold stricken
  split
  · have begun := RecordsOk.with_host ok (Host.put { m.world.env with answers } p link.struck)
    exact (@kill_reshaped _ _ none _ link.id).ok begun
  · exact RecordsOk.with_host ok { m.world.env with answers }

theorem comeback_kept (v : Value) (rec : ShardRecord (Shard ν)) : Kept rec (comeback v rec) :=
  ⟨rfl, rfl, rfl, rfl, rfl⟩

theorem Recovered.reshaped {p : Pointer} {link : Link} {door : Schema} {v policy : Value}
    {m m' : Machine (Shard ν) (Host ς)} (recovered : Recovered p link door v policy m.world m'.world)
    (registered : m'.registered = m.registered) (bound : Bound p link door m.world)
    (cached : Cached link door v policy) : Reshaped none m m' := by
  cases recovered with
  | spent link' ruled buried exhausted bus events revived host =>
      exact .same (by rw [bus]) ⟨by rw [bus], registered⟩
  | tried link' ruled result rec found left bus events revived host =>
      refine .updated link.id (comeback v) (by rw [bus]) ⟨by rw [bus], registered⟩ (comeback_kept v)
        (fun _ => Nat.le_succ _) ?_
      intro rec' found'
      rw [(bound.proxy rec' found').2]
      exact Or.inr (accepted_of_bytes cached.admitted)

theorem supervised_records {s s' : System ν ς} {answers : SpawnAnswers} {p : Pointer} {link : Link} {door : Schema}
    {v policy : Value} (ok : HostOk s.machine) (mounted : s.host.heap p = some link)
    (cached : Cached link door v policy)
    (recovered : Recovered p link.mourned door v policy
      (stricken p link { s.world with env := { s.host with answers } }) s'.world)
    (registered : s'.machine.registered = s.machine.registered) :
    RecordsOk s'.machine ∧
      ∀ id rec', s'.bus.find id = some rec' → ∃ rec, s.bus.find id = some rec ∧ Kept rec rec' := by
  have bound := ok.boundTo mounted cached.stateSchema
  have struck : Bound p link.mourned door (stricken p link { s.world with env := { s.host with answers } }) :=
    stricken_bound ⟨mounted, bound.proxy⟩
  have begun := stricken_records ok.records p link answers
  have reshaped := Recovered.reshaped (m := { s.machine with
    world := stricken p link { s.world with env := { s.host with answers } } }) recovered registered struck
    (cached.ruled link.mourned_ruled)
  refine ⟨reshaped.ok begun, ?_⟩
  intro id rec' found
  rcases reshaped.origin begun.below found with ⟨between, found', kept, _⟩ | ⟨_, _, _, _, joins⟩
  · obtain ⟨rec, old, dulled⟩ := stricken_faded p link { s.world with env := { s.host with answers } } id between found'
    exact ⟨rec, old, kept.id.trans dulled.kept.id, kept.shard.trans dulled.kept.shard,
      kept.accept.trans dulled.kept.accept, kept.stateSchema.trans dulled.kept.stateSchema,
      kept.grant.trans dulled.kept.grant⟩
  · cases joins

theorem stricken_nextShardId (p : Pointer) (link : Link) (w : World (Shard ν) (Host ς)) :
    (stricken p link w).sb.nextShardId = w.sb.nextShardId := by
  unfold stricken World.kill
  split
  · split <;> rfl
  · rfl

theorem Recovered.nextShardId {p : Pointer} {link : Link} {door : Schema} {v policy : Value}
    {w w' : World (Shard ν) (Host ς)} (recovered : Recovered p link door v policy w w') :
    w'.sb.nextShardId = w.sb.nextShardId := by
  cases recovered with
  | spent link' ruled buried exhausted bus events revived host => rw [bus]
  | tried link' ruled result rec found left bus events revived host => rw [bus]

theorem supervised_touched {s s' : System ν ς} {answers : SpawnAnswers} {p : Pointer} {link : Link} {door : Schema}
    {v policy : Value} (mounted : s.host.heap p = some link)
    (recovered : Recovered p link.mourned door v policy
      (stricken p link { s.world with env := { s.host with answers } }) s'.world) :
    ∃ link' n, Touched p link' s.host s'.host ∧ link.Ruled link' ∧
      (link'.Buried ∨ link'.Restored link.snapshotBytes) ∧
      s'.host.respawns = s.host.respawns ++ List.replicate n p := by
  obtain ⟨link', n, touched, ruled, result, respawns⟩ := recovered.touched (stricken_host mounted)
  rw [link.mourned_same.2.2] at result
  exact ⟨link', n, ⟨touched.heap, touched.links, touched.nextLink, touched.respawns⟩,
    link.mourned_ruled.trans ruled, result, respawns⟩

theorem Tended.carried {m m' : Machine (Shard ν) (Host ς)} {target : Option Pointer} {joining : Option (Shard ν)}
    (tended : Tended target m.world.env m'.world.env) (reshaped : Reshaped joining m m')
    (below : m.world.sb.Below) (native : ∀ p, joining ≠ some (.proxy p)) : Carried m m' where
  ids := ids_grow reshaped
  records := records_kept reshaped below native
  links := tended.links
  nextLink := Nat.le_of_eq tended.nextLink.symm
  tried := tended.respawned
  gone := tended.gone
  kept := by
    intro p link found
    obtain ⟨link', after, rehoused, sound⟩ := tended.kept p link found
    exact ⟨link', after, rehoused.ruled.renewed sound⟩

/-! ## Mounting and unmounting -/

theorem mem_insertLink {name : ByteString} {p : Pointer} {links : List (ByteString × Pointer)}
    {entry : ByteString × Pointer} : entry ∈ insertLink name p links ↔ entry = (name, p) ∨ entry ∈ links := by
  induction links with
  | nil => simp [insertLink]
  | cons first links ih =>
      unfold insertLink
      split
      · simp
      · rw [List.mem_cons, ih, List.mem_cons]
        tauto

theorem insertLink_perm (name : ByteString) (p : Pointer) (links : List (ByteString × Pointer)) :
    (insertLink name p links).Perm ((name, p) :: links) := by
  induction links with
  | nil => exact .refl _
  | cons first links ih =>
      unfold insertLink
      split
      · exact .refl _
      · exact (ih.cons first).trans (.swap (name, p) first links)

theorem Taken.heap_at {s s' : System ν ς} {name : ByteString} {grant : Grant} {id : ShardId} {link : Link}
    {rec : ShardRecord (Shard ν)} (taken : Taken name grant s.world s'.world id link rec) (q : Pointer) :
    s'.host.heap q = if q = s.host.nextLink then some link else s.host.heap q := by
  rw [show s'.host.heap = _ from taken.heap, Function.update_apply]
  rfl

theorem Released.heap_at {s s' : System ν ς} {name : ByteString} {p : Pointer} {link : Link}
    (released : Released name p link s.world s'.world) (q : Pointer) :
    s'.host.heap q = if q = p then none else s.host.heap q := by
  rw [show s'.host.heap = _ from released.heap, Function.update_apply]
  rfl

theorem Taken.link_id {s s' : System ν ς} {name : ByteString} {grant : Grant} {id : ShardId} {link : Link}
    {rec : ShardRecord (Shard ν)} (taken : Taken name grant s.world s'.world id link rec) :
    link.id = s.bus.nextShardId :=
  taken.id.1.trans taken.id.2

-- what is found at a pointer is the new link or an old one
theorem Taken.came {s s' : System ν ς} {name : ByteString} {grant : Grant} {id : ShardId} {link : Link}
    {rec : ShardRecord (Shard ν)} (taken : Taken name grant s.world s'.world id link rec) {q : Pointer} {found : Link}
    (mounted : s'.host.heap q = some found) :
    q = s.host.nextLink ∧ found = link ∨ q ≠ s.host.nextLink ∧ s.host.heap q = some found := by
  rw [taken.heap_at] at mounted
  split at mounted
  · cases mounted
    exact Or.inl ⟨‹_›, rfl⟩
  · exact Or.inr ⟨‹_›, mounted⟩

theorem Taken.find_at {s s' : System ν ς} {name : ByteString} {grant : Grant} {id : ShardId} {link : Link}
    {rec : ShardRecord (Shard ν)} (taken : Taken name grant s.world s'.world id link rec) (ok : RecordsOk s.machine)
    (k : ShardId) : s'.bus.find k = if k = s.bus.nextShardId then some rec else s.bus.find k := by
  obtain ⟨_, _, _, _, enrolled⟩ := taken.cached
  exact ok.below.find_added enrolled.shards k

theorem Taken.reshaped {s s' : System ν ς} {name : ByteString} {grant : Grant} {id : ShardId} {link : Link}
    {rec : ShardRecord (Shard ν)} (taken : Taken name grant s.world s'.world id link rec)
    (registered : s'.machine.registered = s.machine.registered ++ [(id, grant)]) :
    Reshaped (some (.proxy s.host.nextLink)) s.machine s'.machine := by
  obtain ⟨_, _, _, _, enrolled⟩ := taken.cached
  refine .added rec grant enrolled.shards enrolled.nextShardId ?_ enrolled.id taken.grant enrolled.good ?_
  · rw [registered, taken.id.2]
    rfl
  · rw [enrolled.shard]
    rfl

theorem Taken.added {s s' : System ν ς} {name : ByteString} {grant : Grant} {id : ShardId} {link : Link}
    {rec : ShardRecord (Shard ν)} (taken : Taken name grant s.world s'.world id link rec) :
    s'.host.heap s.host.nextLink = some link := by
  rw [taken.heap_at]
  exact if_pos rfl

-- what was mounted stays where it was
theorem Taken.kept {s s' : System ν ς} {name : ByteString} {grant : Grant} {id : ShardId} {link : Link}
    {rec : ShardRecord (Shard ν)} (taken : Taken name grant s.world s'.world id link rec) (ok : HostOk s.machine)
    {q : Pointer} {found : Link} (old : s.host.heap q = some found) : s'.host.heap q = some found := by
  have other : q ≠ s.host.nextLink := Nat.ne_of_lt (ok.below q found old)
  rw [taken.heap_at, if_neg other]
  exact old

theorem mounted_ok {s s' : System ν ς} {name : ByteString} {grant : Grant} {id : ShardId} {link : Link}
    {rec : ShardRecord (Shard ν)} (ok : HostOk s.machine) (taken : Taken name grant s.world s'.world id link rec)
    (registered : s'.machine.registered = s.machine.registered ++ [(id, grant)]) : HostOk s'.machine where
  records := (taken.reshaped registered).ok ok.records
  below := by
    intro q found mounted
    rw [show s'.machine.world.env.nextLink = s.host.nextLink + 1 from taken.nextLink]
    rcases taken.came mounted with ⟨rfl, _⟩ | ⟨_, old⟩
    · exact Nat.lt_succ_self _
    · exact Nat.lt_succ_of_lt (ok.below q found old)
  tried := by
    intro q hq
    rw [show s'.machine.world.env.nextLink = s.host.nextLink + 1 from taken.nextLink]
    have before : q ∈ s.host.respawns := by
      rw [← show s'.machine.world.env.respawns = s.host.respawns from taken.respawns]
      exact hq
    exact Nat.lt_succ_of_lt (ok.tried q before)
  sound := by
    intro q found mounted
    rcases taken.came mounted with ⟨_, rfl⟩ | ⟨_, old⟩
    · intro ch live
      obtain ⟨fresh, made, empty⟩ := taken.newcomer.channel
      cases made.symm.trans live
      exact empty.sound
    · exact ok.sound q found old
  cached := by
    obtain ⟨door, v, policy, cached, _⟩ := taken.cached
    intro q found mounted
    rcases taken.came mounted with ⟨_, rfl⟩ | ⟨_, old⟩
    · exact ⟨door, v, policy, cached⟩
    · exact ok.cached q found old
  known := by
    obtain ⟨_, _, _, _, enrolled⟩ := taken.cached
    intro q found mounted
    rw [show s'.machine.world.sb.nextShardId = s.bus.nextShardId + 1 from enrolled.nextShardId]
    rcases taken.came mounted with ⟨_, rfl⟩ | ⟨_, old⟩
    · rw [taken.link_id]
      exact Nat.lt_succ_self _
    · exact Nat.lt_succ_of_lt (ok.known q found old)
  bound := by
    obtain ⟨_, _, _, cached, enrolled⟩ := taken.cached
    intro q found rec' mounted record
    replace record := (taken.find_at ok.records _).symm.trans record
    rcases taken.came mounted with ⟨rfl, rfl⟩ | ⟨_, old⟩
    · rw [if_pos taken.link_id] at record
      cases record
      exact ⟨enrolled.shard, by rw [cached.stateSchema, enrolled.stateSchema]⟩
    · have small : found.id < s.bus.nextShardId := ok.known q found old
      rw [if_neg (Nat.ne_of_lt small)] at record
      exact ok.bound q found rec' old record
  owned := by
    obtain ⟨_, _, _, _, enrolled⟩ := taken.cached
    intro k rec' q record proxy
    replace record := (taken.find_at ok.records _).symm.trans record
    split at record
    · cases record
      rename_i new
      rw [enrolled.shard] at proxy
      cases proxy
      exact ⟨link, taken.added, taken.link_id.trans new.symm⟩
    · obtain ⟨found, old, same⟩ := ok.owned k rec' q record proxy
      exact ⟨found, taken.kept ok old, same⟩
  listed := by
    intro entry he
    rw [show s'.machine.world.env.links = _ from taken.links, mem_insertLink] at he
    rcases he with rfl | he
    · exact ⟨link, taken.added⟩
    · obtain ⟨found, old⟩ := ok.listed entry he
      exact ⟨found, taken.kept ok old⟩
  apart := by
    rw [show s'.machine.world.env.links = _ from taken.links]
    refine ((insertLink_perm name s.host.nextLink s.host.links).map Prod.snd).nodup_iff.mpr ?_
    rw [List.map_cons, List.nodup_cons]
    refine ⟨?_, ok.apart⟩
    intro listed
    obtain ⟨entry, he, same⟩ := List.mem_map.mp listed
    obtain ⟨found, old⟩ := ok.listed entry he
    exact Nat.ne_of_lt (ok.below entry.2 found old) same

theorem Released.came {s s' : System ν ς} {name : ByteString} {p : Pointer} {link : Link}
    (released : Released name p link s.world s'.world) {q : Pointer} {found : Link}
    (mounted : s'.host.heap q = some found) : q ≠ p ∧ s.host.heap q = some found := by
  rw [released.heap_at] at mounted
  split at mounted
  · cases mounted
  · exact ⟨‹_›, mounted⟩

theorem Released.nextShardId {s s' : System ν ς} {name : ByteString} {p : Pointer} {link : Link}
    (released : Released name p link s.world s'.world) : s'.bus.nextShardId = s.bus.nextShardId := by
  rw [show s'.bus = _ from released.bus]
  unfold Switchboard.unregisterShard
  split <;> rfl

-- the record of the link is gone, the others are there
theorem Released.find_at {s s' : System ν ς} {name : ByteString} {p : Pointer} {link : Link}
    (released : Released name p link s.world s'.world) {k : ShardId} {rec : ShardRecord (Shard ν)}
    (record : s'.bus.find k = some rec) : s.bus.find k = some rec ∧ k ≠ link.id := by
  rw [show s'.bus = _ from released.bus] at record
  unfold Switchboard.unregisterShard at record
  cases known : s.bus.find link.id with
  | none =>
      rw [show s.world.sb.find link.id = none from known] at record
      refine ⟨record, ?_⟩
      rintro rfl
      cases known.symm.trans record
  | some old =>
      rw [show s.world.sb.find link.id = some old from known] at record
      have left : (s.bus.shards.erase link.id).find k = some rec := record
      rw [OrdMap.find_erase] at left
      split at left
      · cases left
      · exact ⟨left, ‹_›⟩

theorem Released.reshaped {s s' : System ν ς} {name : ByteString} {p : Pointer} {link : Link}
    (released : Released name p link s.world s'.world) (registered : s'.machine.registered = s.machine.registered) :
    Reshaped none s.machine s'.machine := by
  have bus : s'.machine.world.sb = (s.bus.unregisterShard link.id).1 := released.bus
  have removed := @unregister_reshaped _ _ none s.machine link.id
  cases removed with
  | same shards ids => exact .same (by rw [bus]; exact shards) ⟨by rw [bus]; exact ids.nextShardId, registered⟩
  | removed id shards ids =>
      exact .removed id (by rw [bus]; exact shards) ⟨by rw [bus]; exact ids.nextShardId, registered⟩
  | updated id f shards ids kept spent saved =>
      exact .updated id f (by rw [bus]; exact shards) ⟨by rw [bus]; exact ids.nextShardId, registered⟩ kept spent saved
  | added rec grant shards nextShardId registered' id grants seeded joins => cases joins

theorem Released.kept {s s' : System ν ς} {name : ByteString} {p : Pointer} {link : Link}
    (released : Released name p link s.world s'.world) {q : Pointer} {found : Link} (different : q ≠ p)
    (old : s.host.heap q = some found) : s'.host.heap q = some found := by
  rw [released.heap_at, if_neg different]
  exact old

theorem unmounted_ok {s s' : System ν ς} {name : ByteString} {p : Pointer} {link : Link} (ok : HostOk s.machine)
    (released : Released name p link s.world s'.world) (registered : s'.machine.registered = s.machine.registered) :
    HostOk s'.machine where
  records := (released.reshaped registered).ok ok.records
  below := by
    intro q found still
    rw [show s'.machine.world.env.nextLink = s.host.nextLink from released.nextLink]
    exact ok.below q found (released.came still).2
  tried := by
    intro q hq
    rw [show s'.machine.world.env.nextLink = s.host.nextLink from released.nextLink]
    refine ok.tried q ?_
    rw [← show s'.machine.world.env.respawns = s.machine.world.env.respawns from released.respawns]
    exact hq
  sound := by
    intro q found still
    exact ok.sound q found (released.came still).2
  cached := by
    intro q found still
    exact ok.cached q found (released.came still).2
  known := by
    intro q found still
    have before := ok.known q found (released.came still).2
    exact Nat.lt_of_lt_of_eq before released.nextShardId.symm
  bound := by
    intro q found rec still record
    exact ok.bound q found rec (released.came still).2 (released.find_at record).1
  owned := by
    intro k rec q record proxy
    obtain ⟨record, other⟩ := released.find_at record
    obtain ⟨found, old, same⟩ := ok.owned k rec q record proxy
    have different : q ≠ p := by
      rintro rfl
      cases (show s.host.heap q = some link from released.mounted).symm.trans old
      exact other same.symm
    exact ⟨found, released.kept different old, same⟩
  listed := by
    intro entry he
    rw [show s'.machine.world.env.links = _ from released.links, List.mem_filter] at he
    obtain ⟨found, old⟩ := ok.listed entry he.1
    have different : entry.2 ≠ p := by
      intro same
      -- two entries with one pointer are one entry
      obtain ⟨first, at_, pointer⟩ := Option.map_eq_some_iff.mp released.named
      have here := List.mem_of_find?_eq_some at_
      have named := List.find?_some at_
      have equal : entry = first :=
        List.inj_on_of_nodup_map ok.apart he.1 here (same.trans pointer.symm)
      rw [equal] at he
      simp_all
    exact ⟨found, released.kept different old⟩
  apart := by
    rw [show s'.machine.world.env.links = _ from released.links]
    exact ok.apart.sublist (List.filter_sublist.map Prod.snd)

/-- An input mounts a link, unmounts one, or carries all of them on. -/
inductive Moved (s s' : System ν ς) : Input ν ς → Prop where
  | mounted {name soPath : ByteString} {grant : HostGrant} {answers : MountAnswers} (id : ShardId) (link : Link)
      (rec : ShardRecord (Shard ν)) (taken : Taken name grant.sends s.world s'.world id link rec)
      (registered : s'.machine.registered = s.machine.registered ++ [(id, grant.sends)]) :
      Moved s s' (.mount name soPath grant answers)
  | unmounted {name : ByteString} (p : Pointer) (link : Link) (released : Released name p link s.world s'.world)
      (registered : s'.machine.registered = s.machine.registered) : Moved s s' (.unmount name)
  | carried {input : Input ν ς} (records : RecordsOk s'.machine) (carried : Carried s.machine s'.machine) :
      Moved s s' input

theorem step_moved {native : ShardOps ν ς} {input : Input ν ς} {s s' : System ν ς} (ok : HostOk s.machine)
    (action : System.step native input s = some s') : Moved s s' input := by
  cases step_stepped ok action with
  | aside h =>
      have reshaped : Reshaped none s.machine s'.machine := .same h.shards h.ids
      exact .carried (reshaped.ok ok.records) h.carried
  | mounted id link rec taken registered => exact .mounted id link rec taken registered
  | unmounted p link released registered => exact .unmounted p link released registered
  | drained p todo link ch phase mounted live registered world =>
      obtain ⟨touched, es, bus, _⟩ := drained_touched mounted live world
      have shards : s'.bus.shards = s.bus.shards := by rw [bus]; rfl
      have nextShardId : s'.bus.nextShardId = s.bus.nextShardId := by rw [bus]; rfl
      have reshaped : Reshaped none s.machine s'.machine := .same shards ⟨nextShardId, registered⟩
      exact .carried (reshaped.ok ok.records)
        (touched.carried mounted (drainedLink_renewed live _ _) nextShardId (records_same shards))
  | supervised p todo link door v policy phase mounted cached needy recovered registered =>
      obtain ⟨records, kept⟩ := supervised_records ok mounted cached recovered registered
      obtain ⟨link', n, touched, ruled, result, _⟩ := supervised_touched mounted recovered
      have sound : link'.Sound := result.elim Link.Buried.sound Link.Restored.sound
      refine .carried records (touched.carried mounted (ruled.renewed fun _ => sound) ?_ kept)
      exact recovered.nextShardId.trans (stricken_nextShardId p link _)
  | called tended reshaped faded =>
      exact .carried (reshaped.ok ok.records)
        (tended.carried reshaped ok.records.below (joining_native _))
  | handled e trusted p link h =>
      have reshaped : Reshaped none s.machine s'.machine := .same h.shards h.ids
      exact .carried (reshaped.ok ok.records) ((handled_touched h).carried h.mounted (shipped_renewed link trusted)
        h.ids.nextShardId (records_same h.shards))

theorem step_ok {native : ShardOps ν ς} {input : Input ν ς} {s s' : System ν ς} (ok : HostOk s.machine)
    (action : System.step native input s = some s') : HostOk s'.machine := by
  cases step_moved ok action with
  | mounted id link rec taken registered => exact mounted_ok ok taken registered
  | unmounted p link released registered => exact unmounted_ok ok released registered
  | carried records carried => exact ok.carried records carried

theorem Moved.new {input : Input ν ς} {s s' : System ν ς} (moved : Moved s s' input) {p : Pointer} {link : Link}
    (unused : s.host.heap p = none) (found : s'.host.heap p = some link) :
    p = s.host.nextLink ∧ ∃ name soPath grant answers id rec, input = .mount name soPath grant answers ∧
      Taken name grant.sends s.world s'.world id link rec := by
  cases moved with
  | mounted id new rec taken registered =>
      rcases taken.came found with ⟨here, rfl⟩ | ⟨_, old⟩
      · exact ⟨here, _, _, _, _, id, rec, rfl, taken⟩
      · cases unused.symm.trans old
  | unmounted q gone released registered =>
      cases unused.symm.trans (released.came found).2
  | carried records carried =>
      have still : s'.host.heap p = none := carried.gone p unused
      rw [still] at found
      cases found

theorem Moved.same {input : Input ν ς} {s s' : System ν ς} (moved : Moved s s' input) (ok : HostOk s.machine) {p : Pointer} {link link' : Link}
    (mounted : s.host.heap p = some link) (found : s'.host.heap p = some link') : Renewed link link' := by
  cases moved with
  | mounted id new rec taken registered =>
      cases (taken.kept ok mounted).symm.trans found
      exact .refl link
  | unmounted q gone released registered =>
      cases mounted.symm.trans (released.came found).2
      exact .refl link
  | carried records carried =>
      obtain ⟨link₁, found₁, renewed⟩ := carried.kept p link mounted
      cases found.symm.trans found₁
      exact renewed

theorem host_ok {native : ShardOps ν ς} {host : Host ς} {inputs : List (Input ν ς)} {s : System ν ς}
    (run : Reaches native (.start host) inputs s) : HostOk s.machine :=
  run.invariant (I := fun s => HostOk s.machine) (fun _ _ _ => step_ok) (HostOk.start host)

end Zen.Isolation
