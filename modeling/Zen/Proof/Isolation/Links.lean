import Zen.Proof.Isolation.Confinement
import Zen.Proof.Isolation.Spawn
import Zen.Proof.Switchboard.Callbacks

/-!
# What the host does to its links

One lemma for each operation of the host. The bus comes back to a link through its proxy alone, and
then only to respawn its child.
-/

namespace Zen.Isolation
open Lib Sb BusM

variable {ν ς α : Type}

def Link.Sound (link : Link) : Prop := ∀ ch, link.channel = some ch → ch.Sound

/-! ## The proxy -/

theorem wp_onLink {h : Host ς} {p : Pointer} {link : Link} (found : h.heap p = some link) {missing : α}
    {f : Link → HostM ς α} {Q : Except Exn α → Host ς → Prop} :
    wp (onLink p missing f) h Q ↔ wp (f link) h Q := by
  unfold onLink
  rw [wp_bind, wp_get, andThen_ok, found]

theorem wp_onLink_none {h : Host ς} {p : Pointer} (gone : h.heap p = none) {missing : α}
    {f : Link → HostM ς α} {Q : Except Exn α → Host ς → Prop} :
    wp (onLink p missing f) h Q ↔ Q (.ok missing) h := by
  unfold onLink
  rw [wp_bind, wp_get, andThen_ok, gone, wp_pure]

/-- The link after a revival of its child. -/
def revivedLink (h : Host ς) (link : Link) (state : Value) : Link :=
  let spawned := respawn h.forceEntryFailure h.answers link
  match spawned.2.2, serialize state with
  | true, .ok bytes => spawned.1.queue .revive bytes
  | _, _ => spawned.1

def Host.revived (h : Host ς) (p : Pointer) (link : Link) (state : Value) (calls : List OsCall) : Host ς :=
  { (h.put p (revivedLink h link state)).called calls with respawns := h.respawns ++ [p] }

theorem respawnAndRevive_spec {h : Host ς} {p : Pointer} {link : Link} (found : h.heap p = some link)
    (state : Value) : wp (respawnAndRevive p state) h fun r h' =>
      h' = h.revived p link state (respawn h.forceEntryFailure h.answers link).2.1 ∧ ∀ bytes, serialize state = .ok bytes → r = .ok () := by
  unfold respawnAndRevive
  rw [wp_onLink found]
  simp only [wp_bind, wp_get, andThen_ok]
  unfold Host.revived revivedLink
  generalize respawn h.forceEntryFailure h.answers link = spawned
  obtain ⟨link', calls, fine⟩ := spawned
  cases fine with
  | false => exact ⟨rfl, fun _ _ => rfl⟩
  | true =>
      cases written : serialize state with
      | error e =>
          refine ⟨rfl, ?_⟩
          intro bytes encoded
          cases encoded
      | ok bytes =>
          refine ⟨?_, fun _ _ => rfl⟩
          simp [Host.put, Host.called]

theorem queue_rehoused (link : Link) (op : Op) (payload : ByteString) : link.Rehoused (link.queue op payload) := rfl

theorem Link.Sound.queue {link : Link} (h : link.Sound) (op : Op) (payload : ByteString) :
    (link.queue op payload).Sound := by
  intro ch live
  obtain ⟨before, was, rfl⟩ := Option.map_eq_some_iff.mp live
  exact queue_sound (h before was) op payload

theorem Respawned.sound {a : SpawnAnswers} {link : Link} {result : Link × List OsCall × Bool}
    (h : Respawned a link result) : result.1.Sound := by
  intro ch live
  rw [h.channel] at live
  split at live
  · cases live
    exact (greeted_fresh a).sound
  · cases live

theorem revivedLink_spec (h : Host ς) (link : Link) (state : Value) :
    link.Rehoused (revivedLink h link state) ∧ (revivedLink h link state).Sound := by
  have spec := respawn_spec h.forceEntryFailure h.answers link
  unfold revivedLink
  simp only
  split
  · exact ⟨spec.rest.trans (queue_rehoused _ _ _), spec.sound.queue _ _⟩
  · exact ⟨spec.rest, spec.sound⟩

/-! ## Calls of the bus -/

/-- The links after something that may have respawned the child of `target`. -/
structure Tended (target : Option Pointer) (h h' : Host ς) : Prop where
  links : h'.links = h.links
  nextLink : h'.nextLink = h.nextLink
  respawned : ∀ p ∈ h'.respawns, p ∈ h.respawns ∨ (h.heap p).isSome
  others : ∀ p, target ≠ some p → h'.heap p = h.heap p ∧ h'.respawns.count p = h.respawns.count p
  gone : ∀ p, h.heap p = none → h'.heap p = none
  kept : ∀ p link, h.heap p = some link →
    ∃ link', h'.heap p = some link' ∧ link.Rehoused link' ∧ (link.Sound → link'.Sound)
  steady : ∀ p, h.respawns.count p ≤ h'.respawns.count p ∧
    (h'.respawns.count p = h.respawns.count p → h'.heap p = h.heap p)

theorem Tended.refl (target : Option Pointer) (h : Host ς) : Tended target h h :=
  ⟨rfl, rfl, fun _ => Or.inl, fun _ _ => ⟨rfl, rfl⟩, fun _ => id, fun _ link found => ⟨link, found, .refl link, id⟩,
    fun _ => ⟨Nat.le_refl _, fun _ => rfl⟩⟩

theorem Tended.trans {target : Option Pointer} {h mid h' : Host ς} (first : Tended target h mid)
    (second : Tended target mid h') : Tended target h h' := by
  refine ⟨second.links.trans first.links, second.nextLink.trans first.nextLink, ?_, ?_, ?_, ?_, ?_⟩
  · intro p hp
    rcases second.respawned p hp with before | live
    · exact first.respawned p before
    · refine Or.inr ?_
      cases found : h.heap p with
      | none => rw [first.gone p found] at live; exact live
      | some link => rfl
  · intro p other
    obtain ⟨heap, count⟩ := first.others p other
    obtain ⟨heap', count'⟩ := second.others p other
    exact ⟨heap'.trans heap, count'.trans count⟩
  · intro p gone
    exact second.gone p (first.gone p gone)
  · intro p link found
    obtain ⟨between, found, same, sound⟩ := first.kept p link found
    obtain ⟨link', found, same', sound'⟩ := second.kept p between found
    exact ⟨link', found, same.trans same', fun h => sound' (sound h)⟩
  · intro p
    obtain ⟨grows, steady⟩ := first.steady p
    obtain ⟨grows', steady'⟩ := second.steady p
    refine ⟨Nat.le_trans grows grows', ?_⟩
    intro same
    exact (steady' (by omega)).trans (steady (by omega))

theorem Tended.memory (target : Option Pointer) (h : Host ς) (memory : ς) : Tended target h { h with memory } :=
  ⟨rfl, rfl, fun _ => Or.inl, fun _ _ => ⟨rfl, rfl⟩, fun _ => id, fun _ link found => ⟨link, found, .refl link, id⟩,
    fun _ => ⟨Nat.le_refl _, fun _ => rfl⟩⟩

@[simp] theorem put_heap_ne (h : Host ς) {p q : Pointer} (link : Link) (other : q ≠ p) :
    (h.put p link).heap q = h.heap q := Function.update_of_ne other ..

theorem revived_tended {h : Host ς} {p : Pointer} {link : Link} (found : h.heap p = some link) (state : Value)
    (calls : List OsCall) : Tended (some p) h (h.revived p link state calls) := by
  obtain ⟨same, sound⟩ := revivedLink_spec h link state
  have here : (h.revived p link state calls).heap p = some (revivedLink h link state) := put_heap _ _ _
  have elsewhere : ∀ q, q ≠ p → (h.revived p link state calls).heap q = h.heap q := by
    intro q other
    exact put_heap_ne h (revivedLink h link state) other
  have count : ∀ q, (h.revived p link state calls).respawns.count q =
      h.respawns.count q + if q = p then 1 else 0 := by
    intro q
    change (h.respawns ++ [p]).count q = _
    rw [List.count_append, List.count_singleton]
    by_cases here : q = p
    · simp [here]
    · simp [here, Ne.symm here]
  refine ⟨rfl, rfl, ?_, ?_, ?_, ?_, ?_⟩
  · intro q hq
    rcases List.mem_append.mp hq with old | new
    · exact Or.inl old
    · rw [List.mem_singleton.mp new, found]
      exact Or.inr rfl
  · intro q other
    have different : q ≠ p := fun same => other (same ▸ rfl)
    exact ⟨elsewhere q different, by rw [count, if_neg different]; rfl⟩
  · intro q gone
    have different : q ≠ p := by
      rintro rfl
      rw [found] at gone
      cases gone
    rw [elsewhere q different]
    exact gone
  · intro q link' found'
    by_cases different : q = p
    · subst different
      cases found.symm.trans found'
      exact ⟨_, here, same, fun _ => sound⟩
    · exact ⟨link', by rw [elsewhere q different, found'], .refl link', id⟩
  · intro q
    rw [count]
    refine ⟨Nat.le_add_right _ _, ?_⟩
    intro same
    refine elsewhere q ?_
    rintro rfl
    rw [if_pos rfl] at same
    omega

/-- Only a revival changes what the host keeps of the link. -/
theorem proxy_within (native : ShardOps ν ς) (p : Pointer) {R : Host ς → Host ς → Prop} (refl : ∀ h, R h h)
    (revived : ∀ h link state, h.heap p = some link →
      R h (h.revived p link state (respawn h.forceEntryFailure h.answers link).2.1)) :
    Within (proxyOps native) R (.proxy p) where
  acceptedSchemas h := by
    simp only [proxyOps]
    cases found : h.heap p with
    | none => exact (wp_onLink_none found).mpr (refl h)
    | some link => exact (wp_onLink found).mpr (refl h)
  snapshot h := by
    simp only [proxyOps, wp_bind, wp_get, andThen_ok, cached]
    split <;> exact refl h
  policy h := by
    simp only [proxyOps, wp_bind, wp_get, andThen_ok, cached]
    split <;> exact refl h
  revive state h := by
    simp only [proxyOps]
    cases found : h.heap p with
    | none =>
        unfold respawnAndRevive
        exact (wp_onLink_none found).mpr (refl h)
    | some link =>
        apply wp_mono (respawnAndRevive_spec found state)
        rintro r _ ⟨rfl, _⟩
        exact revived h link state found

-- the link that an input may come back to
def comesTo (sb : Switchboard (Shard ν)) (input : Sb.Input ν ς) : Option Pointer :=
  input.revives >>= proxyOf sb

theorem proxyOf_eq_some {sb : Switchboard (Shard ν)} {id : ShardId} {p : Pointer} :
    proxyOf sb id = some p ↔ ∃ rec, sb.find id = some rec ∧ rec.shard = .proxy p := by
  unfold proxyOf
  cases sb.find id with
  | none => simp
  | some rec => cases shard : rec.shard <;> simp [shard]

theorem hosted_revives (input : Sb.Input ν ς) : (hosted input).revives = input.revives := by
  cases input <;> rfl

/-- What each call of a Shard does to the host, a call of the bus does. -/
theorem hosted_within {native : ShardOps ν ς} {R : Option Pointer → Host ς → Host ς → Prop}
    (refl : ∀ target h, R target h h) (trans : ∀ target h mid h', R target h mid → R target mid h' → R target h h')
    (memory : ∀ target (h : Host ς) (memory : ς), R target h { h with memory })
    (proxy : ∀ p, Within (proxyOps native) (R (some p)) (.proxy p))
    {input : Sb.Input ν ς} {m m' : Machine (Shard ν) (Host ς)}
    (action : Machine.step (proxyOps native) (hosted input) m = some m') :
    R (comesTo m.world.sb input) m.world.env m'.world.env := by
  have asked : ∀ target {α : Type} (x : EStateM Exn ς α) (h : Host ς), wp (onMemory x) h fun _ h' => R target h h' := by
    intro target α x h
    simp only [wp, onMemory, EStateM.run]
    cases x h.memory <;> exact memory target h _
  have natives : ∀ target (shard : ν), Within (proxyOps native) (R target) (.native shard) := fun target shard =>
    ⟨asked target _, asked target _, asked target _, fun _ => asked target _⟩
  have revived : ∀ id, input.revives = some id → ∀ shard, (m.world.sb.find id).map ShardRecord.shard = some shard →
      Within (proxyOps native) (R (comesTo m.world.sb input)) shard := by
    intro id revives shard touched
    obtain ⟨rec, found, rfl⟩ := Option.map_eq_some_iff.mp touched
    cases shard : rec.shard with
    | native n => exact natives _ n
    | proxy p =>
        have known : comesTo m.world.sb input = some p := by
          rw [comesTo, revives]
          exact proxyOf_eq_some.mpr ⟨rec, found, shard⟩
        rw [known]
        exact proxy p
  refine step_within (refl _) (trans _) ?_ ?_ action
  · intro shard touched
    cases input with
    | registerShard incoming grant =>
        obtain ⟨n, _, rfl⟩ := Option.map_eq_some_iff.mp touched
        exact natives _ n
    | reload id bytes => exact revived id rfl shard touched
    | swapState id bytes => exact revived id rfl shard touched
    | _ => cases touched
  · intro change same
    cases input with
    | outside change' =>
        cases same
        exact memory _ _ _
    | _ => cases same

theorem hosted_tended {native : ShardOps ν ς} {input : Sb.Input ν ς} {m m' : Machine (Shard ν) (Host ς)}
    (action : Machine.step (proxyOps native) (hosted input) m = some m') :
    Tended (comesTo m.world.sb input) m.world.env m'.world.env :=
  @hosted_within _ _ _ Tended .refl (fun _ _ _ _ => .trans) .memory (fun p =>
    proxy_within native p (.refl _) fun _ _ state found => revived_tended found state _) _ _ _ action

end Zen.Isolation
