import Zen.Proof.Kernel.Opening
import Zen.Proof.Kernel.System
import Zen.Proof.Switchboard.Registration

/-!
# Refused libraries

`reconstruct` registers each schema as it decodes it, and `register_shard` publishes on the bus as it
goes, so a library that is refused later leaves behind whatever it has brought along that was new.
-/

namespace Zen.Kernel
open Lib Sb KernelM BusM
open Raw (Cell)

variable {ν ς : Type}

/-! ## Descriptors -/

/-- Up to the first descriptor that does not decode or conflicts, each describes a schema that is
registered already. -/
def Quiet (r : Registry) : List Raw.Value → Prop
  | [] => True
  | desc :: descs => ∀ s, decodeSchema desc r = .ok s →
      ∃ existing, r.lookup s.name s.version = some existing ∧ (existing.contentId = s.contentId → Quiet r descs)

/-- Each descriptor decodes, to a schema that is registered already. -/
def Described (r : Registry) : List Raw.Value → List Schema → Prop :=
  List.Forall₂ fun desc s => decodeSchema desc r = .ok s ∧
    ∃ existing, r.lookup s.name s.version = some existing ∧ existing.contentId = s.contentId

theorem Described.unique {r : Registry} {descs : List Raw.Value} {schemas schemas' : List Schema}
    (h : Described r descs schemas) (h' : Described r descs schemas') : schemas' = schemas := by
  unfold Described at h h'
  induction h generalizing schemas' with
  | nil =>
      cases h'
      rfl
  | cons here _ ih =>
      cases h' with
      | cons here' rest' =>
          have same := here.1.symm.trans here'.1
          cases same
          rw [ih rest']

theorem described_one {r : Registry} {desc : Raw.Value} {schemas : List Schema} :
    Described r [desc] schemas ↔ ∃ s existing, decodeSchema desc r = .ok s ∧
      r.lookup s.name s.version = some existing ∧ existing.contentId = s.contentId ∧ schemas = [s] := by
  constructor
  · intro h
    cases h with
    | cons here rest =>
        obtain ⟨decoded, existing, found, same⟩ := here
        cases rest
        exact ⟨_, existing, decoded, found, same, rfl⟩
  · rintro ⟨s, existing, decoded, found, same, rfl⟩
    exact .cons ⟨decoded, existing, found, same⟩ .nil

theorem described_append {r : Registry} {descs more : List Raw.Value} {schemas : List Schema} :
    Described r (descs ++ more) schemas ↔
      ∃ front back, Described r descs front ∧ Described r more back ∧ schemas = front ++ back := by
  constructor
  · intro h
    induction descs generalizing schemas with
    | nil => exact ⟨[], schemas, .nil, h, rfl⟩
    | cons desc descs ih =>
        cases h with
        | cons here rest =>
            obtain ⟨front, back, first, second, rfl⟩ := ih rest
            exact ⟨_ :: front, back, .cons here first, second, rfl⟩
  · rintro ⟨front, back, first, second, rfl⟩
    exact List.rel_append first second

theorem quiet_append {r : Registry} {descs descs' : List Raw.Value} :
    Quiet r (descs ++ descs') ↔ Quiet r descs ∧ ∀ schemas, Described r descs schemas → Quiet r descs' := by
  induction descs with
  | nil => simp [Quiet, Described]
  | cons desc descs ih =>
      rw [List.cons_append, Quiet, Quiet]
      constructor
      · intro quiet
        refine ⟨fun s decoded => ?_, fun schemas described => ?_⟩
        · obtain ⟨existing, found, rest⟩ := quiet s decoded
          exact ⟨existing, found, fun same => (ih.mp (rest same)).1⟩
        · cases described with
          | @cons _ s _ schemas here others =>
              obtain ⟨decoded, existing, found, same⟩ := here
              obtain ⟨existing', found', rest⟩ := quiet s decoded
              rw [found] at found'
              cases found'
              exact (ih.mp (rest same)).2 schemas others
      · rintro ⟨first, second⟩ s decoded
        obtain ⟨existing, found, rest⟩ := first s decoded
        refine ⟨existing, found, fun same => ih.mpr ⟨rest same, fun schemas others => ?_⟩⟩
        exact second (s :: schemas) (.cons ⟨decoded, existing, found, same⟩ others)

/-- What registering the schemas of some descriptors has come to. -/
inductive Registered (r : Registry) (descs : List Raw.Value) (result : Except Exn (List Schema))
    (r' : Registry) : Prop where
  | quiet (known : Quiet r descs) (same : r' = r) (complete : ∀ schemas, result = .ok schemas ↔ Described r descs schemas)
  | loud (unknown : ¬ Quiet r descs) (gained : r.Gained r')

def KeepsKnown (r r' : Registry) : Prop :=
  ∀ name version, (r.lookup name version).isSome → (r'.lookup name version).isSome

theorem reconstructSchema_registered (desc : Raw.Value) (r : Registry) :
    wp (reconstructSchema desc) r fun result r' =>
      Registered r [desc] (result.map fun s => [s]) r' ∧ KeepsKnown r r' := by
  simp only [wp, reconstructSchema, EStateM.run]
  cases decoded : decodeSchema desc r with
  | error e =>
      refine ⟨.quiet ?_ rfl ?_, fun _ _ known => known⟩
      · intro s decoded'
        rw [decoded] at decoded'
        cases decoded'
      · intro schemas
        simp [Except.map, described_one, decoded]
  | ok s =>
      simp only
      cases found : r.lookup s.name s.version with
      | none =>
          obtain ⟨r', registered, there⟩ := Registry.registerSchema_new found
          rw [registered]
          refine ⟨.loud ?_ ⟨s.name, s.version, found, there⟩, fun _ _ => Registry.registerSchema_keeps registered⟩
          intro quiet
          obtain ⟨existing, found', _⟩ := quiet s decoded
          rw [found] at found'
          cases found'
      | some existing =>
          have registered := Registry.registerSchema_known found
          have known : Quiet r [desc] := by
            intro s' decoded'
            rw [decoded] at decoded'
            cases decoded'
            exact ⟨existing, found, fun _ => trivial⟩
          by_cases same : existing.contentId = s.contentId
          · rw [registered, if_pos same]
            refine ⟨.quiet known rfl fun schemas => ?_, fun _ _ known => known⟩
            simp [Except.map, described_one, decoded, found, same, eq_comm]
          · rw [registered, if_neg same]
            refine ⟨.quiet known rfl fun schemas => ?_, fun _ _ known => known⟩
            simp [Except.map, described_one, decoded, found, same]

theorem Registered.fails {r r' : Registry} {descs : List Raw.Value} {e : Exn} (h : Registered r descs (.error e) r')
    (more : List Raw.Value) : Registered r (descs ++ more) (.error e) r' := by
  cases h with
  | quiet known same complete =>
      have incomplete : ∀ schemas, ¬ Described r descs schemas := by
        intro schemas described
        cases (complete schemas).mpr described
      refine .quiet (quiet_append.mpr ⟨known, fun schemas described => absurd described (incomplete schemas)⟩) same ?_
      intro schemas
      refine ⟨nofun, fun described => ?_⟩
      obtain ⟨front, _, first, _⟩ := described_append.mp described
      exact absurd first (incomplete front)
  | loud unknown gained => exact .loud (fun quiet => unknown (quiet_append.mp quiet).1) gained

theorem Registered.follow {r mid r' : Registry} {descs more : List Raw.Value} {schemas : List Schema}
    {result : Except Exn (List Schema)} (h : Registered r descs (.ok schemas) mid) (h' : Registered mid more result r')
    (keeps : KeepsKnown mid r') : Registered r (descs ++ more) (result.map (schemas ++ ·)) r' := by
  cases h with
  | loud unknown gained => exact .loud (fun quiet => unknown (quiet_append.mp quiet).1) (gained.later keeps)
  | quiet known same complete =>
      subst same
      have described := (complete schemas).mp rfl
      have only : ∀ front, Described mid descs front → front = schemas := fun front => described.unique
      cases h' with
      | loud unknown gained => exact .loud (fun quiet => unknown ((quiet_append.mp quiet).2 schemas described)) gained
      | quiet known' same' complete' =>
          refine .quiet (quiet_append.mpr ⟨known, fun _ _ => known'⟩) same' fun all => ?_
          rw [described_append]
          cases result with
          | error e =>
              refine ⟨nofun, ?_⟩
              rintro ⟨_, back, _, second, _⟩
              cases (complete' back).mpr second
          | ok others =>
              simp only [Except.map, Except.ok.injEq]
              constructor
              · rintro rfl
                exact ⟨schemas, others, described, (complete' others).mp rfl, rfl⟩
              · rintro ⟨front, back, first, second, rfl⟩
                have same : others = back := Except.ok.inj ((complete' back).mpr second)
                rw [only front first, same]

theorem reconstructAll_registered (cells : List Cell) (r : Registry) :
    wp (reconstructAll cells) r fun result r' =>
      Registered r (cells.map fun c => Cell.asMessage (some c)) result r' ∧ KeepsKnown r r' := by
  induction cells generalizing r with
  | nil =>
      refine ⟨.quiet trivial rfl fun schemas => ?_, fun _ _ known => known⟩
      simp [Described, eq_comm]
  | cons c cells ih =>
      rw [reconstructAll, wp_bind]
      apply wp_mono (reconstructSchema_registered _ r)
      rintro (e | s) mid ⟨here, keeps⟩
      · exact ⟨here.fails _, keeps⟩
      · rw [andThen_ok, wp_bind]
        apply wp_mono (ih mid)
        rintro (e | rest) r' ⟨others, keeps'⟩
        · exact ⟨here.follow others keeps', fun name version known => keeps' name version (keeps name version known)⟩
        · exact ⟨here.follow others keeps', fun name version known => keeps' name version (keeps name version known)⟩

/-! ## Manifests -/

def descriptors (manifest : Value) : List Raw.Value :=
  (Cell.asList (manifest.get "accepted")).map (fun c => Cell.asMessage (some c)) ++
    [Cell.asMessage (manifest.get "state")]

def Manifest.schemas (mf : Manifest) : List Schema := mf.accepted ++ [mf.state]

theorem reconstructListed_registered (manifest : Value) (r : Registry) :
    wp (do
      let accepted ← reconstructAll (Cell.asList (manifest.get "accepted"))
      let state ← reconstructSchema (Cell.asMessage (manifest.get "state"))
      return (⟨accepted, state⟩ : Manifest)) r fun result r' =>
        Registered r (descriptors manifest) (result.map Manifest.schemas) r' := by
  rw [wp_bind]
  apply wp_mono (reconstructAll_registered _ r)
  rintro (e | accepted) mid ⟨first, _⟩
  · exact first.fails _
  · rw [andThen_ok, wp_bind]
    apply wp_mono (reconstructSchema_registered _ mid)
    rintro (e | state) r' ⟨last, keeps⟩
    · exact first.follow last keeps
    · exact first.follow last keeps

/-- The manifest brings nothing new, as far as it is read. -/
def QuietManifest (r : Registry) (bytes : ByteString) : Prop :=
  ∀ v, admitUnverified (parse bytes) manifestSchema .firstError = .accept v → Quiet r (descriptors v)

/-- The manifest is read to its end and brings nothing new. -/
def DescribesAs (r : Registry) (bytes : ByteString) (mf : Manifest) : Prop :=
  ∃ v, admitUnverified (parse bytes) manifestSchema .firstError = .accept v ∧ Described r (descriptors v) mf.schemas

inductive Rebuilt (r : Registry) (bytes : ByteString) (result : Except Exn Manifest) (r' : Registry) : Prop where
  | quiet (known : QuietManifest r bytes) (same : r' = r) (complete : ∀ mf, result = .ok mf ↔ DescribesAs r bytes mf)
  | loud (unknown : ¬ QuietManifest r bytes) (gained : r.Gained r')

theorem schemas_inj {mf mf' : Manifest} (h : mf.schemas = mf'.schemas) : mf = mf' := by
  obtain ⟨accepted, state⟩ := mf
  obtain ⟨accepted', state'⟩ := mf'
  obtain ⟨front, last⟩ := List.append_inj' h rfl
  cases front
  cases last
  rfl

theorem Registered.rebuilt {r r' : Registry} {bytes : ByteString} {v : Value} {result : Except Exn Manifest}
    (verdict : admitUnverified (parse bytes) manifestSchema .firstError = .accept v)
    (h : Registered r (descriptors v) (result.map Manifest.schemas) r') : Rebuilt r bytes result r' := by
  have only : ∀ w, admitUnverified (parse bytes) manifestSchema .firstError = .accept w ↔ w = v := by
    intro w
    rw [verdict, Admission.accept.injEq, eq_comm]
  cases h with
  | loud unknown gained => exact .loud (fun quiet => unknown (quiet v verdict)) gained
  | quiet known same complete =>
      refine .quiet ?_ same fun mf => ?_
      · intro w accepted
        obtain rfl := (only w).mp accepted
        exact known
      · simp only [DescribesAs, only, exists_eq_left, ← complete]
        cases result with
        | error e => simp [Except.map]
        | ok mf' =>
            simp only [Except.map, Except.ok.injEq]
            exact ⟨fun same => by rw [same], schemas_inj⟩

theorem rebuilt_of_reject {r : Registry} {bytes : ByteString} {errors : List Error}
    (verdict : admitUnverified (parse bytes) manifestSchema .firstError = .reject errors) (e : Exn) :
    Rebuilt r bytes (.error e) r := by
  refine .quiet ?_ rfl ?_
  · intro v accepted
    rw [verdict] at accepted
    cases accepted
  · intro mf
    refine ⟨nofun, ?_⟩
    rintro ⟨v, accepted, _⟩
    rw [verdict] at accepted
    cases accepted

theorem reconstructManifest_rebuilt (bytes : ByteString) (r : Registry) :
    wp (reconstructManifest bytes) r (Rebuilt r bytes) := by
  unfold reconstructManifest
  cases verdict : admitUnverified (parse bytes) manifestSchema .firstError with
  | reject errors => exact rebuilt_of_reject verdict _
  | accept v =>
      apply wp_mono (reconstructListed_registered v r)
      intro result r' registered
      exact registered.rebuilt verdict

/-! ## On the bus -/

/-- What `register_shard` would publish for a new library is published already. -/
def BusKnows (seam : Seam ς) (bus : Registry) (abi inst : Pointer) (memory : ς) (mf : Manifest) : Prop :=
  bus.Knows (mf.accepted.map some) ∧
    (bus.Agrees (mf.accepted.map some) → ∀ bytes memory', seam.snapshot abi inst memory = ((zenOk, bytes), memory') →
      (admitUnverified (parse bytes) mf.state .firstError).ok = true →
        (bus.lookup mf.state.name mf.state.version).isSome)

theorem snapshot_ok {seam : Seam ς} {adapter : HostAdapter} {w w' : Foreign ς} {v : Value}
    (h : (adapter.snapshot seam).run w = .ok v w') : ∃ bytes memory,
      seam.snapshot adapter.abi adapter.inst w.memory = ((zenOk, bytes), memory) ∧
        admitUnverified (parse bytes) adapter.stateSchema .firstError = .accept v := by
  have spec : wp (adapter.snapshot seam) w fun r _ => ∀ v, r = .ok v → ∃ bytes memory,
      seam.snapshot adapter.abi adapter.inst w.memory = ((zenOk, bytes), memory) ∧
        admitUnverified (parse bytes) adapter.stateSchema .firstError = .accept v := by
    simp only [HostAdapter.snapshot, wp_bind, SeamM.snapshot, wp_perform, andThen_ok]
    generalize taken : seam.snapshot adapter.abi adapter.inst w.memory = answer
    obtain ⟨⟨status, bytes⟩, memory⟩ := answer
    split
    · exact nofun
    · rename_i good
      obtain rfl := Decidable.not_not.mp good
      rw [wp_admitBytes]
      cases verdict : admitUnverified (parse bytes) adapter.stateSchema .firstError with
      | reject errors => exact nofun
      | accept v =>
          rintro _ ⟨⟩
          exact ⟨bytes, memory, rfl, verdict⟩
  exact wp_ok spec h v rfl

theorem snapshot_of {seam : Seam ς} {adapter : HostAdapter} {w : Foreign ς} {bytes : ByteString} {memory : ς} {v : Value}
    (taken : seam.snapshot adapter.abi adapter.inst w.memory = ((zenOk, bytes), memory))
    (accepted : admitUnverified (parse bytes) adapter.stateSchema .firstError = .accept v) :
    ∃ w', (adapter.snapshot seam).run w = .ok v w' := by
  have spec : wp (adapter.snapshot seam) w fun r _ => ∃ v', r = .ok v' ∧ v' = v := by
    simp only [HostAdapter.snapshot, wp_bind, SeamM.snapshot, wp_perform, andThen_ok, taken, ne_eq,
      not_true_eq_false, ↓reduceIte, wp_admitBytes, accepted]
    exact ⟨v, rfl, rfl⟩
  obtain ⟨_, w', run, rfl⟩ := wp_succeeds spec
  exact ⟨w', run⟩

theorem foreseen_library {seam : Seam ς} {native : ShardOps ν ς} {w : World (Shard ν) (Foreign ς)}
    {abi inst : Pointer} {mf : Manifest} :
    Foreseen (hostOps seam native) w (some (.library ⟨abi, inst, mf.accepted, mf.state⟩)) ↔
      BusKnows seam w.sb.registry abi inst w.env.memory mf := by
  constructor
  · intro foreseen
    obtain ⟨known, state⟩ := foreseen _ rfl _ _ rfl
    refine ⟨known, fun agrees bytes memory' taken admitted => ?_⟩
    obtain ⟨v, accepted⟩ := Proof.ok_accepts admitted
    obtain ⟨w', run⟩ := @snapshot_of ς seam ⟨abi, inst, mf.accepted, mf.state⟩ w.env _ _ _ taken accepted
    have there := state agrees v w' run
    rwa [(Proof.accepted_written accepted).1] at there
  · rintro ⟨known, state⟩ _ ⟨⟩ declared env ⟨⟩
    refine ⟨known, fun agrees snap env' run => ?_⟩
    obtain ⟨bytes, memory, taken, accepted⟩ := snapshot_ok run
    have there := state agrees bytes memory taken (by rw [accepted]; rfl)
    rwa [(Proof.accepted_written accepted).1]

/-! ## Load -/

structure Traceless (k k' : Kernel ν ς) : Prop where
  registry : k'.registry = k.registry
  published : k'.world.sb.registry = k.world.sb.registry
  libs : k'.libs = k.libs
  shards : k'.world.sb.shards = k.world.sb.shards

/-- What a new instance brings along with its manifest, for the kernel and for the bus, is there already. -/
def DescriptionForeseen (seam : Seam ς) (k : Kernel ν ς) (abi inst : Pointer) (memory : ς) : Prop :=
  ∀ bytes memory', seam.describe abi inst memory = ((zenOk, bytes), memory') →
    QuietManifest k.registry bytes ∧
      ∀ mf, DescribesAs k.registry bytes mf → BusKnows seam k.world.sb.registry abi inst memory' mf

/-- Whatever `load` would register or publish on its way is there already. -/
def LoadForeseen (seam : Seam ς) (k : Kernel ν ς) (name path : ByteString) : Prop :=
  find k name = none → ∀ o : Opening ς, o.From seam path k.world.env.memory →
    DescriptionForeseen seam k o.abi o.inst o.afterCreate

theorem traceless_after {k k' : Kernel ν ς} {memory : ς} {calls : List Call} :
    Traceless (k.after memory calls) k' ↔ Traceless k k' :=
  ⟨fun h => ⟨h.registry, h.published, h.libs, h.shards⟩, fun h => ⟨h.registry, h.published, h.libs, h.shards⟩⟩

theorem gained_ne {r r' : Registry} (gained : r.Gained r') : r' ≠ r := by
  rintro rfl
  obtain ⟨name, version, new, there⟩ := gained
  rw [new] at there
  cases there

theorem settle_refused (seam : Seam ς) (native : ShardOps ν ς) (name : ByteString) (lib abi inst : Pointer)
    (k : Kernel ν ς) : wp (settle seam native name lib abi inst) k fun r k' => ∀ result, r = .ok result →
      result.ok = false → (Traceless k k' ↔ DescriptionForeseen seam k abi inst k.world.env.memory) := by
  unfold settle
  simp only [wp_bind, wp_attempt, mount, reconstruct, wp_onSeam, SeamM.describe, wp_perform, andThen_ok]
  generalize described : seam.describe abi inst k.world.env.memory = answer
  obtain ⟨⟨status, bytes⟩, memory⟩ := answer
  have settled : DescriptionForeseen seam k abi inst k.world.env.memory ↔ (status = zenOk →
      QuietManifest k.registry bytes ∧
        ∀ mf, DescribesAs k.registry bytes mf → BusKnows seam k.world.sb.registry abi inst memory mf) := by
    constructor
    · rintro foreseen rfl
      exact foreseen bytes memory described
    · intro known bytes' memory' described'
      cases described.symm.trans described'
      exact known rfl
  split
  · rename_i failed
    simp only [wp_throw, andThen_error, andThen_ok, discard, wp_bind, wp_onSeam, SeamM.destroy, SeamM.libClose,
      wp_perform, wp_pure]
    rintro _ ⟨⟩ _
    rw [settled]
    exact ⟨fun _ good => absurd good failed, fun _ => ⟨rfl, rfl, rfl, rfl⟩⟩
  · rename_i good
    obtain rfl := Decidable.not_not.mp good
    simp only [wp_onRegistry]
    apply wp_mono (reconstructManifest_rebuilt bytes k.registry)
    intro rebuilt registry h
    cases rebuilt with
    | error e =>
        simp only [andThen_error, andThen_ok, discard, wp_bind, wp_onSeam, SeamM.destroy, SeamM.libClose,
          wp_perform, wp_pure]
        rintro _ ⟨⟩ _
        rw [settled]
        cases h with
        | quiet known same complete =>
            refine ⟨fun _ _ => ⟨known, fun mf describes => ?_⟩, fun _ => ⟨same, rfl, rfl, rfl⟩⟩
            cases (complete mf).mpr describes
        | loud unknown gained =>
            exact ⟨fun traceless => absurd traceless.registry (gained_ne gained), fun known => absurd (known rfl).1 unknown⟩
    | ok mf =>
        simp only [andThen_ok, wp_bind, wp_onBus]
        apply wp_mono (registerShard_refused (hostOps seam native) _ allowAny _)
        rintro (e | id) world refused
        · simp only [andThen_error, andThen_ok, discard, wp_bind, wp_onSeam, SeamM.destroy, SeamM.libClose,
            wp_perform, wp_pure]
          rintro _ ⟨⟩ _
          rw [settled]
          cases h with
          | loud unknown gained =>
              exact ⟨fun traceless => absurd traceless.registry (gained_ne gained),
                fun known => absurd (known rfl).1 unknown⟩
          | quiet known same complete =>
              have only : ∀ mf', DescribesAs k.registry bytes mf' → mf' = mf := by
                intro mf' describes
                cases (complete mf').mpr describes
                rfl
              cases refused e rfl with
              | clean foreseen bus =>
                  refine ⟨fun _ _ => ⟨known, fun mf' describes => ?_⟩, fun _ => ?_⟩
                  · obtain rfl := only mf' describes
                    exact foreseen_library.mp foreseen
                  · exact ⟨same, by rw [bus], rfl, by rw [bus]⟩
              | leaves unforeseen gained =>
                  refine ⟨fun traceless => absurd traceless.published (gained_ne gained), fun known' => ?_⟩
                  have describes := (complete mf).mp rfl
                  exact absurd (foreseen_library.mpr ((known' rfl).2 mf describes)) unforeseen
        · simp only [andThen_ok]
          rintro _ ⟨⟩ refused
          cases refused

theorem load_refused (seam : Seam ς) (native : ShardOps ν ς) (name path : ByteString) (k : Kernel ν ς) :
    wp (load seam native name path) k fun r k' => ∀ result, r = .ok result → result.ok = false →
      (Traceless k k' ↔ LoadForeseen seam k name path) := by
  rw [load_eq, wp_bind, wp_get, andThen_ok]
  cases loaded : find k name with
  | some rec =>
      rintro _ ⟨⟩ _
      simp [LoadForeseen, loaded, show Traceless k k from ⟨rfl, rfl, rfl, rfl⟩]
  | none =>
      simp only [Option.isSome_none, Bool.false_eq_true, ↓reduceIte]
      refine wp_opening ?_ ?_
      · rintro unopened error memory calls _ _ ⟨⟩ _
        refine ⟨fun _ _ o arrives => absurd arrives (unopened o), fun _ => ⟨rfl, rfl, rfl, rfl⟩⟩
      · intro o arrives
        apply wp_mono (settle_refused seam native name o.lib o.abi o.inst _)
        intro r k' settled result answered refused
        have same : LoadForeseen seam k name path ↔ DescriptionForeseen seam k o.abi o.inst o.afterCreate := by
          constructor
          · intro foreseen
            exact foreseen loaded o arrives
          · intro known _ o' arrives'
            obtain rfl := arrives.unique arrives'
            exact known
        rw [same, ← traceless_after]
        exact settled result answered refused

/-! ## Reload -/

def KeepsRegistry {α : Type} (x : KernelM ν ς α) : Prop := ∀ k, wp x k fun _ k' => k'.registry = k.registry

theorem KeepsRegistry.bind {α β : Type} {x : KernelM ν ς α} {f : α → KernelM ν ς β} (hx : KeepsRegistry x)
    (hf : ∀ a, KeepsRegistry (f a)) : KeepsRegistry (x >>= f) := by
  intro k
  rw [wp_bind]
  apply wp_mono (hx k)
  rintro (e | a) k' same
  · exact same
  · rw [andThen_ok]
    apply wp_mono (hf a k')
    intro _ k'' same'
    exact same'.trans same

theorem keepsRegistry_onBus {α : Type} (x : BusM (Shard ν) (Foreign ς) α) : KeepsRegistry (onBus x) := by
  intro k
  rw [wp_onBus]
  exact wp_intro (fun _ _ _ => rfl) fun _ _ _ => rfl

theorem keepsRegistry_onSeam {α : Type} (x : SeamM ς α) : KeepsRegistry (onSeam x : KernelM ν ς α) :=
  keepsRegistry_onBus _

theorem commit_keepsRegistry (seam : Seam ς) (native : ShardOps ν ς) (rec : Loaded) (adapter : HostAdapter)
    (snapshot : ByteString) (newLib newAbi newInst : Pointer) (described : List Schema) :
    KeepsRegistry (commit seam native rec adapter snapshot newLib newAbi newInst described) := by
  refine .bind (.bind (keepsRegistry_onSeam _) fun _ => keepsRegistry_onBus _) fun _ => ?_
  refine .bind (fun k => rfl) fun _ => ?_
  refine .bind (keepsRegistry_onBus _) fun ro => ?_
  refine .bind (keepsRegistry_onSeam _) fun _ => ?_
  intro k
  split <;> rfl

/-- What a new library brings along for the kernel is there already. -/
def ManifestForeseen (seam : Seam ς) (k : Kernel ν ς) (abi inst : Pointer) (memory : ς) : Prop :=
  ∀ bytes memory', seam.describe abi inst memory = ((zenOk, bytes), memory') → QuietManifest k.registry bytes

def ReloadForeseen (seam : Seam ς) (native : ShardOps ν ς) (k : Kernel ν ς) (name newPath : ByteString) : Prop :=
  ∀ rec, find k name = some rec →
    ∀ snapshot world, (snapshotBytes (hostOps seam native) rec.id).run k.world = .ok snapshot world →
      ∀ o : Opening ς, o.From seam newPath world.env.memory → ManifestForeseen seam k o.abi o.inst o.afterCreate

theorem replace_registry (seam : Seam ς) (native : ShardOps ν ς) (rec : Loaded) (snapshot : ByteString)
    (newLib newAbi newInst : Pointer) (k : Kernel ν ς) :
    wp (replace seam native rec snapshot newLib newAbi newInst) k fun _ k' =>
      (k'.registry = k.registry ↔ ManifestForeseen seam k newAbi newInst k.world.env.memory) := by
  unfold replace
  simp only [wp_bind, wp_attempt, reconstruct, wp_onSeam, SeamM.describe, wp_perform, andThen_ok]
  generalize described : seam.describe newAbi newInst k.world.env.memory = answer
  obtain ⟨⟨status, bytes⟩, memory⟩ := answer
  split
  · rename_i failed
    simp only [wp_throw, andThen_ok, discard, wp_bind, wp_onSeam, SeamM.destroy, SeamM.libClose, wp_perform, wp_pure]
    refine ⟨fun _ bytes' memory' described' => ?_, fun _ => trivial⟩
    cases described.symm.trans described'
    exact absurd rfl failed
  · rename_i good
    obtain rfl := Decidable.not_not.mp good
    simp only [wp_onRegistry]
    apply wp_mono (reconstructManifest_rebuilt bytes k.registry)
    intro rebuilt registry h
    have answer : registry = k.registry ↔ ManifestForeseen seam k newAbi newInst k.world.env.memory := by
      cases h with
      | quiet known same _ =>
          refine ⟨fun _ bytes' memory' described' => ?_, fun _ => same⟩
          cases described.symm.trans described'
          exact known
      | loud unknown gained =>
          exact ⟨fun same => absurd same (gained_ne gained), fun foreseen => absurd (foreseen bytes memory described) unknown⟩
    cases rebuilt with
    | error e =>
        simp only [andThen_ok, discard, wp_bind, wp_onSeam, SeamM.destroy, SeamM.libClose, wp_perform, wp_pure]
        exact answer
    | ok mf =>
        simp only [andThen_ok, wp_bind, wp_get]
        split
        · exact answer
        · rename_i adapter _
          split
          · simp only [discard, wp_bind, wp_onSeam, SeamM.destroy, SeamM.libClose, wp_perform, andThen_ok, wp_pure]
            exact answer
          · apply wp_mono (commit_keepsRegistry seam native rec adapter snapshot newLib newAbi newInst mf.accepted _)
            intro _ k' same
            rw [same]
            exact answer

theorem reloadFrom_registry (seam : Seam ς) (native : ShardOps ν ς) (name newPath : ByteString) (k : Kernel ν ς) :
    wp (reloadFrom seam native name newPath) k fun _ k' =>
      (k'.registry = k.registry ↔ ReloadForeseen seam native k name newPath) := by
  rw [reloadFrom_eq, wp_bind, wp_get, andThen_ok]
  cases loaded : find k name with
  | none => simp [ReloadForeseen, loaded]
  | some rec =>
      simp only [wp_bind, wp_attempt, wp_onBus]
      refine wp_intro ?_ ?_
      · intro snapshot world taken
        simp only [andThen_ok]
        refine wp_opening ?_ ?_
        · intro unopened _ _ _ _
          refine ⟨fun _ rec' loaded' snapshot' world' taken' o arrives => ?_, fun _ => rfl⟩
          cases loaded.symm.trans loaded'
          cases taken.symm.trans taken'
          exact absurd arrives (unopened o)
        · intro o arrives
          have settled : ReloadForeseen seam native k name newPath ↔
              ManifestForeseen seam k o.abi o.inst o.afterCreate := by
            constructor
            · intro foreseen
              exact foreseen rec loaded snapshot world taken o arrives
            · intro known rec' loaded' snapshot' world' taken' o' arrives'
              cases loaded.symm.trans loaded'
              cases taken.symm.trans taken'
              obtain rfl := arrives.unique arrives'
              exact known
          apply wp_mono (replace_registry seam native rec snapshot o.lib o.abi o.inst _)
          intro _ k' same
          rw [settled]
          exact same
      · intro e world failed
        simp only [andThen_ok, wp_pure]
        refine ⟨fun _ rec' loaded' snapshot world' taken => ?_, fun _ => trivial⟩
        cases loaded.symm.trans loaded'
        cases failed.symm.trans taken

/-! ## Refusals -/

theorem refused_library_leaves_no_trace {seam : Seam ς} {native : ShardOps ν ς} {memory : ς} {inputs : List (Input ν ς)}
    {s : System ν ς} (reached : Reaches seam native (System.start memory) inputs s) (name path : ByteString) :
    (∀ result k', (load seam native name path).run s.kernel = .ok result k' → result.ok = false →
      (Traceless s.kernel k' ↔ LoadForeseen seam s.kernel name path)) ∧
    (∀ result k', (reloadFrom seam native name path).run s.kernel = .ok result k' → result.reloaded = false →
      (Traceless s.kernel k' ↔ ReloadForeseen seam native s.kernel name path)) := by
  constructor
  · intro result k' run refused
    exact wp_ok (load_refused seam native name path s.kernel) run result rfl refused
  · intro result k' run refused
    have registry := wp_ok (reloadFrom_registry seam native name path s.kernel) run
    cases wp_ok (reloadFrom_spec seam native (kernel_ok reached).adapters name path) run with
    | committed st rec state _ _ _ _ committed =>
        have reloaded := committed.ended.2.1
        rw [refused] at reloaded
        cases reloaded
    | refused h =>
        obtain ⟨_, _, _, kept⟩ := h
        rw [← registry]
        exact ⟨Traceless.registry, fun same => ⟨same, by rw [kept.bus], kept.libs, by rw [kept.bus]⟩⟩

theorem refused_library_leaves_no_trace_missing : ∃ s result k',
    Reaches nestingSeam pingOps (System.start ()) [.load (ascii "a") (ascii "A")] s ∧
    (load nestingSeam pingOps (ascii "b") (ascii "missing")).run s.kernel = .ok result k' ∧ result.ok = false ∧
    Traceless s.kernel k' := by
  have evaluated : ((exec (System.step nestingSeam pingOps) [.load (ascii "a") (ascii "A")] (System.start ())).bind
      fun s => (answer ((load nestingSeam pingOps (ascii "b") (ascii "missing")).run s.kernel)).map LoadResult.ok) =
        some false := by
    decide +kernel
  obtain ⟨s, reached, evaluated⟩ := Option.bind_eq_some_iff.mp evaluated
  obtain ⟨result, answered, refused⟩ := Option.map_eq_some_iff.mp evaluated
  obtain ⟨k', run⟩ := answer_eq_some answered
  have reaches : Reaches nestingSeam pingOps (System.start ()) [.load (ascii "a") (ascii "A")] s := Run.of_exec reached
  refine ⟨s, result, k', reaches, run, refused, ?_⟩
  refine ((refused_library_leaves_no_trace reaches _ _).1 result k' run refused).mpr ?_
  intro _ o arrives
  cases arrives.opened

-- library B accepts the first `Inner` and cannot take a snapshot; C accepts the other one
def poorSeam : Seam Unit :=
  { toySeam (fun abi => if abi = 66 then [Inner] else [OtherInner]) (fun _ => zenOk) with
    snapshot := fun abi _ _ => ((if abi = 66 then -1 else zenOk, bytesOf (pingValue 7)), ()) }

theorem refused_library_blocks_a_good_one : ∃ result k',
    (load poorSeam pingOps (ascii "b") (ascii "B")).run (System.start () : System Unit Unit).kernel = .ok result k' ∧
    result.ok = false ∧ ¬ Traceless (System.start () : System Unit Unit).kernel k' ∧
    (answer ((load poorSeam pingOps (ascii "c") (ascii "C")).run k')).map LoadResult.error =
      some (ascii "load refused: " ++ conflictWhat (ascii "Inner") 1) ∧
    (answer ((load poorSeam pingOps (ascii "c") (ascii "C")).run (System.start () : System Unit Unit).kernel)).map
      LoadResult.ok = some true := by
  have fresh : (answer ((load poorSeam pingOps (ascii "c") (ascii "C")).run
      (System.start () : System Unit Unit).kernel)).map LoadResult.ok = some true := by
    decide +kernel
  have evaluated : (match (load poorSeam pingOps (ascii "b") (ascii "B")).run
        (System.start () : System Unit Unit).kernel with
      | .ok result k' => decide (result.ok = false ∧ (k'.registry.lookup (ascii "Inner") 1).isSome = true ∧
          (answer ((load poorSeam pingOps (ascii "c") (ascii "C")).run k')).map LoadResult.error =
            some (ascii "load refused: " ++ conflictWhat (ascii "Inner") 1))
      | .error _ _ => false) = true := by
    decide +kernel
  cases run : (load poorSeam pingOps (ascii "b") (ascii "B")).run (System.start () : System Unit Unit).kernel with
  | error e k' =>
      rw [run] at evaluated
      cases evaluated
  | ok result k' =>
      rw [run] at evaluated
      obtain ⟨refused, there, conflict⟩ := of_decide_eq_true evaluated
      refine ⟨result, k', rfl, refused, ?_, conflict, fresh⟩
      intro traceless
      rw [traceless.registry] at there
      cases there

end Zen.Kernel
