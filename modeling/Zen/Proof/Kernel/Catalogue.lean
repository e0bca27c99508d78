import Zen.Proof.Kernel.Opening
import Zen.Proof.Kernel.Portable
import Zen.Proof.Kernel.RoundTrip

/-!
# Catalogues

Classes whose schemas do not get in each other's way: whatever has been loaded before, the kernel opens
the library of a class and rebuilds from its manifest exactly what the class declares.
-/

namespace Zen.Kernel
open Lib Sb KernelM

variable {τ ς ν α : Type} {fleet : Fleet τ} {pool : List Schema}

/-- `pool` has one schema for each name and version. A class comes with the schemas that its own refer to,
and what it accepts goes with the schema of its state. -/
structure Fleet.Catalogue (fleet : Fleet τ) (pool : List Schema) : Prop where
  listed : ∀ abi, ∀ s ∈ fleet.doors abi ++ [fleet.state abi], s ∈ pool
  unique : ∀ s ∈ pool, ∀ s' ∈ pool, s.name = s'.name → s.version = s'.version → s = s'
  distinct : ∀ abi, Raw.NoCollision (references (fleet.doors abi ++ [fleet.state abi])) (pool.map Schema.raw)
  resolves : ∀ abi, Resolves {} [] (fleet.doors abi ++ [fleet.state abi])
  short : ∀ abi, (fleet.doors abi).length ≤ kMaxListCount
  describable : ∀ abi, ∀ s ∈ fleet.doors abi ++ [fleet.state abi], s.raw.describable
  steady : ∀ abi abi', fleet.state abi = fleet.state abi' → fleet.doors abi = fleet.doors abi'

-- all that the registry knows is from the pool
def Pooled (pool : List Schema) (r : Registry) : Prop := ∀ s ∈ r.published, s ∈ pool

theorem Pooled.lookup {r : Registry} (pooled : Pooled pool r) {name : ByteString} {version : UInt32} {s : Schema}
    (found : r.lookup name version = some s) : s ∈ pool ∧ s.name = name ∧ s.version = version :=
  ⟨pooled s (List.mem_of_find?_eq_some found), Registry.lookup_some found⟩

theorem find_named {listed : List Schema} {name : ByteString} {version : UInt32} {s : Schema}
    (found : listed.find? (named name version) = some s) : s ∈ listed ∧ s.name = name ∧ s.version = version := by
  have here := List.find?_some found
  exact ⟨List.mem_of_find?_eq_some found, by simpa [named] using here⟩

namespace Fleet.Catalogue

theorem resolvedId_more (catalogue : fleet.Catalogue pool) {known : Registry} (pooled : Pooled pool known)
    {earlier : List Schema} (within : ∀ s ∈ earlier, s ∈ pool) {name : ByteString} {version : UInt32} {id : UInt64}
    (alone : resolvedId {} earlier name version = some id) : resolvedId known earlier name version = some id := by
  obtain ⟨s, found, rfl⟩ := Option.map_eq_some_iff.mp alone
  have found : earlier.find? (named name version) = some s := found
  obtain ⟨member, here, there⟩ := find_named found
  unfold resolvedId
  cases looked : known.lookup name version with
  | none => rw [found, Option.none_or, Option.map_some]
  | some owner =>
      obtain ⟨inside, sameName, sameVersion⟩ := pooled.lookup looked
      have same := catalogue.unique owner inside s (within s member) (sameName.trans here.symm) (sameVersion.trans there.symm)
      rw [same, Option.some_or, Option.map_some]

theorem resolves_more (catalogue : fleet.Catalogue pool) {known : Registry} (pooled : Pooled pool known)
    {earlier listed : List Schema} (within : ∀ s ∈ earlier ++ listed, s ∈ pool) (alone : Resolves {} earlier listed) :
    Resolves known earlier listed := by
  induction listed generalizing earlier with
  | nil => trivial
  | cons s listed ih =>
      refine ⟨fun n hn => ?_, ih (by simpa using within) alone.2⟩
      exact catalogue.resolvedId_more pooled (fun s hs => within s (List.mem_append_left _ hs)) (alone.1 n hn)

theorem unconflicting (catalogue : fleet.Catalogue pool) {known : Registry} (pooled : Pooled pool known)
    {earlier listed : List Schema} (within : ∀ s ∈ earlier ++ listed, s ∈ pool) : Unconflicting known earlier listed := by
  induction listed generalizing earlier with
  | nil => trivial
  | cons s listed ih =>
      refine ⟨fun id resolved => ?_, ih (by simpa using within)⟩
      obtain ⟨owner, found, rfl⟩ := Option.map_eq_some_iff.mp resolved
      have inside : owner ∈ pool ∧ owner.name = s.name ∧ owner.version = s.version := by
        rcases Option.or_eq_some_iff.mp found with looked | ⟨_, looked⟩
        · exact pooled.lookup looked
        · obtain ⟨member, named⟩ := find_named looked
          exact ⟨within owner (List.mem_append_left _ member), named⟩
      rw [catalogue.unique owner inside.1 s (within s (by simp)) inside.2.1 inside.2.2]

/-- A manifest comes back as it was. -/
theorem rebuilds (catalogue : fleet.Catalogue pool) {known : Registry} (pooled : Pooled pool known) (abi : Pointer)
    {bytes : ByteString} (admitted : admitUnverified (parse bytes) manifestSchema .firstError =
      .accept (encodeManifest (fleet.doors abi) (fleet.state abi))) :
    wp (reconstructManifest bytes) known fun result r' =>
      result = .ok ⟨fleet.doors abi, fleet.state abi⟩ ∧ Pooled pool r' := by
  have listed := catalogue.listed abi
  apply wp_mono (reconstructManifest_succeeds admitted (catalogue.resolves_more pooled listed (catalogue.resolves abi))
    (catalogue.unconflicting pooled listed) pool)
  rintro _ r' ⟨⟨accepted, state⟩, rfl, restored⟩
  obtain ⟨whole, pooled'⟩ := restored.exact pooled listed (catalogue.distinct abi)
  obtain ⟨front, last⟩ := List.append_inj' whole rfl
  cases front
  cases last
  exact ⟨rfl, pooled'⟩

end Fleet.Catalogue

/-! ## The library of a class -/

/-- The classes that there are at the paths. -/
def Loader.Installed (loader : Loader ς) (paths : ByteString → Option Pointer) : Prop :=
  ∀ path memory, (loader.libOpen path memory).1.toOption.map loader.shardAbi = paths path

def Kernel.behind (k : Kernel ν ς) (env : Foreign ς) : Kernel ν ς := { k with world := { k.world with env } }

variable {loader : Loader ς} {paths : ByteString → Option Pointer} {cls : Pointer → ShardClass τ}

@[simp] theorem wp_exported_destroy {abi inst : Pointer} {w : Foreign (Image ς τ)}
    {Q : Except Exn Unit → Foreign (Image ς τ) → Prop} : wp (SeamM.destroy (exported loader cls).toSeam abi inst) w Q ↔
      Q (.ok ()) ⟨(w.memory.1, w.memory.2.destroy inst), w.calls ++ [.destroy abi inst]⟩ := Iff.rfl

@[simp] theorem wp_exported_libClose {lib : Pointer} {w : Foreign (Image ς τ)}
    {Q : Except Exn Unit → Foreign (Image ς τ) → Prop} : wp (SeamM.libClose (exported loader cls).toSeam lib) w Q ↔
      Q (.ok ()) ⟨(loader.libClose lib w.memory.1, w.memory.2), w.calls ++ [.libClose lib]⟩ := Iff.rfl

theorem wp_exported_opening (installed : loader.Installed paths) {path : ByteString} {refuse : ByteString → α}
    {body : (lib abi inst : Pointer) → KernelM ν (Image ς τ) α} {k : Kernel ν (Image ς τ)}
    {Q : Except Exn α → Kernel ν (Image ς τ) → Prop}
    (refused : (∀ c s, paths path = some c → (cls c).doCreate ≠ some s) → ∀ error memory calls,
      Q (.ok (refuse error)) (k.behind ⟨(memory, k.world.env.memory.2), calls⟩))
    (opened : ∀ c s, paths path = some c → (cls c).doCreate = some s → ∀ lib memory calls,
      wp (body lib c k.world.env.memory.2.next) (k.behind ⟨(memory, k.world.env.memory.2.create s), calls⟩) Q) :
    wp (opening (exported loader cls).toSeam path refuse body) k Q := by
  have there := installed path k.world.env.memory.1
  unfold opening
  simp only [wp_bind, wp_onSeam, SeamM.libOpen, wp_perform, exported]
  generalize loader.libOpen path k.world.env.memory.1 = answer at there
  obtain ⟨result, memory⟩ := answer
  cases result with
  | error error =>
      refine refused ?_ _ _ _
      intro c s found
      rw [← there] at found
      cases found
  | ok lib =>
      have there : some (loader.shardAbi lib) = paths path := there
      simp only [andThen_ok, wp_bind, wp_onSeam, fetchAbi, wp_perform, wp_get, ne_eq, not_true_eq_false, ↓reduceIte,
        wp_pure, SeamM.create]
      cases made : (cls (loader.shardAbi lib)).doCreate with
      | none =>
          simp only [SeamM.libClose, wp_bind, wp_onSeam, wp_perform, andThen_ok, wp_pure]
          refine refused ?_ _ _ _
          intro c s found
          rw [← there] at found
          cases found
          rw [made]
          exact (Option.some_ne_none s).symm
      | some s => exact opened _ s there.symm made _ _ _

/-- A new object describes its class, and the kernel gets to know what the class declares. -/
theorem wp_exported_reconstruct (catalogue : fleet.Catalogue pool) {abi inst : Pointer}
    (portable : Portable (cls abi) fleet abi) {k : Kernel ν (Image ς τ)} (pooled : Pooled pool k.registry) {s : τ}
    (object : k.world.env.memory.2.at? inst = some s) (same : fleet.same s s)
    {Q : Except Exn Manifest → Kernel ν (Image ς τ) → Prop} (h : ∀ registry calls, Pooled pool registry →
      Q (.ok ⟨fleet.doors abi, fleet.state abi⟩) { k.behind ⟨k.world.env.memory, calls⟩ with registry }) :
    wp (reconstruct (exported loader cls).toSeam abi inst) k Q := by
  obtain ⟨bytes, written, admitted⟩ := manifest_admitted (catalogue.short abi) (catalogue.describable abi)
  obtain ⟨v, _, taken, _, _, shape, _⟩ := portable.snapshot same
  have described : (cls abi).doDescribe s = (zenOk, bytes) := by
    simp only [ShardClass.doDescribe, (portable.accepts same).1, taken, bind, Except.bind, shape, written, Kernel.written]
  simp only [reconstruct, wp_bind, wp_onSeam, SeamM.describe, wp_perform, exported, filled, object, described, andThen_ok,
    ne_eq, not_true_eq_false, ↓reduceIte, wp_onRegistry]
  apply wp_mono (catalogue.rebuilds pooled abi admitted)
  rintro _ registry ⟨rfl, known⟩
  exact h registry _ known

end Zen.Kernel
