import Zen.Proof.Kernel.System

/-!
# What a hot reload leaves behind

Two things that the kernel promises of a reload, each with the exact condition under which it keeps
the promise: that a reload happens wholly or not at all, and that the bus routes by what the library
behind a Shard says it accepts.
-/

namespace Zen.Kernel
open Lib Sb KernelM

variable {ν ς : Type}

/-! ## All or nothing -/

/-- The Shard runs the new instance, which was revived from the snapshot of the old one. -/
structure RunsNew (st : Stage ς) (k k' : Kernel ν ς) (name newPath : ByteString) : Prop where
  loaded : find k' name = some { st.loaded with abi := st.newAbi, lib := st.newLib }
  adapter : adapterOf k'.world.sb st.loaded.id = some { st.adapter with abi := st.newAbi, inst := st.newInst }
  record : ∃ rec, k'.world.sb.find st.loaded.id = some rec ∧ rec.alive = true ∧
    serialize rec.lastKnownGood = .ok st.snapshot
  others : ∀ id, id ≠ st.loaded.id → k'.world.sb.find id = k.world.sb.find id
  calls : k'.world.env.calls = k.world.env.calls ++ (st.calls newPath ++
    [.destroy st.adapter.abi st.adapter.inst, .revive st.newAbi st.newInst st.snapshot zenOk,
      .libClose st.loaded.lib])

def AllOrNothing (seam : Seam ς) (native : ShardOps ν ς) (k : Kernel ν ς) (name newPath : ByteString) :
    Prop :=
  ∃ result k', (reloadFrom seam native name newPath).run k = .ok result k' ∧
    (result.reloaded = true ∧ (∃ st : Stage ς, st.Reached seam k name newPath ∧ RunsNew st k k' name newPath) ∨
      result.reloaded = false ∧ KeepsOld k k')

/-- Everything before the commit goes well, and then the new library does not revive its instance. -/
def ReviveFails (seam : Seam ς) (k : Kernel ν ς) (name newPath : ByteString) : Prop :=
  ∃ st : Stage ς, st.Reached seam k name newPath ∧ st.reviveStatus seam ≠ zenOk

theorem find_relabelled {st : Stage ς} {k k' : Kernel ν ς} {name : ByteString}
    (loaded : find k name = some st.loaded) (libs : k'.libs = k.libs.map st.relabelled) :
    find k' name = some { st.loaded with abi := st.newAbi, lib := st.newLib } := by
  have named : ∀ l, (st.relabelled l).name = l.name := by
    intro l
    unfold Stage.relabelled
    split <;> rfl
  have same : ((fun l : Loaded => l.name == name) ∘ st.relabelled) = fun l => l.name == name := by
    funext l
    rw [Function.comp_apply, named]
  rw [find, libs, List.find?_map, same]
  rw [find] at loaded
  rw [loaded, Option.map_some, Stage.relabelled, if_pos (beq_self_eq_true _)]

theorem Committed.runsNew {st : Stage ς} {seam : Seam ς} {state : Value} {k k' : Kernel ν ς}
    {rec : ShardRecord (Shard ν)} {name newPath : ByteString} {result : ReloadResult}
    (h : Committed st seam state (st.staged k newPath) (.ok result) k')
    (loaded : find k name = some st.loaded) (found : k.world.sb.find st.loaded.id = some rec)
    (written : serialize state = .ok st.snapshot) : RunsNew st k k' name newPath := by
  obtain ⟨_, _, bus, calls⟩ := h.ended
  have here := committed_find bus st.loaded.id
  rw [if_pos rfl] at here
  change _ = (k.world.sb.find _).map _ at here
  rw [found] at here
  refine ⟨find_relabelled loaded h.libs, adapterOf_eq_some.mpr ⟨_, here, rfl⟩, ⟨_, here, rfl, written⟩, ?_, ?_⟩
  · intro id other
    rw [committed_find bus id, if_neg other]
    rfl
  · rw [calls, ← List.append_assoc]
    rfl

theorem reload_all_or_nothing {seam : Seam ς} {native : ShardOps ν ς} {memory : ς}
    {inputs : List (Input ν ς)} {s : System ν ς} (run : Reaches seam native (.start memory) inputs s)
    (name newPath : ByteString) :
    AllOrNothing seam native s.kernel name newPath ↔ ¬ ReviveFails seam s.kernel name newPath := by
  have ok := kernel_ok run
  constructor
  · rintro ⟨result, k', returned, _⟩ ⟨st, reached, failed⟩
    obtain ⟨state, accepted⟩ := Proof.ok_accepts reached.conforms
    have committed := wp_ok (reloadFrom_commits native ok.adapters reached accepted) returned
    exact failed committed.ended.1
  · intro revives
    have spec := reloadFrom_spec seam native ok.adapters name newPath
    cases returned : (reloadFrom seam native name newPath).run s.kernel with
    | error e k' =>
        cases wp_error spec returned with
        | committed st rec state reached found shard accepted committed =>
            exact absurd ⟨st, reached, committed.ended.1⟩ revives
        | refused refused =>
            obtain ⟨_, threw, _⟩ := refused
            cases threw
    | ok result k' =>
        cases wp_ok spec returned with
        | committed st rec state reached found shard accepted committed =>
            have written := (Proof.accepted_written accepted).2
            exact ⟨result, k', returned, Or.inl ⟨committed.ended.2.1, st, reached,
              committed.runsNew reached.loaded found written⟩⟩
        | refused refused =>
            obtain ⟨_, same, refused, kept⟩ := refused
            cases same
            exact ⟨result, k', returned, Or.inr ⟨refused, kept⟩⟩

-- every library accepts `Ping` and answers a revive as `revives` says
def pingSeam (revives : Pointer → ZenStatus) : Seam Unit := toySeam (fun _ => [Ping]) revives

def loadA : List (Input Unit Unit) := [.load (ascii "a") (ascii "A")]

def obligingSeam : Seam Unit := pingSeam fun _ => zenOk

theorem reload_all_or_nothing_ping : ∃ s result, Reaches obligingSeam pingOps (System.start ()) loadA s ∧
    answer ((reloadFrom obligingSeam pingOps (ascii "a") (ascii "B")).run s.kernel) = some result ∧
    result.reloaded = true ∧ AllOrNothing obligingSeam pingOps s.kernel (ascii "a") (ascii "B") := by
  have evaluated : ((exec (System.step obligingSeam pingOps) loadA (System.start ())).bind fun s =>
      (answer ((reloadFrom obligingSeam pingOps (ascii "a") (ascii "B")).run s.kernel)).map
        ReloadResult.reloaded) = some true := by
    decide +kernel
  obtain ⟨s, reached, evaluated⟩ := Option.bind_eq_some_iff.mp evaluated
  obtain ⟨result, answered, reloaded⟩ := Option.map_eq_some_iff.mp evaluated
  refine ⟨s, result, Run.of_exec reached, answered, reloaded,
    (reload_all_or_nothing (Run.of_exec reached) _ _).mpr ?_⟩
  rintro ⟨st, _, failed⟩
  exact failed rfl

-- library B does everything but revive
def revivesButB (abi : Pointer) : ZenStatus := if abi = 66 then -1 else zenOk

theorem reload_throws_after_commit : ∃ s e k',
    Reaches (pingSeam revivesButB) pingOps (System.start ()) loadA s ∧
    (reloadFrom (pingSeam revivesButB) pingOps (ascii "a") (ascii "B")).run s.kernel = .error e k' ∧
    e = .dllBoundary (ascii "library revive() failed with status -1") ∧
    .destroy 65 65 ∈ k'.world.env.calls ∧
    ¬ AllOrNothing (pingSeam revivesButB) pingOps s.kernel (ascii "a") (ascii "B") := by
  have evaluated : ((exec (System.step (pingSeam revivesButB) pingOps) loadA (System.start ())).map fun s =>
      match (reloadFrom (pingSeam revivesButB) pingOps (ascii "a") (ascii "B")).run s.kernel with
      | .ok _ _ => false
      | .error e k' => decide (e = .dllBoundary (ascii "library revive() failed with status -1") ∧
          .destroy 65 65 ∈ k'.world.env.calls)) = some true := by
    decide +kernel
  obtain ⟨s, reached, threw⟩ := Option.map_eq_some_iff.mp evaluated
  cases run : (reloadFrom (pingSeam revivesButB) pingOps (ascii "a") (ascii "B")).run s.kernel with
  | ok result k' =>
      rw [run] at threw
      cases threw
  | error e k' =>
      rw [run] at threw
      obtain ⟨thrown, destroyed⟩ := of_decide_eq_true threw
      refine ⟨s, e, k', Run.of_exec reached, run, thrown, destroyed, ?_⟩
      rintro ⟨result, k'', returned, _⟩
      rw [run] at returned
      cases returned

/-! ## Routing -/

def identities (schemas : List Schema) : List (ByteString × UInt32 × UInt64) := schemas.map Schema.identity

/-- What the library described that the Shard runs. -/
def runsOn (k : Kernel ν ς) (id : ShardId) : Option (List Schema) :=
  (k.bound.reverse.find? fun b => b.1 == id).map Prod.snd

/-- The bus routes to each loaded Shard what its library accepts. -/
def RoutesAsDescribed (k : Kernel ν ς) : Prop :=
  ∀ l ∈ k.libs, (k.world.sb.find l.id).isSome = true →
    (runsOn k l.id).map identities = some (identities (k.world.sb.acceptedSchemas l.id))

/-- The loop hands a loaded Shard only messages of a shape that its library accepts. -/
def DeliversAsDescribed (s : System ν ς) : Prop :=
  ∀ l ∈ s.kernel.libs, ∀ e queue trusted, e.target = l.id →
    ((s.machine.popped e queue).deliverOne e).2 = some trusted →
    ∃ described, runsOn s.kernel l.id = some described ∧
      trusted.payload.schema.identity ∈ identities described

/-- Each loaded Shard runs a library that accepts what the one it was loaded from accepts. -/
def AcceptsAsLoaded (k : Kernel ν ς) : Prop :=
  ∀ l ∈ k.libs, (k.world.sb.find l.id).isSome = true →
    (runsOn k l.id).map identities = (loadedWith k l.id).map identities

theorem KernelOk.routed {k : Kernel ν ς} (ok : KernelOk k) {l : Loaded} (loaded : l ∈ k.libs)
    (mounted : (k.world.sb.find l.id).isSome = true) :
    (loadedWith k l.id).map identities = some (identities (k.world.sb.acceptedSchemas l.id)) := by
  obtain ⟨rec, found⟩ := Option.isSome_iff_exists.mp mounted
  obtain ⟨adapter, shard, described⟩ := ok.loaded l loaded rec found
  rw [described, Switchboard.acceptedSchemas, found]
  exact congrArg some (ok.adapters l.id rec adapter found shard).2.symm

theorem called_identity {σ ω : Type} {w w' : World σ ω} {e : Envelope} {trusted : Message}
    (turn : CalledTurn w e trusted w') : (w.sb.find e.target).isSome = true ∧
      trusted.payload.schema.identity ∈ identities (w.sb.acceptedSchemas e.target) := by
  obtain ⟨rec, door, found, _, matched, admitted⟩ := turn.routed
  obtain ⟨member, name, version⟩ := acceptMatch_eq_some matched
  have shape : e.msg.payload.schema.contentId = door.contentId :=
    (Proof.admitLive_ok.mp (accepted_of_live admitted)).1
  have same : e.msg.payload.schema.identity = door.identity := by
    rw [Schema.identity, Schema.identity, name, version, shape]
    rfl
  rw [Switchboard.acceptedSchemas, found, turn.trusted, same]
  exact ⟨rfl, List.mem_map_of_mem member⟩

theorem RoutesAsDescribed.delivers {s : System ν ς} (routes : RoutesAsDescribed s.kernel) :
    DeliversAsDescribed s := by
  intro l loaded e queue trusted target delivered
  rcases deliverOne_spec (s.machine.popped e queue) e with ⟨_, none⟩ | ⟨trusted', some, turn⟩
  · rw [none] at delivered
    cases delivered
  · rw [some] at delivered
    cases delivered
    obtain ⟨mounted, accepted⟩ := called_identity turn
    rw [target] at mounted accepted
    obtain ⟨described, runs, same⟩ := Option.map_eq_some_iff.mp (routes l loaded mounted)
    exact ⟨described, runs, same ▸ accepted⟩

theorem committed_routes {st : Stage ς} {sb sb' : Switchboard (Shard ν)} {state : Value}
    (bus : sb' = { sb with
      shards := (sb.shards.update st.loaded.id st.rebound).update st.loaded.id fun rec =>
        { rec with lastKnownGood := state, alive := true } }) :
    sb'.acceptedSchemas st.loaded.id = sb.acceptedSchemas st.loaded.id := by
  rw [Switchboard.acceptedSchemas, Switchboard.acceptedSchemas, committed_find bus, if_pos rfl]
  cases sb.find st.loaded.id <;> rfl

theorem reload_routes {seam : Seam ς} {native : ShardOps ν ς} {k k' : Kernel ν ς} {name newPath : ByteString}
    {result : ReloadResult} (ok : KernelOk k)
    (returned : (reloadFrom seam native name newPath).run k = .ok result k') (reloaded : result.reloaded = true) :
    ∃ st : Stage ς, st.Reached seam k name newPath ∧ runsOn k' st.loaded.id = some st.mf.accepted ∧
      (identities (k'.world.sb.acceptedSchemas st.loaded.id) = identities st.mf.accepted ↔
        (loadedWith k st.loaded.id).map identities = some (identities st.mf.accepted)) := by
  cases wp_ok (reloadFrom_spec seam native ok.adapters name newPath) returned with
  | committed st rec state reached found shard accepted committed =>
      obtain ⟨_, _, bus, _⟩ := committed.ended
      have loaded : st.loaded ∈ k.libs := List.mem_of_find?_eq_some reached.loaded
      refine ⟨st, reached, ?_, ?_⟩
      · rw [runsOn, committed.bound, List.reverse_append]
        simp
      · rw [committed_routes bus, ok.routed loaded (by rw [found]; rfl), Option.some_inj]
        rfl
  | refused refused =>
      obtain ⟨_, same, refused, _⟩ := refused
      cases same
      rw [reloaded] at refused
      cases refused

theorem routing_follows_code {seam : Seam ς} {native : ShardOps ν ς} {memory : ς}
    {inputs : List (Input ν ς)} {s : System ν ς} (run : Reaches seam native (.start memory) inputs s) :
    (RoutesAsDescribed s.kernel ↔ AcceptsAsLoaded s.kernel) ∧
    (AcceptsAsLoaded s.kernel → DeliversAsDescribed s) ∧
    ∀ name newPath result k', (reloadFrom seam native name newPath).run s.kernel = .ok result k' →
      result.reloaded = true → ∃ st : Stage ς, st.Reached seam s.kernel name newPath ∧
        runsOn k' st.loaded.id = some st.mf.accepted ∧
        (identities (k'.world.sb.acceptedSchemas st.loaded.id) = identities st.mf.accepted ↔
          (loadedWith s.kernel st.loaded.id).map identities = some (identities st.mf.accepted)) := by
  have ok := kernel_ok run
  have routed : RoutesAsDescribed s.kernel ↔ AcceptsAsLoaded s.kernel := by
    constructor
    · intro routes l loaded mounted
      rw [routes l loaded mounted, ok.routed loaded mounted]
    · intro alike l loaded mounted
      rw [alike l loaded mounted, ok.routed loaded mounted]
  refine ⟨routed, fun alike => (routed.mpr alike).delivers, ?_⟩
  intro name newPath result k' returned reloaded
  exact reload_routes ok returned reloaded

theorem routing_follows_code_ping : ∃ s, Reaches obligingSeam pingOps (System.start ())
    (loadA ++ [.reloadFrom (ascii "a") (ascii "B")]) s ∧ s.kernel.libs.map Loaded.lib = [66] ∧
    RoutesAsDescribed s.kernel := by
  have evaluated : ((exec (System.step obligingSeam pingOps) (loadA ++ [.reloadFrom (ascii "a") (ascii "B")])
      (System.start ())).map fun s => (s.kernel.libs.map Loaded.lib, s.kernel.libs.map fun l =>
        decide ((runsOn s.kernel l.id).map identities = (loadedWith s.kernel l.id).map identities))) =
      some ([66], [true]) := by
    decide +kernel
  obtain ⟨s, reached, evaluated⟩ := Option.map_eq_some_iff.mp evaluated
  obtain ⟨libs, alike⟩ := Prod.mk.inj evaluated
  refine ⟨s, Run.of_exec reached, libs, (routing_follows_code (Run.of_exec reached)).1.mpr ?_⟩
  intro l loaded _
  have here := List.mem_map_of_mem (f := fun l : Loaded => decide
    ((runsOn s.kernel l.id).map identities = (loadedWith s.kernel l.id).map identities)) loaded
  rw [alike, List.mem_singleton] at here
  exact of_decide_eq_true here

-- library A accepts `Ping`, the others nothing
def deafSeam : Seam Unit := toySeam (fun abi => if abi = 65 then [Ping] else []) fun _ => zenOk

def pingSent : List (Input Unit Unit) :=
  [.bus (.send 1 ⟨pingValue 1, 0, 0, 0⟩), .bus .pump, .bus .turn, .bus .handlerReturns]

theorem ping_delivered_to_deaf_library : ∃ s result k' s',
    Reaches deafSeam pingOps (System.start ()) loadA s ∧
    (reloadFrom deafSeam pingOps (ascii "a") (ascii "B")).run s.kernel = .ok result k' ∧
    result.reloaded = true ∧ (runsOn k' 1).map identities = some [] ∧
    identities (k'.world.sb.acceptedSchemas 1) = [Ping.identity] ∧
    Reaches deafSeam pingOps { s with kernel := k' } pingSent s' ∧
    (s'.kernel.world.sb.outcome 1).disposition = .delivered := by
  have evaluated : ((exec (System.step deafSeam pingOps) loadA (System.start ())).bind fun s =>
      match (reloadFrom deafSeam pingOps (ascii "a") (ascii "B")).run s.kernel with
      | .error _ _ => none
      | .ok result k' => (exec (System.step deafSeam pingOps) pingSent { s with kernel := k' }).map fun s' =>
          decide (result.reloaded = true ∧ (runsOn k' 1).map identities = some [] ∧
            identities (k'.world.sb.acceptedSchemas 1) = [Ping.identity] ∧
            (s'.kernel.world.sb.outcome 1).disposition = .delivered)) = some true := by
    decide +kernel
  obtain ⟨s, reached, evaluated⟩ := Option.bind_eq_some_iff.mp evaluated
  cases run : (reloadFrom deafSeam pingOps (ascii "a") (ascii "B")).run s.kernel with
  | error e k' =>
      rw [run] at evaluated
      cases evaluated
  | ok result k' =>
      rw [run] at evaluated
      obtain ⟨s', sent, evaluated⟩ := Option.map_eq_some_iff.mp evaluated
      obtain ⟨reloaded, runs, routes, delivered⟩ := of_decide_eq_true evaluated
      exact ⟨s, result, k', s', Run.of_exec reached, run, reloaded, runs, routes, Run.of_exec sent, delivered⟩

end Zen.Kernel
