import Zen.Proof.Kernel.Custody
import Zen.Proof.Kernel.HotReload

/-!
# Libraries over a run

What one input keeps of the custody of libraries, what a run keeps, and what is left when the kernel
is destroyed.
-/

namespace Zen.Kernel
open Lib Sb Custody KernelM BusM

variable {ν ς α : Type} {seam : Seam ς} {native : ShardOps ν ς}

/-! ## One input -/

theorem Tracked.obeys {input : Input ν ς} {s s' : System ν ς} {h h' : Holdings}
    (t : Tracked s.kernel.world.env.calls h h' s'.kernel.world.env)
    (action : System.step seam native input s = some s') (handled : Obeys h' (s.handles s') h') :
    Obeys h (System.acts seam native input s) h' := by
  obtain ⟨calls, same, obeys⟩ := t
  rw [System.acts, action]
  simp only [same, List.drop_left]
  exact obeys.append handled

theorem handles_idle {s s' : System ν ς} (stack : s'.stack = s.stack) : s.handles s' = [] := by
  rw [System.handles, if_neg (by rw [stack]; exact Nat.lt_irrefl _)]

theorem handles_obeys {leaked : Multiset Pointer} {h : Holdings} {s : System ν ς} (settled : Settled leaked h s.kernel)
    (s' : System ν ς) : Obeys h (s.handles s') h := by
  unfold System.handles
  split
  · split
    · split
      · rename_i adapter adapts
        obtain ⟨x, has, abi, inst⟩ := settled.holds _ adapter adapts
        rw [← abi, ← inst]
        exact .one (.uses has)
      · exact .nil h
    · exact .nil h
  · exact .nil h

/-- What an input keeps: `more` are the libraries that an exception has left open. -/
def Carries (leaked : Multiset Pointer) (h : Holdings) (acts : List Act) (returned : Prop) (k' : Kernel ν ς) : Prop :=
  ∃ more h', Obeys h acts h' ∧ Settled (more + leaked) h' k' ∧ (returned → more = 0)

theorem operation_carries {leaked : Multiset Pointer} {h : Holdings} {input : Input ν ς} {s s' : System ν ς}
    {x : KernelM ν ς α} (action : System.step seam native input s = some s')
    (spec : wp x s.kernel (Recommitted leaked s.kernel.world.env.calls h))
    (ended : s'.kernel = (s.ended (x.run s.kernel)).kernel) (stack : s'.stack = s.stack) :
    Carries leaked h (System.acts seam native input s) (∃ a k', x.run s.kernel = .ok a k') s'.kernel := by
  have idle : ∀ h', Obeys h' (s.handles s') h' := fun h' => (handles_idle stack).symm ▸ .nil h'
  cases run : x.run s.kernel with
  | ok a k' =>
      rw [run] at ended
      obtain ⟨more, ⟨h', tracked, settled⟩, none⟩ := wp_ok spec run
      subst ended
      exact ⟨more, h', tracked.obeys action (idle h'), settled, fun _ => none ⟨a, rfl⟩⟩
  | error e k' =>
      rw [run] at ended
      obtain ⟨more, ⟨h', tracked, settled⟩, -⟩ := wp_error spec run
      subst ended
      refine ⟨more, h', tracked.obeys action (idle h'), settled, ?_⟩
      rintro ⟨a, k', returned⟩
      cases returned

theorem step_carries {leaked : Multiset Pointer} {h : Holdings} {input : Input ν ς} {s s' : System ν ς}
    (ok : KernelOk s.kernel) (settled : Settled leaked h s.kernel) (leaves : LeavesLibraries input s)
    (action : System.step seam native input s = some s') :
    Carries leaked h (System.acts seam native input s) (Returns seam native input s) s'.kernel := by
  have recommitted : ∀ {α : Type} {x : KernelM ν ς α},
      wp x s.kernel (fun _ k' => Kept leaked s.kernel.world.env.calls h k') →
      wp x s.kernel (Recommitted leaked s.kernel.world.env.calls h) :=
    fun spec => wp_mono spec fun _ _ kept => kept.recommitted
  cases input with
  | bus input =>
      obtain ⟨m, moved, rfl⟩ := Option.map_eq_some_iff.mp action
      have grown := bus_grown settled.holds moved
      have adapters := bus_adapters ok.below (fun id same => by subst same; exact leaves) moved
      have tracked : Tracked s.kernel.world.env.calls h h (s.withMachine m).kernel.world.env :=
        (Tracked.now h s.kernel.world.env).asked grown
      refine ⟨0, h, tracked.obeys action (handles_obeys settled _), ?_, fun _ => rfl⟩
      rw [Multiset.zero_add]
      exact settled.congr ⟨rfl, rfl⟩ rfl adapters
  | load name path =>
      refine operation_carries action (recommitted (load_settled ok settled name path)) ?_ ?_ <;>
      · rw [System.step] at action
        cases run : (load seam native name path).run s.kernel with
        | ok result k' =>
            simp only [run] at action
            split at action <;> cases action <;> rfl
        | error e k' =>
            rw [run] at action
            cases action
            rfl
  | reloadFrom name newPath =>
      cases action
      refine operation_carries rfl (reload_settled settled name newPath) rfl ?_
      unfold System.ended
      split <;> rfl
  | unload name =>
      cases action
      refine operation_carries rfl (recommitted (unload_settled settled name)) rfl ?_
      unfold System.ended
      split <;> rfl

/-! ## A run -/

theorem run_carries {leaked : Multiset Pointer} {h : Holdings} {inputs : List (Input ν ς)} {s s' : System ν ς}
    (ok : KernelOk s.kernel) (settled : Settled leaked h s.kernel) (run : Reaches seam native s inputs s')
    (leaves : Along (System.step seam native) LeavesLibraries inputs s) :
    Carries leaked h (System.history seam native inputs s) (Along (System.step seam native) (Returns seam native) inputs s)
      s'.kernel := by
  induction inputs generalizing s h leaked with
  | nil =>
      cases run.exec_eq
      exact ⟨0, h, .nil h, (Multiset.zero_add leaked).symm ▸ settled, fun _ => rfl⟩
  | cons input inputs ih =>
      obtain ⟨mid, action, rest⟩ := run.uncons
      obtain ⟨more, h₁, first, settled₁, none⟩ := step_carries ok settled leaves.1 action
      obtain ⟨more', h', later, settled', none'⟩ := ih (step_ok ok action) settled₁ rest (leaves.2 mid action)
      refine ⟨more' + more, h', ?_, (Multiset.add_assoc more' more leaked).symm ▸ settled', ?_⟩
      · rw [System.history, outputs, action]
        exact first.append later
      · rintro ⟨returned, returns⟩
        rw [none returned, none' (returns mid action), Multiset.zero_add]

/-! ## The destructor -/

theorem unload_returns (k : Kernel ν ς) (name : ByteString) : ∃ done k', (unload seam name).run k = .ok done k' ∧
    k'.libs = k.libs.filter fun l => !(l.name == name) := by
  apply wp_succeeds
  unfold unload
  rw [wp_bind, wp_get, andThen_ok]
  cases loaded : find k name with
  | none =>
      refine ⟨false, rfl, (List.filter_eq_self.mpr ?_).symm⟩
      intro l hl
      simpa using List.find?_eq_none.mp loaded l hl
  | some rec =>
      simp only [wp_bind, wp_get, andThen_ok, wp_modify]
      split <;> exact ⟨true, rfl, rfl⟩

theorem destruction_libs (names : List ByteString) (s : System ν ς) : ∃ s',
    Reaches seam native s (destruction names) s' ∧ s'.kernel.libs = s.kernel.libs.filter fun l => l.name ∉ names := by
  induction names generalizing s with
  | nil => exact ⟨s, .nil s, by simp⟩
  | cons name names ih =>
      obtain ⟨done, k', returned, libs⟩ := @unload_returns ν ς seam s.kernel name
      obtain ⟨s', run, left⟩ := ih { s with kernel := k' }
      refine ⟨s', .cons (congrArg (fun r => some (s.ended r)) returned) run, ?_⟩
      rw [left, libs, List.filter_filter]
      refine List.filter_congr fun l _ => Bool.eq_iff_iff.mpr ?_
      simp [and_comm]

theorem destruction_leaves (names : List ByteString) (s : System ν ς) :
    Along (System.step seam native) LeavesLibraries (destruction names) s := by
  refine .of_mem ?_ s
  intro input member s
  obtain ⟨name, -, rfl⟩ := List.mem_map.mp member
  trivial

theorem destruction_returns (names : List ByteString) (s : System ν ς) :
    Along (System.step seam native) (Returns seam native) (destruction names) s := by
  refine .of_mem ?_ s
  intro input member s
  obtain ⟨name, -, rfl⟩ := List.mem_map.mp member
  obtain ⟨done, k', returned, -⟩ := unload_returns s.kernel name
  exact ⟨done, k', returned⟩

theorem Settled.balanced {h : Holdings} {k : Kernel ν ς} (settled : Settled 0 h k) : Balanced h k :=
  ⟨settled.opened.trans (Multiset.zero_add _), settled.live, settled.adapters⟩

theorem destruction_settled {leaked : Multiset Pointer} {h : Holdings} {s : System ν ς} (ok : KernelOk s.kernel)
    (settled : Settled leaked h s.kernel) {names : List ByteString} (every : names.Perm (s.kernel.libs.map Loaded.name)) :
    ∃ s' h', Reaches seam native s (destruction names) s' ∧ Obeys h (System.history seam native (destruction names) s) h' ∧
      s'.kernel.libs = [] ∧ h'.live = 0 ∧ h'.opened = leaked := by
  obtain ⟨s', run, left⟩ := @destruction_libs ν ς seam native names s
  obtain ⟨more, h', obeys, settled', none⟩ := run_carries ok settled run (destruction_leaves names s)
  have libs : s'.kernel.libs = [] := by
    rw [left, List.filter_eq_nil_iff]
    intro l hl
    simpa using every.mem_iff.mpr (List.mem_map_of_mem hl)
  refine ⟨s', h', run, obeys, libs, ?_, ?_⟩
  · rw [settled'.live, libs]
    rfl
  · rw [settled'.opened, none (destruction_returns names s), libs, Multiset.zero_add]
    exact Multiset.add_zero leaked

/-! ## Every run -/

theorem no_call_in_closed_library (seam : Seam ς) (native : ShardOps ν ς) (memory : ς) (inputs : List (Input ν ς))
    (s : System ν ς) (run : Reaches seam native (.start memory) inputs s)
    (leaves : Along (System.step seam native) LeavesLibraries inputs (.start memory)) :
    ∃ h, Obeys {} (System.history seam native inputs (.start memory)) h ∧
      (∀ abi inst, (System.history seam native inputs (.start memory)).count (.destroys abi inst) ≤
        (System.history seam native inputs (.start memory)).count (.creates abi (some inst))) ∧
      (Along (System.step seam native) (Returns seam native) inputs (.start memory) → Balanced h s.kernel) ∧
      ∀ names : List ByteString, names.Perm (s.kernel.libs.map Loaded.name) → ∃ s' h',
        Reaches seam native s (destruction names) s' ∧
        Obeys h (System.history seam native (destruction names) s) h' ∧ s'.kernel.libs = [] ∧ h'.live = 0 ∧
        (Along (System.step seam native) (Returns seam native) inputs (.start memory) → h'.opened = 0) := by
  obtain ⟨leaked, h, obeys, settled, none⟩ := run_carries (KernelOk.start memory) (Settled.start memory) run leaves
  rw [Multiset.add_zero] at settled
  refine ⟨h, obeys, ?_, ?_, ?_⟩
  · intro abi inst
    have counted := obeys.destroyed_once abi inst
    have nothing : Custody.Holdings.count ({} : Holdings) abi inst = 0 := rfl
    omega
  · intro returned
    rw [none returned] at settled
    exact settled.balanced
  · intro names every
    obtain ⟨s', h', ended, destroyed, libs, live, opened⟩ := destruction_settled (kernel_ok run) settled every
    exact ⟨s', h', ended, destroyed, libs, live, fun returned => opened.trans (none returned)⟩

theorem no_call_in_closed_library_reloaded : ∃ s h,
    Reaches obligingSeam pingOps (System.start ()) (loadA ++ [.reloadFrom (ascii "a") (ascii "B")]) s ∧
    s.kernel.libs.map Loaded.lib = [66] ∧
    Obeys {} (System.history obligingSeam pingOps (loadA ++ [.reloadFrom (ascii "a") (ascii "B")]) (System.start ())) h := by
  have evaluated : ((exec (System.step obligingSeam pingOps) (loadA ++ [.reloadFrom (ascii "a") (ascii "B")])
      (System.start ())).map fun s => s.kernel.libs.map Loaded.lib) = some [66] := by
    decide +kernel
  obtain ⟨s, reached, libs⟩ := Option.map_eq_some_iff.mp evaluated
  have leaves : Along (System.step obligingSeam pingOps) LeavesLibraries
      (loadA ++ [.reloadFrom (ascii "a") (ascii "B")]) (System.start ()) := .of_mem (by simp [loadA, LeavesLibraries]) _
  obtain ⟨h, obeys, -⟩ := no_call_in_closed_library obligingSeam pingOps () _ s (Run.of_exec reached) leaves
  exact ⟨s, h, Run.of_exec reached, libs, obeys⟩

end Zen.Kernel
