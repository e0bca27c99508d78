import Zen.Proof.Kernel.Rules

/-!
# Opening a library

`load` and `reload_from` begin alike: open the library, fetch its descriptor, create an instance. If
one of the three fails, what was opened is closed again.
-/

namespace Zen.Kernel
open Lib Sb KernelM

variable {ν ς α : Type}

def opening (seam : Seam ς) (path : ByteString) (refuse : ByteString → α)
    (body : (lib abi inst : Pointer) → KernelM ν ς α) : KernelM ν ς α := do
  match ← onSeam (SeamM.libOpen seam path) with
  | .error error => return refuse (ascii "open failed: " ++ error)
  | .ok lib =>
      match ← onSeam (fetchAbi seam lib) with
      | .error error => do
          onSeam (SeamM.libClose seam lib)
          return refuse error
      | .ok abi =>
          match ← onSeam (SeamM.create seam abi) with
          | none => do
              onSeam (SeamM.libClose seam lib)
              return refuse "library create() returned null"
          | some inst => body lib abi inst

-- what `load` does once it has an instance
def settle (seam : Seam ς) (native : ShardOps ν ς) (name : ByteString) (lib abi inst : Pointer) :
    KernelM ν ς LoadResult := do
  match ← attempt (mount seam native name lib abi inst) with
  | .error e => do
      discard seam lib abi inst
      return { error := ascii "load refused: " ++ e.what }
  | .ok id => return { ok := true, id }

theorem load_eq (seam : Seam ς) (native : ShardOps ν ς) (name path : ByteString) :
    load seam native name path = (do
      if (find (← get) name).isSome then return { error := ascii "already loaded: " ++ name }
      else opening seam path (fun error => { error }) (settle seam native name)) := rfl

theorem reloadFrom_eq (seam : Seam ς) (native : ShardOps ν ς) (name newPath : ByteString) :
    reloadFrom seam native name newPath = (do
      match find (← get) name with
      | none => return { error := ascii "not loaded: " ++ name }
      | some rec =>
          match ← attempt (onBus (snapshotBytes (hostOps seam native) rec.id)) with
          | .error e => return { error := ascii "snapshot of the live shard failed: " ++ e.what }
          | .ok snapshot => opening seam newPath (fun error => { error }) (replace seam native rec snapshot)) := rfl

/-- A library with a new instance, and the memory behind the seam after each call. -/
structure Opening (ς : Type) where
  lib : Pointer
  abi : Pointer
  inst : Pointer
  afterOpen : ς
  afterAbi : ς
  afterCreate : ς

namespace Opening

structure From (o : Opening ς) (seam : Seam ς) (path : ByteString) (memory : ς) : Prop where
  opened : seam.libOpen path memory = (.ok o.lib, o.afterOpen)
  exported : seam.shardAbi o.lib o.afterOpen = (some (some o.abi), o.afterAbi)
  version : seam.abiVersion o.abi o.afterAbi = zenAbiVersion
  created : seam.create o.abi o.afterAbi = (some o.inst, o.afterCreate)

def calls (o : Opening ς) (path : ByteString) : List Call :=
  [.libOpen path (some o.lib), .shardAbi o.lib, .create o.abi (some o.inst)]

theorem From.unique {o o' : Opening ς} {seam : Seam ς} {path : ByteString} {memory : ς}
    (h : o.From seam path memory) (h' : o'.From seam path memory) : o' = o := by
  obtain ⟨lib, abi, inst, afterOpen, afterAbi, afterCreate⟩ := o
  obtain ⟨lib', abi', inst', afterOpen', afterAbi', afterCreate'⟩ := o'
  cases h.opened.symm.trans h'.opened
  cases h.exported.symm.trans h'.exported
  cases h.created.symm.trans h'.created
  rfl

end Opening

/-- The calls of an opening that has come to nothing. -/
inductive Abandoned (path : ByteString) : List Call → Prop where
  | unopened : Abandoned path [.libOpen path none]
  | unexported (lib : Pointer) : Abandoned path [.libOpen path (some lib), .shardAbi lib, .libClose lib]
  | uncreated (lib abi : Pointer) :
      Abandoned path [.libOpen path (some lib), .shardAbi lib, .create abi none, .libClose lib]

def Kernel.after (k : Kernel ν ς) (memory : ς) (calls : List Call) : Kernel ν ς :=
  { k with world := { k.world with env := ⟨memory, k.world.env.calls ++ calls⟩ } }

theorem wp_opening {seam : Seam ς} {path : ByteString} {refuse : ByteString → α}
    {body : (lib abi inst : Pointer) → KernelM ν ς α} {k : Kernel ν ς} {Q : Except Exn α → Kernel ν ς → Prop}
    (refused : (∀ o : Opening ς, ¬ o.From seam path k.world.env.memory) → ∀ error memory calls,
      Abandoned path calls → Q (.ok (refuse error)) (k.after memory calls))
    (opened : ∀ o : Opening ς, o.From seam path k.world.env.memory →
      wp (body o.lib o.abi o.inst) (k.after o.afterCreate (o.calls path)) Q) :
    wp (opening seam path refuse body) k Q := by
  unfold opening
  simp only [wp_bind, wp_onSeam, SeamM.libOpen, wp_perform]
  generalize opens : seam.libOpen path k.world.env.memory = answer
  obtain ⟨result, afterOpen⟩ := answer
  cases result with
  | error error =>
      refine refused ?_ _ afterOpen _ .unopened
      intro o arrives
      cases opens.symm.trans arrives.opened
  | ok lib =>
      simp only [andThen_ok, wp_bind, wp_onSeam]
      generalize exports : seam.shardAbi lib afterOpen = answer
      obtain ⟨symbol, afterAbi⟩ := answer
      refine wp_fetchAbi exports ?_ ?_
      · intro unsupported error
        simp only [andThen_ok, wp_bind, wp_onSeam, SeamM.libClose, wp_perform, wp_pure]
        have closes := refused ?_ error (seam.libClose lib afterAbi) _ (.unexported lib)
        · simpa [Kernel.after, Except.toOption] using closes
        · intro o arrives
          cases opens.symm.trans arrives.opened
          cases exports.symm.trans arrives.exported
          exact unsupported _ rfl arrives.version
      · rintro abi rfl version
        simp only [andThen_ok, wp_bind, wp_onSeam, SeamM.create, wp_perform]
        generalize creates : seam.create abi afterAbi = answer
        obtain ⟨inst, afterCreate⟩ := answer
        cases inst with
        | none =>
            simp only [andThen_ok, wp_bind, wp_onSeam, SeamM.libClose, wp_perform, wp_pure]
            have closes := refused ?_ "library create() returned null" (seam.libClose lib afterCreate) _
              (.uncreated lib abi)
            · simpa [Kernel.after, Except.toOption] using closes
            · intro o arrives
              cases opens.symm.trans arrives.opened
              cases exports.symm.trans arrives.exported
              cases creates.symm.trans arrives.created
        | some inst =>
            have goes := opened ⟨lib, abi, inst, afterOpen, afterAbi, afterCreate⟩ ⟨opens, exports, version, creates⟩
            simpa [Kernel.after, Opening.calls, Except.toOption] using goes

end Zen.Kernel
