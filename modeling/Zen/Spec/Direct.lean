import Zen.Author.Shard
import Zen.Kernel.Delivery

/-!
# A host without libraries

What loading, reloading and unloading are for. The classes are compiled in: an object of one is
registered under a name, put in the place of another and revived from its state, or dropped.
-/

namespace Zen.Kernel
open Lib Sb

variable {τ ς : Type}

/-- A host with a kernel that has published schemas before. -/
def System.published {ν : Type} (registry : Registry) (memory : ς) : System ν ς :=
  { kernel := { world := (Author.published registry { memory }).world } }

structure Direct (ς τ : Type) where
  machine : Machine Object (Image ς τ)
  names : List (ByteString × ShardId) := []

namespace Direct

def published (registry : Registry) (memory : Image ς τ) : Direct ς τ := { machine := Author.published registry memory }

def find (d : Direct ς τ) (name : ByteString) : Option ShardId :=
  (d.names.find? fun entry => entry.1 == name).map Prod.snd

def after (d : Direct ς τ) (world : World Object (Image ς τ)) : Direct ς τ :=
  { d with machine := { d.machine with world } }

def withObjects (d : Direct ς τ) (change : Objects τ → Objects τ) : Direct ς τ :=
  d.after { d.machine.world with env := (d.machine.world.env.1, change d.machine.world.env.2) }

def dropped (d : Direct ς τ) (o : Object) : Direct ς τ := d.withObjects fun objects => objects.destroy o.inst

variable (cls : Pointer → ShardClass τ)

/-- A new object of the class, if there is one and it can be made. -/
def construct (c : Option Pointer) (d : Direct ς τ) : Option (Object × Direct ς τ) :=
  match c with
  | none => none
  | some c => (cls c).doCreate.map fun s =>
      (⟨c, d.machine.world.env.2.next⟩, d.withObjects fun objects => objects.create s)

def load (name : ByteString) (c : Option Pointer) (d : Direct ς τ) : Option ShardId × Direct ς τ :=
  if (d.find name).isSome then (none, d)
  else
    match d.construct cls c with
    | none => (none, d)
    | some (o, d) =>
        match (registerShard (compiledOps cls) (some o) allowAny).run d.machine.world with
        | .error _ world => (none, (d.after world).dropped o)
        | .ok id world => (some id,
            { machine := { d.machine with world, registered := d.machine.registered ++ [(id, allowAny)] }
              names := d.names ++ [(name, id)] })

/-- The new object takes the place of the old one, which is dropped first, and its state. -/
def replace (id : ShardId) (old fresh : Object) (state : ByteString) (d : Direct ς τ) : Bool × Direct ς τ :=
  let d := d.dropped old
  let d := d.after { d.machine.world with sb := { d.machine.world.sb with
    shards := d.machine.world.sb.shards.update id fun rec => { rec with shard := fresh } } }
  match (swapState (compiledOps cls) id state).run d.machine.world with
  | .ok out world => (out.revived, d.after world)
  | .error _ world => (false, d.after world)

/-- An object whose state has another schema does not take the place of this one. -/
def reload (name : ByteString) (c : Option Pointer) (d : Direct ς τ) : Bool × Direct ς τ :=
  match d.find name with
  | none => (false, d)
  | some id =>
      match (snapshotBytes (compiledOps cls) id).run d.machine.world with
      | .error _ world => (false, d.after world)
      | .ok state world =>
          match (d.after world).construct cls c with
          | none => (false, d.after world)
          | some (o, fresh) =>
              match fresh.machine.world.sb.find id, ((compiledOps cls).snapshot o).run fresh.machine.world.env with
              | some rec, .ok own _ =>
                  if sameIdentity own.schema rec.stateSchema then replace cls id rec.shard o state fresh
                  else (false, fresh.dropped o)
              | _, _ => (false, fresh.dropped o)

def unload (name : ByteString) (d : Direct ς τ) : Bool × Direct ς τ :=
  match d.find name with
  | none => (false, d)
  | some id =>
      let (sb, released) := d.machine.world.sb.unregisterShard id
      let d := { d.after { d.machine.world with sb } with names := d.names.filter fun entry => !(entry.1 == name) }
      match released with
      | none => (true, d)
      | some o => (true, d.dropped o)

/-- The same operations, where `paths` says what class there is at a path. -/
def operate (paths : ByteString → Option Pointer) (fuel : Nat) :
    Input Object (Image ς τ) → StateT (Direct ς τ) Option Outcome
  | .bus call => fun d => (play (compiledOps cls) (compiledHandlers cls) fuel [call] d.machine).map fun machine =>
      (.quiet, { d with machine })
  | .load name path => fun d =>
      let (id, d) := d.load cls name (paths path)
      some (.loaded id, d)
  | .reloadFrom name newPath => fun d =>
      let (done, d) := d.reload cls name (paths newPath)
      some (.reloaded done, d)
  | .unload name => fun d =>
      let (found, d) := d.unload name
      some (.unloaded found, d)

end Direct
end Zen.Kernel
