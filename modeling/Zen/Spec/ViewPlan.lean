import Zen.Isolation.ViewPlan
import Zen.Lib.Context

/-!
# Plans that stay inside their root

Paths are taken as they are written: a ".." leads back to the directory that the path came from.
-/

namespace Zen.Isolation
open Lib

/-! ## Paths -/

/-- The depth below the start after these segments; none if they climb above it. -/
def descend : Nat → List ByteString → Option Nat
  | depth, [] => some depth
  | depth, segment :: segments =>
      if segment = [] ∨ segment = ascii "." then descend depth segments
      else if segment = ascii ".." then
        match depth with
        | 0 => none
        | depth + 1 => descend depth segments
      else descend (depth + 1) segments

def Stays (path : ByteString) : Prop := (descend 0 (path.splitOn slash)).isSome

/-- The root itself, or what lies under it. -/
def Within (root path : ByteString) : Prop := path = root ∨ ∃ rest, path = root ++ slash :: rest ∧ Stays rest

/-- The path up to one of its slashes, or all of it. -/
def Ancestor (above path : ByteString) : Prop := above = path ∨ ∃ rest, path = above ++ slash :: rest

/-! ## Plans -/

namespace MountOp

/-- The path that the operation acts on. -/
def target? (op : MountOp) : Option ByteString :=
  match op.kind with
  | .mkdir => some op.a
  | .mount | .setattrRecRO => some op.b
  | _ => none

def binds (op : MountOp) : Prop := op.kind = .mount ∧ op.flags &&& MS_BIND ≠ 0

/-- A mount below the root has its directories made before. -/
def HasMountpoint (root : ByteString) (before : MountPlan) (op : MountOp) (_ : MountPlan) : Prop :=
  op.kind = .mount → op.b ≠ root → ∀ path, Ancestor path op.b → root.length < path.length →
    { kind := .mkdir, a := path } ∈ before

def SealedLater (_ : MountPlan) (op : MountOp) (after : MountPlan) : Prop :=
  op.binds → { kind := .setattrRecRO, b := op.b } ∈ after

end MountOp

def beforePivot (plan : MountPlan) : MountPlan := plan.takeWhile fun op => op.kind != .pivotRoot

structure Contained (root : ByteString) (plan : MountPlan) : Prop where
  inside : ∀ op ∈ beforePivot plan, ∀ path ∈ op.target?, Within root path
  made : Everywhere (MountOp.HasMountpoint root) (beforePivot plan)
  readOnly : Everywhere MountOp.SealedLater (beforePivot plan)

/-! ## What the plan needs -/

def AbsoluteInside (path : ByteString) : Prop := ∃ rest, path = slash :: rest ∧ Stays rest

structure ViewPaths (level : FsAccess) (scopedPath exePath soPath : ByteString) : Prop where
  exe : AbsoluteInside (dirnameOf exePath)
  so : soUnderExe (dirnameOf exePath) (dirnameOf soPath) ∨ AbsoluteInside (dirnameOf soPath)
  granted : level = .readOnly → scopedPath ≠ [] → AbsoluteInside scopedPath

end Zen.Isolation
