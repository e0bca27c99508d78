import Zen.Isolation.Link

/-!
# The plan of the restricted view

A plan is made in the parent and run by the child, one system call after the other.
-/

namespace Zen.Isolation

def MS_RDONLY : UInt64 := 1
def MS_NOEXEC : UInt64 := 8
def MS_REMOUNT : UInt64 := 32
def MS_BIND : UInt64 := 4096
def MS_REC : UInt64 := 16384
def MNT_DETACH : UInt64 := 2

inductive MountOp.Kind where
  | makeRPrivate | mkdir | mount | remountRO | setattrRecRO | pivotRoot | chdir | umount
  deriving DecidableEq

structure MountOp where
  kind : MountOp.Kind := .mkdir
  a : ByteString := []
  b : ByteString := []
  fstype : ByteString := []
  flags : UInt64 := 0
  deriving DecidableEq

abbrev MountPlan := List MountOp

def slash : UInt8 := 0x2F

def dirnameOf (path : ByteString) : ByteString :=
  match path.reverse.dropWhile fun c => c != slash with
  | [] => "."
  | [_] => "/"
  | _ :: front => front.reverse

def mkdirPOps (root abs : ByteString) : MountPlan :=
  ((List.range abs.length).filter fun i => i + 1 == abs.length || abs[i + 1]? == some slash).map fun i =>
    { kind := .mkdir, a := root ++ abs.take (i + 1) }

def bindRoOps (root src : ByteString) : MountPlan :=
  mkdirPOps root src ++
    [{ kind := .mount, a := src, b := root ++ src, flags := MS_BIND ||| MS_REC },
      { kind := .setattrRecRO, b := root ++ src }]

def loaderDirs : List ByteString := ["/usr", "/lib", "/lib64", "/bin", "/etc"]

def soUnderExe (exeDir soDir : ByteString) : Bool :=
  soDir == exeDir || soDir.take (exeDir.length + 1) == exeDir ++ ascii "/"

/-- `isDir` is what `stat` says of the loader's directories. -/
def buildViewPlan (isDir : ByteString → Bool) (level : FsAccess) (scopedPath exePath soPath root : ByteString) :
    MountPlan :=
  let exeDir := dirnameOf exePath
  let soDir := dirnameOf soPath
  [{ kind := .makeRPrivate },
    { kind := .mount, a := "tmpfs", b := root, fstype := "tmpfs" },
    { kind := .mkdir, a := root ++ ascii "/oldroot" }] ++
  ((loaderDirs.filter isDir).flatMap (bindRoOps root)) ++
  bindRoOps root exeDir ++
  (if soDir ≠ [] ∧ !soUnderExe exeDir soDir then bindRoOps root soDir else []) ++
  (if level = .readOnly ∧ scopedPath ≠ [] then bindRoOps root scopedPath else []) ++
  (if level = .writeScoped ∨ level = .writeNoExec then
    [{ kind := .mkdir, a := root ++ ascii "/scratch" },
      { kind := .mount, a := "tmpfs", b := root ++ ascii "/scratch", fstype := "tmpfs"
        flags := if level = .writeNoExec then MS_NOEXEC else 0 }] else []) ++
  [{ kind := .mount, a := root, b := root, flags := MS_REMOUNT ||| MS_RDONLY },
    { kind := .pivotRoot, a := root, b := root ++ ascii "/oldroot" },
    { kind := .chdir, a := "/" },
    { kind := .umount, a := "/oldroot", flags := MNT_DETACH }]

/-- The calls that succeed before the first that fails, and whether none fails. A directory that is
there already is made. -/
def runMountPlan (takes : MountOp → Bool) : MountPlan → MountPlan × Bool
  | [] => ([], true)
  | op :: plan =>
      if takes op then
        let (done, ok) := runMountPlan takes plan
        (op :: done, ok)
      else ([], false)

end Zen.Isolation
