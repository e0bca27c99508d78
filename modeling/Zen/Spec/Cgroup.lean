import Zen.Isolation.Cgroup

/-!
# Limits in force

What the kernel shows in the limit files, and when the limits of a leaf hold a process.
-/

namespace Zen.Isolation

inductive Limit where
  | max
  | value (n : Nat)
  deriving DecidableEq

namespace Limit

def text : Limit → ByteString
  | max => ascii "max" ++ [0x0A]
  | value n => decimal n ++ [0x0A]

end Limit

/-- The files of a cgroup hierarchy, whose limit files hold limits. -/
structure CgroupFiles where
  files : Files
  limits : ∀ dir, ∀ file ∈ [ascii "/memory.max", ascii "/pids.max"], ∀ text,
    files (dir ++ file) = some text → ∃ l : Limit, text = l.text

def CgroupFiles.limit (fs : CgroupFiles) (path : ByteString) (n : Int) : Prop :=
  fs.files path = some (Limit.value n.toNat).text

def Mentions (name text : ByteString) : Prop := ascii "/" ++ name <:+: text

/-- The path of /proc/<pid>/cgroup leads to the leaf. -/
def Resides (b : CgroupBase) (name text : ByteString) : Prop :=
  mountPoint ++ cgroupV2Rel text = leafPath b name

structure InForce (b : CgroupBase) (fs : CgroupFiles) (name : ByteString) (pid : Pid) (caps : ResourceCaps) :
    Prop where
  pid : Resides b name (readText fs.files (procCgroup pid))
  memory : fs.limit (leafPath b name ++ ascii "/memory.max") caps.memoryMax.toInt
  pids : fs.limit (leafPath b name ++ ascii "/pids.max") caps.pidsMax.toInt

end Zen.Isolation
