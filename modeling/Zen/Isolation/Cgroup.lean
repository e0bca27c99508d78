import Mathlib.Data.List.Infix
import Zen.Core.Compat
import Zen.Isolation.Host

/-!
# Cgroup leaves

What the host asks of the cgroup-v2 files and of /proc. The files are a function from paths to texts.
-/

namespace Zen.Isolation

abbrev Files := ByteString → Option ByteString

def readText (files : Files) (path : ByteString) : ByteString := (files path).getD []

/-! ## Texts -/

-- std::isspace
def isSpace (c : UInt8) : Bool := c == 0x20 || (0x09 ≤ c && c ≤ 0x0D)

def withSign (negative : Bool) (digits : ByteString) : Int :=
  match digitsValue (digits.takeWhile JsonReader.isDigit) with
  | none => -2
  | some n => if negative then if n ≤ 2 ^ 63 then -n else -2 else if n < 2 ^ 63 then n else -2

-- std::stoll takes the number at the front; its exceptions become -2
def parseLl (text : ByteString) : Int :=
  match text.dropWhile isSpace with
  | 0x2D :: digits => withSign true digits
  | 0x2B :: digits => withSign false digits
  | digits => withSign false digits

def hasToken (text token : ByteString) : Bool := (text.splitOnP isSpace).any fun t => t == token

/-- The path of the line "0::<path>", in the text of a /proc/<pid>/cgroup. -/
def cgroupV2Rel (text : ByteString) : ByteString :=
  match (text.splitOn 0x0A).find? fun line => (ascii "0::").isPrefixOf line with
  | some line => line.drop 3
  | none => []

/-! ## The base -/

/-- What the system answers when the base is set up. `enabled` is what `cgroup.subtree_control` holds
after it is written to, if it opens. -/
structure BaseAnswers where
  cgroup2 : Bool := true
  selfCgroup : ByteString
  supervisor : Bool := true
  controllers : ByteString
  enabled : Option ByteString

structure CgroupBase where
  base : ByteString := []
  memory : Bool := false
  pids : Bool := false
  cpu : Bool := false
  deriving DecidableEq

def mountPoint : ByteString := "/sys/fs/cgroup"

def wantedControllers (controllers : ByteString) : ByteString :=
  (if hasToken controllers "memory" then ascii "+memory " else []) ++
  (if hasToken controllers "pids" then ascii "+pids " else []) ++
  if hasToken controllers "cpu" then ascii "+cpu" else []

def cgroupBase (a : BaseAnswers) : CgroupBase :=
  let rel := cgroupV2Rel a.selfCgroup
  if !a.cgroup2 || rel.isEmpty || !a.supervisor || (wantedControllers a.controllers).isEmpty then {}
  else
    match a.enabled with
    | none => {}
    | some enabled =>
        { base := mountPoint ++ if rel = ascii "/" then [] else rel
          memory := hasToken enabled "memory"
          pids := hasToken enabled "pids"
          cpu := hasToken enabled "cpu" }

-- the resources' part of `detect_enforcement`
def CgroupBase.enforceable (b : CgroupBase) : Bool := !b.base.isEmpty && (b.memory || b.pids)

def cgroupDefaultCaps (ram : Int64) : ResourceCaps :=
  let mem := if 0 < ram then ram / 8 else 512 * 1024 * 1024
  let ceiling : Int64 := 1024 * 1024 * 1024
  let floor : Int64 := 128 * 1024 * 1024
  { memoryMax := if ceiling < mem then ceiling else if mem < floor then floor else mem
    pidsMax := 512
    cpuWeight := 100 }

/-! ## Leaves -/

def shardLeaf (counter : Nat) : ByteString := ascii "zen-shard-" ++ decimal counter

def leafPath (b : CgroupBase) (name : ByteString) : ByteString := b.base ++ ascii "/" ++ name

def procCgroup (pid : Pid) : ByteString := ascii "/proc/" ++ decimal pid ++ ascii "/cgroup"

/-- A write to a file of a leaf; some may fail without harm. -/
structure LeafWrite where
  path : ByteString
  data : ByteString
  needed : Bool := true

/-- What becomes of a write: the file does not open, or the system refuses the data when the stream is
flushed, or it takes them. -/
inductive Written where
  | unopened
  | refused
  | taken
  deriving DecidableEq

-- `write_text` asks `f.good()` before anything is flushed
def Written.good (w : Written) : Bool := w ≠ .unopened

def leafWrites (b : CgroupBase) (name : ByteString) (caps : ResourceCaps) : List LeafWrite :=
  (if b.memory && 0 ≤ caps.memoryMax then
    [⟨leafPath b name ++ ascii "/memory.max", signedDecimal caps.memoryMax.toInt, true⟩,
      ⟨leafPath b name ++ ascii "/memory.swap.max", "0", false⟩] else []) ++
  (if b.pids && 0 ≤ caps.pidsMax then
    [⟨leafPath b name ++ ascii "/pids.max", signedDecimal caps.pidsMax.toInt, true⟩] else []) ++
  if b.cpu && 0 < caps.cpuWeight then
    [⟨leafPath b name ++ ascii "/cpu.weight", signedDecimal caps.cpuWeight.toInt, true⟩] else []

def performWrites (answer : LeafWrite → Written) : List LeafWrite → Bool × List LeafWrite
  | [] => (true, [])
  | w :: ws =>
      if w.needed && !(answer w).good then (false, [])
      else
        let rest := performWrites answer ws
        (rest.1, if answer w = .taken then w :: rest.2 else rest.2)

/-- What the function answers, and the writes that the system took. -/
def cgroupCreateLeaf (b : CgroupBase) (made : Bool) (answer : LeafWrite → Written) (name : ByteString)
    (caps : ResourceCaps) : Bool × List LeafWrite :=
  if b.base.isEmpty || !made then (false, []) else performWrites answer (leafWrites b name caps)

def cgroupMovePid (b : CgroupBase) (answer : LeafWrite → Written) (name : ByteString) (pid : Pid) :
    Bool × List LeafWrite :=
  if b.base.isEmpty then (false, [])
  else performWrites answer [⟨leafPath b name ++ ascii "/cgroup.procs", decimal pid, true⟩]

def cgroupConfirm (b : CgroupBase) (files : Files) (name : ByteString) (pid : Pid) (caps : ResourceCaps) :
    Bool :=
  let leaf := leafPath b name
  if b.base.isEmpty then false
  else if ¬ ascii "/" ++ name <:+: readText files (procCgroup pid) then false
  else if b.memory && 0 ≤ caps.memoryMax &&
      parseLl (readText files (leaf ++ ascii "/memory.max")) != caps.memoryMax.toInt then false
  else if b.pids && 0 ≤ caps.pidsMax &&
      parseLl (readText files (leaf ++ ascii "/pids.max")) != caps.pidsMax.toInt then false
  else if b.cpu && 0 < caps.cpuWeight &&
      parseLl (readText files (leaf ++ ascii "/cpu.weight")) != caps.cpuWeight.toInt then false
  else true

end Zen.Isolation
