import Zen.Proof.Isolation.Calls
import Zen.Proof.Isolation.Invariant
import Zen.Proof.Kernel.Refusal

/-!
# Refused mounts

What a call leaves behind is read off the calls it has made: something made and not taken away since.
Whether `rmdir` takes a directory or a leaf away is for the operating system to say (`removes`).
-/

namespace Zen.Isolation
open Lib Sb BusM BusHostM
open Kernel (QuietManifest DescribesAs Rebuilt gained_ne)

variable {ν ς : Type}

/-! ## What is left -/

def leftFrom (makes unmakes : OsCall → Bool) (there : Bool) (calls : List OsCall) : Bool :=
  calls.foldl (fun there c => makes c || there && !unmakes c) there

def makesChild (pid : Pid) : OsCall → Bool
  | .spawn made => made == pid
  | _ => false

def unmakesChild (pid : Pid) : OsCall → Bool
  | .reap gone => gone == pid
  | _ => false

def makesRoot (root : ByteString) : OsCall → Bool
  | .mkdtemp made => made == root
  | .mkdir made => made == root
  | _ => false

def unmakesRoot (removes : OsCall → Bool) (root : ByteString) : OsCall → Bool
  | .rmdir gone => gone == root && removes (.rmdir gone)
  | _ => false

def makesLeaf (leaf : ByteString) : OsCall → Bool
  | .createLeaf made _ => made == leaf
  | _ => false

def unmakesLeaf (removes : OsCall → Bool) (leaf : ByteString) : OsCall → Bool
  | .removeLeaf gone => gone == leaf && removes (.removeLeaf gone)
  | _ => false

def childLeft (pid : Pid) (calls : List OsCall) : Bool :=
  leftFrom (makesChild pid) (unmakesChild pid) false calls

def rootLeft (removes : OsCall → Bool) (root : ByteString) (calls : List OsCall) : Bool :=
  leftFrom (makesRoot root) (unmakesRoot removes root) false calls

def leafLeft (removes : OsCall → Bool) (leaf : ByteString) (calls : List OsCall) : Bool :=
  leftFrom (makesLeaf leaf) (unmakesLeaf removes leaf) false calls

structure Tidy (removes : OsCall → Bool) (calls : List OsCall) : Prop where
  child : ∀ pid, childLeft pid calls = false
  root : ∀ root, rootLeft removes root calls = false
  leaf : ∀ leaf, leafLeft removes leaf calls = false

@[simp] theorem leftFrom_nil (makes unmakes : OsCall → Bool) (there : Bool) :
    leftFrom makes unmakes there [] = there := rfl

@[simp] theorem leftFrom_cons (makes unmakes : OsCall → Bool) (there : Bool) (c : OsCall) (calls : List OsCall) :
    leftFrom makes unmakes there (c :: calls) = leftFrom makes unmakes (makes c || there && !unmakes c) calls := rfl

@[simp] theorem leftFrom_append (makes unmakes : OsCall → Bool) (there : Bool) (calls more : List OsCall) :
    leftFrom makes unmakes there (calls ++ more) = leftFrom makes unmakes (leftFrom makes unmakes there calls) more :=
  List.foldl_append

theorem leftFrom_idle {makes unmakes : OsCall → Bool} {calls : List OsCall}
    (idle : ∀ c ∈ calls, makes c = false ∧ unmakes c = false) (there : Bool) :
    leftFrom makes unmakes there calls = there := by
  induction calls generalizing there with
  | nil => rfl
  | cons c calls ih =>
      obtain ⟨⟨makes, unmakes⟩, later⟩ := List.forall_mem_cons.mp idle
      rw [leftFrom_cons, makes, unmakes]
      simpa using ih later there

theorem confirmed_confirms {link : Link} {pid : Pid} {confirmed : List OsCall} (h : confirmed <+: confirmations link pid) :
    ∀ c ∈ confirmed, ∃ capability, c = .confirm pid capability := by
  intro c hc
  obtain ⟨capability, _, rfl⟩ := List.mem_map.mp (h.subset hc)
  exact ⟨capability, rfl⟩

/-! ## After the resolution -/

-- the view root that a mount makes before it spawns
def rootCalls (link : Link) : List OsCall := if filesystemSandboxed link then [.mkdtemp link.fsRoot] else []

/-- A link as the resolution leaves it. -/
structure Bare (link : Link) : Prop where
  pid : link.pid = none
  root : filesystemSandboxed link = false → link.fsRoot = []
  leaf : resourcesContained link = false → link.cgLeaf = []
  named : resourcesContained link = true → link.cgLeaf ≠ []

/-- What a mount that fails after its resolution has asked for. -/
structure Undone (a : SpawnAnswers) (link : Link) (calls : List OsCall) : Prop where
  asked : ∃ ok link' spawning, Asked a link ok link' spawning ∧ link'.fsRoot = link.fsRoot ∧
    link'.cgLeaf = link.cgLeaf ∧ calls = rootCalls link ++ spawning ++ (teardownChild link').2

section
variable {a : SpawnAnswers} {link link' : Link} {ok : Bool} {calls : List OsCall}

theorem leftFrom_confirmed {makes unmakes : OsCall → Bool} {pid : Pid} {confirmed : List OsCall}
    (h : confirmed <+: confirmations link pid)
    (idle : ∀ capability, makes (.confirm pid capability) = false ∧ unmakes (.confirm pid capability) = false)
    (there : Bool) : leftFrom makes unmakes there confirmed = there := by
  apply leftFrom_idle
  intro c hc
  obtain ⟨capability, rfl⟩ := confirmed_confirms h c hc
  exact idle capability

theorem asked_children (h : Asked a link ok link' calls) (childless : link.pid = none) (pid : Pid) :
    leftFrom (makesChild pid) (unmakesChild pid) false calls = (link'.pid == some pid) := by
  have preparing : leftFrom (makesChild pid) (unmakesChild pid) false (preparations link) = false := by
    unfold preparations
    split <;> split <;> rfl
  cases h with
  | unconnected _ same =>
      rw [same, childless]
      rfl
  | unlaunched _ same =>
      rw [preparing, same, childless]
      rfl
  | unconfirmed _ known some =>
      rw [leftFrom_append, preparing, leftFrom_cons, leftFrom_confirmed some fun _ => ⟨rfl, rfl⟩, known]
      simp [makesChild]
  | spawned _ known =>
      rw [leftFrom_append, preparing, leftFrom_cons, leftFrom_confirmed List.prefix_rfl fun _ => ⟨rfl, rfl⟩, known]
      simp [makesChild]

theorem asked_roots (h : Asked a link ok link' calls) (removes : OsCall → Bool) (root : ByteString) :
    leftFrom (makesRoot root) (unmakesRoot removes root) (filesystemSandboxed link && link.fsRoot == root) calls =
      (filesystemSandboxed link && link.fsRoot == root) := by
  have preparing : leftFrom (makesRoot root) (unmakesRoot removes root)
      (filesystemSandboxed link && link.fsRoot == root) (preparations link) =
        (filesystemSandboxed link && link.fsRoot == root) := by
    unfold preparations
    cases filesystemSandboxed link <;> cases resourcesContained link <;> by_cases empty : link.fsRoot = [] <;>
      simp [makesRoot, unmakesRoot, empty]
  cases h with
  | unconnected => rfl
  | unlaunched => exact preparing
  | unconfirmed _ _ some =>
      rw [leftFrom_append, preparing, leftFrom_cons, leftFrom_confirmed some fun _ => ⟨rfl, rfl⟩]
      simp [makesRoot, unmakesRoot]
  | spawned =>
      rw [leftFrom_append, preparing, leftFrom_cons, leftFrom_confirmed List.prefix_rfl fun _ => ⟨rfl, rfl⟩]
      simp [makesRoot, unmakesRoot]

theorem asked_leaves (h : Asked a link ok link' calls) (removes : OsCall → Bool) (leaf : ByteString) :
    leftFrom (makesLeaf leaf) (unmakesLeaf removes leaf) false calls =
      (a.socketpair && resourcesContained link && link.cgLeaf == leaf) := by
  have preparing : leftFrom (makesLeaf leaf) (unmakesLeaf removes leaf) false (preparations link) =
      (resourcesContained link && link.cgLeaf == leaf) := by
    unfold preparations
    cases filesystemSandboxed link <;> cases resourcesContained link <;> by_cases empty : link.fsRoot = [] <;>
      simp [makesLeaf, unmakesLeaf, empty]
  cases h with
  | unconnected socketpair => simp [socketpair]
  | unlaunched socketpair => rw [preparing, socketpair, Bool.true_and]
  | unconfirmed socketpair _ some =>
      rw [leftFrom_append, preparing, leftFrom_cons, leftFrom_confirmed some fun _ => ⟨rfl, rfl⟩]
      simp [makesLeaf, unmakesLeaf, socketpair]
  | spawned socketpair =>
      rw [leftFrom_append, preparing, leftFrom_cons, leftFrom_confirmed List.prefix_rfl fun _ => ⟨rfl, rfl⟩]
      simp [makesLeaf, unmakesLeaf, socketpair]

theorem teardown_children (link : Link) (pid : Pid) (there : Bool) :
    leftFrom (makesChild pid) (unmakesChild pid) there (teardownChild link).2 = (there && !(link.pid == some pid)) := by
  unfold teardownChild
  cases known : link.pid with
  | none => by_cases root : link.fsRoot = [] <;> by_cases leaf : link.cgLeaf = [] <;>
      simp [root, leaf, makesChild, unmakesChild]
  | some pid' => by_cases root : link.fsRoot = [] <;> by_cases leaf : link.cgLeaf = [] <;>
      simp [root, leaf, makesChild, unmakesChild]

theorem teardown_roots (link : Link) (removes : OsCall → Bool) (root : ByteString) (there : Bool) :
    leftFrom (makesRoot root) (unmakesRoot removes root) there (teardownChild link).2 =
      (there && !(link.fsRoot ≠ [] && link.fsRoot == root && removes (.rmdir link.fsRoot))) := by
  unfold teardownChild
  cases link.pid <;> by_cases empty : link.fsRoot = [] <;> by_cases leaf : link.cgLeaf = [] <;>
    simp [empty, leaf, makesRoot, unmakesRoot]

theorem teardown_leaves (link : Link) (removes : OsCall → Bool) (leaf : ByteString) (there : Bool) :
    leftFrom (makesLeaf leaf) (unmakesLeaf removes leaf) there (teardownChild link).2 =
      (there && !(link.cgLeaf ≠ [] && link.cgLeaf == leaf && removes (.removeLeaf link.cgLeaf))) := by
  unfold teardownChild
  cases link.pid <;> by_cases root : link.fsRoot = [] <;> by_cases empty : link.cgLeaf = [] <;>
    simp [empty, root, makesLeaf, unmakesLeaf]

end

theorem undone_tidy {a : SpawnAnswers} {link : Link} {calls : List OsCall} (bare : Bare link) (h : Undone a link calls)
    (removes : OsCall → Bool) : Tidy removes calls ↔
      (filesystemSandboxed link = true → link.fsRoot ≠ [] ∧ removes (.rmdir link.fsRoot) = true) ∧
        (a.socketpair = true → resourcesContained link = true → removes (.removeLeaf link.cgLeaf) = true) := by
  obtain ⟨ok, link', spawning, asked, fsRoot, cgLeaf, rfl⟩ := h.asked
  have child : ∀ pid, childLeft pid (rootCalls link ++ spawning ++ (teardownChild link').2) = false := by
    intro pid
    have made : leftFrom (makesChild pid) (unmakesChild pid) false (rootCalls link) = false := by
      unfold rootCalls
      split <;> rfl
    rw [childLeft, leftFrom_append, leftFrom_append, made, asked_children asked bare.pid, teardown_children]
    exact Bool.and_not_self _
  have root : ∀ root, rootLeft removes root (rootCalls link ++ spawning ++ (teardownChild link').2) =
      (filesystemSandboxed link && link.fsRoot == root &&
        !(link.fsRoot ≠ [] && link.fsRoot == root && removes (.rmdir link.fsRoot))) := by
    intro root
    have made : leftFrom (makesRoot root) (unmakesRoot removes root) false (rootCalls link) =
        (filesystemSandboxed link && link.fsRoot == root) := by
      unfold rootCalls
      cases filesystemSandboxed link <;> simp [makesRoot]
    rw [rootLeft, leftFrom_append, leftFrom_append, made, asked_roots asked, teardown_roots, fsRoot]
  have leaf : ∀ leaf, leafLeft removes leaf (rootCalls link ++ spawning ++ (teardownChild link').2) =
      (a.socketpair && resourcesContained link && link.cgLeaf == leaf &&
        !(link.cgLeaf ≠ [] && link.cgLeaf == leaf && removes (.removeLeaf link.cgLeaf))) := by
    intro leaf
    have made : leftFrom (makesLeaf leaf) (unmakesLeaf removes leaf) false (rootCalls link) = false := by
      unfold rootCalls
      split <;> rfl
    rw [leafLeft, leftFrom_append, leftFrom_append, made, asked_leaves asked, teardown_leaves, cgLeaf]
  constructor
  · intro tidy
    constructor
    · intro enforced
      have gone := (root link.fsRoot).symm.trans (tidy.root link.fsRoot)
      simpa [enforced] using gone
    · intro connected contained
      have gone := (leaf link.cgLeaf).symm.trans (tidy.leaf link.cgLeaf)
      have known := bare.named contained
      simpa [connected, contained, known] using gone
  · rintro ⟨roots, leaves⟩
    refine ⟨child, fun r => ?_, fun l => ?_⟩
    · rw [root r]
      cases enforced : filesystemSandboxed link with
      | false => rfl
      | true =>
          obtain ⟨known, removed⟩ := roots enforced
          simp [known, removed]
    · rw [leaf l]
      cases connected : a.socketpair with
      | false => rfl
      | true =>
          cases contained : resourcesContained link with
          | false => rfl
          | true => simp [bare.named contained, leaves connected contained]

/-! ## The resolution -/

def networkOutcome (h : Host ς) (grant : HostGrant) : Option Outcome :=
  resolve h (grant.hasOsCapability osCapNetwork) .network

def filesystemOutcome (h : Host ς) (grant : HostGrant) : Option Outcome :=
  resolve h (grant.filesystem == .writeAnywhere) .filesystem

def resourcesOutcome (h : Host ς) (grant : HostGrant) : Option Outcome :=
  resolve h grant.resources.unlimited .resources

/-- The view root that the resolution makes. -/
def viewRoot (h : Host ς) (grant : HostGrant) (a : MountAnswers) : Option ByteString :=
  if (networkOutcome h grant).isSome && filesystemOutcome h grant == some .enforced then a.mkdtemp else none

/-- The name of the next cgroup leaf. -/
def leafName (h : Host ς) : ByteString := ascii "zen-shard-" ++ decimal h.leafCounter

/-- What the resolution does to the host. -/
structure Resolving (h h' : Host ς) (calls : List OsCall) : Prop where
  calls : h'.calls = h.calls ++ calls
  rest : ∃ nextLink leafCounter, h' = { h with calls := h'.calls, nextLink, leafCounter }

/-- Each capability has an outcome, and the view root that it takes. -/
structure Resolves (h : Host ς) (grant : HostGrant) (a : MountAnswers) : Prop where
  network : (networkOutcome h grant).isSome = true
  filesystem : (filesystemOutcome h grant).isSome = true
  root : filesystemOutcome h grant = some .enforced → a.mkdtemp.isSome = true
  resources : (resourcesOutcome h grant).isSome = true

/-- A link whose capabilities are resolved. -/
structure Equipped (grant : HostGrant) (a : MountAnswers) (h h' : Host ς) (link : Link) (net fs res : Outcome) : Prop where
  host : Resolving h h' (rootCalls link)
  bare : Bare link
  network : networkOutcome h grant = some net
  filesystem : filesystemOutcome h grant = some fs
  resources : resourcesOutcome h grant = some res
  resolutions : link.resolutions = [⟨.network, net, false⟩, ⟨.filesystem, fs, false⟩, ⟨.resources, res, false⟩]
  root : fs = .enforced → a.mkdtemp = some link.fsRoot
  leaf : res = .enforced → link.cgLeaf = leafName h

/-- How the resolution ends for a link that is as new. -/
inductive Decided (grant : HostGrant) (a : MountAnswers) (h : Host ς) :
    Except ByteString Unit → Host ς × Link → Prop where
  | refused {e : ByteString} {h' : Host ς} {link : Link}
      (host : Resolving h h' ((viewRoot h grant a).toList.map .mkdtemp)) (why : ¬ Resolves h grant a) :
      Decided grant a h (.error e) (h', link)
  | equipped {h' : Host ς} {link : Link} {net fs res : Outcome} (equipped : Equipped grant a h h' link net fs res) :
      Decided grant a h (.ok ()) (h', link)

theorem filesystem_decided (grant : HostGrant) (a : MountAnswers) (h : Host ς) (link : Link) :
    wp (resolveFilesystem grant a) (h, link) fun r s => match r with
      | .error _ => s = (h, link) ∧ (filesystemOutcome h grant = none ∨
          filesystemOutcome h grant = some .enforced ∧ a.mkdtemp = none)
      | .ok _ => ∃ fs root, filesystemOutcome h grant = some fs ∧ (fs = .enforced → a.mkdtemp = some root) ∧
          (fs ≠ .enforced → root = link.fsRoot) ∧
          s = (h.called (if fs = .enforced then [.mkdtemp root] else []), { link with
            fsRoot := root, resolutions := link.resolutions ++ [⟨.filesystem, fs, false⟩] }) := by
  unfold resolveFilesystem filesystemOutcome
  rw [wp_bind, wp_get, andThen_ok]
  dsimp only
  cases resolve h (grant.filesystem == .writeAnywhere) .filesystem with
  | none => exact ⟨rfl, .inl rfl⟩
  | some fs =>
      cases fs with
      | enforced =>
          dsimp only
          cases made : a.mkdtemp with
          | none => exact ⟨rfl, .inr ⟨rfl, rfl⟩⟩
          | some root => exact ⟨.enforced, root, rfl, fun _ => rfl, fun other => absurd rfl other, rfl⟩
      | granted => exact ⟨.granted, link.fsRoot, rfl, by simp, fun _ => rfl, by simp [Host.called]⟩
      | uncontained => exact ⟨.uncontained, link.fsRoot, rfl, by simp, fun _ => rfl, by simp [Host.called]⟩

theorem resources_decided (grant : HostGrant) (a : MountAnswers) (h : Host ς) (link : Link) :
    wp (resolveResources grant a) (h, link) fun r s => match r with
      | .error _ => s = (h, link) ∧ resourcesOutcome h grant = none
      | .ok _ => ∃ res leafCounter cgCaps cgLeaf, resourcesOutcome h grant = some res ∧
          (res = .enforced → cgLeaf = leafName h) ∧ (res ≠ .enforced → cgLeaf = link.cgLeaf) ∧
          s = ({ h with leafCounter }, { link with
            cgCaps, cgLeaf, resolutions := link.resolutions ++ [⟨.resources, res, false⟩] }) := by
  unfold resolveResources resourcesOutcome
  rw [wp_bind, wp_get, andThen_ok]
  dsimp only
  cases resolve h grant.resources.unlimited .resources with
  | none => exact ⟨rfl, rfl⟩
  | some res =>
      cases res with
      | enforced => exact ⟨.enforced, _, _, _, rfl, fun _ => rfl, fun other => absurd rfl other, rfl⟩
      | granted => exact ⟨.granted, _, _, _, rfl, by simp, fun _ => rfl, rfl⟩
      | uncontained => exact ⟨.uncontained, _, _, _, rfl, by simp, fun _ => rfl, rfl⟩

theorem resolveCapabilities_decided (grant : HostGrant) (a : MountAnswers) (h : Host ς) (name soPath : ByteString) :
    wp (resolveCapabilities grant a) (h, { name, soPath }) (Decided grant a h) := by
  unfold resolveCapabilities resolveNetwork
  simp only [wp_bind, wp_get, andThen_ok]
  cases network : networkOutcome h grant with
  | none =>
      have unmade : viewRoot h grant a = none := by simp [viewRoot, network]
      have why : ¬ Resolves h grant a := fun resolves => by simpa [network] using resolves.network
      unfold networkOutcome at network
      rw [network]
      exact .refused ⟨by simp [unmade], h.nextLink, h.leafCounter, rfl⟩ why
  | some net =>
      have root : viewRoot h grant a = if filesystemOutcome h grant == some .enforced then a.mkdtemp else none := by
        simp [viewRoot, network]
      have decided := network
      unfold networkOutcome at decided
      simp only [decided, resolved, wp_modify, andThen_ok, wp_bind]
      refine wp_mono (filesystem_decided grant a h _) ?_
      rintro (e | _) s
      · rintro ⟨rfl, none | ⟨enforced, failed⟩⟩
        · refine .refused ⟨by simp [root, none], h.nextLink, h.leafCounter, rfl⟩ fun resolves => ?_
          simpa [none] using resolves.filesystem
        · refine .refused ⟨by simp [root, failed], h.nextLink, h.leafCounter, rfl⟩ fun resolves => ?_
          simpa [failed] using resolves.root enforced
      · rintro ⟨fs, made, filesystem, mkdtemp, unmade, rfl⟩
        rw [andThen_ok]
        refine wp_mono (resources_decided grant a _ _) ?_
        rintro (e | _) s
        · rintro ⟨rfl, none⟩
          have why : ¬ Resolves h grant a := by
            intro resolves
            have known := resolves.resources
            rw [show resourcesOutcome h grant = _ from none] at known
            cases known
          refine .refused ⟨?_, h.nextLink, h.leafCounter, rfl⟩ why
          rw [root, filesystem]
          cases fs with
          | enforced =>
              rw [mkdtemp rfl]
              rfl
          | granted => rfl
          | uncontained => rfl
        · rintro ⟨res, leafCounter, cgCaps, cgLeaf, resources, named, unnamed, rfl⟩
          refine .equipped ⟨⟨?_, h.nextLink, leafCounter, rfl⟩, ⟨rfl, ?_, ?_, ?_⟩, network, filesystem, resources, rfl, mkdtemp, named⟩
          · cases fs <;> rfl
          · intro outside
            refine unmade ?_
            rintro rfl
            cases outside
          · intro outside
            refine unnamed ?_
            rintro rfl
            cases outside
          · intro contained
            cases res with
            | enforced =>
                rw [named rfl]
                exact List.cons_ne_nil _ _
            | granted => cases contained
            | uncontained => cases contained

theorem Decided.renumbered {grant : HostGrant} {a : MountAnswers} {h : Host ς} {n : Pointer} {r : Except ByteString Unit}
    {s : Host ς × Link} (decided : Decided grant a { h with nextLink := n } r s) : Decided grant a h r s := by
  cases decided with
  | refused host why =>
      exact .refused ⟨host.calls, host.rest⟩ fun resolves =>
        why ⟨resolves.network, resolves.filesystem, resolves.root, resolves.resources⟩
  | equipped e =>
      exact .equipped ⟨⟨e.host.calls, e.host.rest⟩, e.bare, e.network, e.filesystem, e.resources, e.resolutions,
        e.root, e.leaf⟩

/-! ## The handshake's schemas -/

/-- The policy and the snapshot of a Hello with this state schema are admitted. -/
def Admissible (hello : Hello) (state : Schema) : Prop :=
  (admitUnverified (parse hello.policy) lifecyclePolicySchema .firstError).ok = true ∧
    (admitUnverified (parse hello.snapshot) state .firstError).ok = true

/-- A link that holds what the handshake has brought. -/
structure Holds (hello : Hello) (mf : Kernel.Manifest) (link link' : Link) : Prop where
  admissible : Admissible hello mf.state
  accept : link'.accept = mf.accepted
  snapshot : ∃ v, link'.snapshotValue = some v ∧ v.schema = mf.state
  pid : link'.pid = link.pid
  resolutions : link'.resolutions = link.resolutions
  fsRoot : link'.fsRoot = link.fsRoot
  cgLeaf : link'.cgLeaf = link.cgLeaf

/-- How the caching of a handshake ends, by what has come of its manifest. -/
inductive Recached (hello : Hello) (link : Link) : Except Exn Kernel.Manifest → Except Exn Link → Prop where
  | unread {e e' : Exn} : Recached hello link (.error e) (.error e')
  | inadmissible {mf : Kernel.Manifest} {e : Exn} (why : ¬ Admissible hello mf.state) : Recached hello link (.ok mf) (.error e)
  | cached {mf : Kernel.Manifest} {link' : Link} (holds : Holds hello mf link link') : Recached hello link (.ok mf) (.ok link')

theorem reconstructAndCache_recached (link : Link) (hello : Hello) (r : Registry) :
    wp (reconstructAndCache link hello) r fun result r' =>
      ∃ rebuilt, Rebuilt r hello.manifest rebuilt r' ∧ Recached hello link rebuilt result := by
  unfold reconstructAndCache
  cases verdict : admitUnverified (parse hello.manifest) Kernel.manifestSchema .firstError with
  | reject errors => exact ⟨.error (refusedBy "manifest" errors), Kernel.rebuilt_of_reject verdict _, .unread⟩
  | accept manifest =>
      dsimp only
      rw [wp_bind]
      apply wp_mono (Kernel.reconstructAll_registered _ r)
      rintro (e | accept) mid ⟨first, _⟩
      · exact ⟨.error e, Kernel.Registered.rebuilt verdict (first.fails _), .unread⟩
      rw [andThen_ok, wp_bind]
      apply wp_mono (Kernel.reconstructSchema_registered _ mid)
      rintro (e | state) r' ⟨last, keeps⟩
      · exact ⟨.error e, Kernel.Registered.rebuilt verdict (first.follow last keeps), .unread⟩
      have rebuilt : Rebuilt r hello.manifest (.ok ⟨accept, state⟩) r' :=
        Kernel.Registered.rebuilt verdict (first.follow last keeps)
      rw [andThen_ok]
      cases policy : admitUnverified (parse hello.policy) lifecyclePolicySchema .firstError with
      | reject errors =>
          refine ⟨_, rebuilt, .inadmissible ?_⟩
          rintro ⟨admitted, _⟩
          rw [policy] at admitted
          cases admitted
      | accept declared =>
          cases snapshot : admitUnverified (parse hello.snapshot) state .firstError with
          | reject errors =>
              refine ⟨_, rebuilt, .inadmissible ?_⟩
              rintro ⟨_, admitted⟩
              rw [snapshot] at admitted
              cases admitted
          | accept v =>
              have schema := (Proof.accepted_written snapshot).1
              refine ⟨_, rebuilt, .cached ⟨⟨?_, ?_⟩, rfl, ⟨v, rfl, schema⟩, rfl, rfl, rfl, rfl⟩⟩
              · rw [policy]
                rfl
              · rw [snapshot]
                rfl

/-- What the bus would publish for a proxy is published already. -/
def BusForeseen (bus : Registry) (mf : Kernel.Manifest) : Prop :=
  bus.Knows (mf.accepted.map some) ∧
    (bus.Agrees (mf.accepted.map some) → (bus.lookup mf.state.name mf.state.version).isSome)

theorem foreseen_proxy {native : ShardOps ν ς} {w : World (Shard ν) (Host ς)} {p : Pointer} {link before : Link}
    {hello : Hello} {mf : Kernel.Manifest} (found : w.env.heap p = some link) (holds : Holds hello mf before link) :
    Foreseen (proxyOps native) w (some (.proxy p)) ↔ BusForeseen w.sb.registry mf := by
  obtain ⟨v, cached, schema⟩ := holds.snapshot
  have accepts : ((proxyOps native).acceptedSchemas (.proxy p)).run w.env = .ok (mf.accepted.map some) w.env := by
    have spec : wp ((proxyOps native).acceptedSchemas (.proxy p)) w.env fun r env =>
        ∃ a, r = .ok a ∧ a = mf.accepted.map some ∧ env = w.env :=
      (wp_onLink found).mpr ⟨_, rfl, by rw [holds.accept], rfl⟩
    obtain ⟨_, _, run, rfl, rfl⟩ := wp_succeeds spec
    exact run
  have snaps : ((proxyOps native).snapshot (.proxy p)).run w.env = .ok v w.env := by
    have spec : wp ((proxyOps native).snapshot (.proxy p)) w.env fun r env => ∃ a, r = .ok a ∧ a = v ∧ env = w.env := by
      simp only [proxyOps, wp_bind, wp_get, andThen_ok, found, Option.bind_eq_bind, Option.bind_some, cached]
      exact ⟨v, rfl, rfl, rfl⟩
    obtain ⟨_, _, run, rfl, rfl⟩ := wp_succeeds spec
    exact run
  constructor
  · intro foreseen
    obtain ⟨known, state⟩ := foreseen _ rfl _ _ accepts
    refine ⟨known, fun agrees => ?_⟩
    have there := state agrees v _ snaps
    rwa [schema] at there
  · rintro ⟨known, state⟩ _ ⟨⟩ declared env asked
    rw [accepts] at asked
    cases asked
    refine ⟨known, fun agrees snap env' taken => ?_⟩
    rw [snaps] at taken
    cases taken
    rw [schema]
    exact state agrees

/-! ## Mount -/

/-- What a Hello brings along, for the host and for the bus, is there already. -/
def HelloForeseen (r bus : Registry) (hello : Hello) : Prop :=
  QuietManifest r hello.manifest ∧
    ∀ mf, DescribesAs r hello.manifest mf → Admissible hello mf.state → BusForeseen bus mf

/-- The Hello that comes if the capabilities are resolved. -/
def expectedHello (h : Host ς) (grant : HostGrant) (a : SpawnAnswers) : Option Hello :=
  welcome h.forceEntryFailure a (networkOutcome h grant == some .enforced)
    (filesystemOutcome h grant == some .enforced) (resourcesOutcome h grant == some .enforced)

/-- A mount that is refused leaves nothing: no view root is made when the resources are refused, whatever
is made can be removed, and what the child would bring along is there already. -/
structure MountForeseen (removes : OsCall → Bool) (w : World (Shard ν) (Host ς)) (grant : HostGrant)
    (a : MountAnswers) : Prop where
  unresolved : resourcesOutcome w.env grant = none → viewRoot w.env grant a = none
  root : ∀ root, viewRoot w.env grant a = some root → root ≠ [] ∧ removes (.rmdir root) = true
  leaf : Resolves w.env grant a → a.spawn.socketpair = true → resourcesOutcome w.env grant = some .enforced →
    removes (.removeLeaf (leafName w.env)) = true
  hello : Resolves w.env grant a → ∀ hello, expectedHello w.env grant a.spawn = some hello →
    HelloForeseen w.env.registry w.sb.registry hello

structure CleanedUp (removes : OsCall → Bool) (w w' : World (Shard ν) (Host ς)) : Prop where
  heap : w'.env.heap = w.env.heap
  links : w'.env.links = w.env.links
  calls : ∃ calls, w'.env.calls = w.env.calls ++ calls ∧ Tidy removes calls
  registry : w'.env.registry = w.env.registry
  published : w'.sb.registry = w.sb.registry

theorem tidy_nil (removes : OsCall → Bool) : Tidy removes [] := ⟨fun _ => rfl, fun _ => rfl, fun _ => rfl⟩

theorem viewRoot_unresolved {h : Host ς} {grant : HostGrant} {a : MountAnswers} (why : ¬ Resolves h grant a) :
    resourcesOutcome h grant = none ∨ viewRoot h grant a = none := by
  cases resources : resourcesOutcome h grant with
  | none => exact .inl rfl
  | some res =>
      right
      unfold viewRoot
      split
      · rename_i enforced
        obtain ⟨network, filesystem⟩ := Bool.and_eq_true_iff.mp enforced
        have filesystem := eq_of_beq filesystem
        cases made : a.mkdtemp with
        | none => rfl
        | some root =>
            refine absurd ⟨network, ?_, ?_, ?_⟩ why
            · rw [filesystem]
              rfl
            · rw [made]
              exact fun _ => rfl
            · rw [resources]
              rfl
      · rfl

section
variable {grant : HostGrant} {a : MountAnswers} {h h' : Host ς} {link : Link} {net fs res : Outcome}

theorem Equipped.sandboxed (equipped : Equipped grant a h h' link net fs res) :
    networkSandboxed link = (networkOutcome h grant == some .enforced) ∧
      filesystemSandboxed link = (filesystemOutcome h grant == some .enforced) ∧
      resourcesContained link = (resourcesOutcome h grant == some .enforced) := by
  unfold networkSandboxed filesystemSandboxed resourcesContained Link.sandboxed
  rw [equipped.resolutions, equipped.network, equipped.filesystem, equipped.resources]
  exact ⟨rfl, rfl, rfl⟩

theorem Equipped.resolves (equipped : Equipped grant a h h' link net fs res) : Resolves h grant a where
  network := by
    rw [equipped.network]
    rfl
  filesystem := by
    rw [equipped.filesystem]
    rfl
  root := by
    intro enforced
    cases equipped.filesystem.symm.trans enforced
    rw [equipped.root rfl]
    rfl
  resources := by
    rw [equipped.resources]
    rfl

theorem Equipped.viewRoot (equipped : Equipped grant a h h' link net fs res) :
    viewRoot h grant a = if filesystemSandboxed link then some link.fsRoot else none := by
  unfold Isolation.viewRoot
  rw [equipped.network, equipped.sandboxed.2.1]
  by_cases enforced : filesystemOutcome h grant = some .enforced
  · cases equipped.filesystem.symm.trans enforced
    simp [enforced, equipped.root rfl]
  · simp [enforced]

/-- For a link whose capabilities are resolved, the condition is one on what the spawn asks for. -/
theorem Equipped.foreseen {removes : OsCall → Bool} {w : World (Shard ν) (Host ς)}
    (equipped : Equipped grant a w.env h' link net fs res) : MountForeseen removes w grant a ↔
      ((filesystemSandboxed link = true → link.fsRoot ≠ [] ∧ removes (.rmdir link.fsRoot) = true) ∧
        (a.spawn.socketpair = true → resourcesContained link = true → removes (.removeLeaf link.cgLeaf) = true)) ∧
      ∀ hello, expectedHello w.env grant a.spawn = some hello → HelloForeseen w.env.registry w.sb.registry hello := by
  have contained : resourcesContained link = true ↔ resourcesOutcome w.env grant = some .enforced := by
    rw [equipped.sandboxed.2.2, beq_iff_eq]
  have leaf : resourcesContained link = true → link.cgLeaf = leafName w.env := by
    intro enforced
    have enforced := equipped.resources.symm.trans (contained.mp enforced)
    exact equipped.leaf (Option.some.inj enforced)
  constructor
  · intro foreseen
    refine ⟨⟨fun enforced => ?_, fun connected enforced => ?_⟩, foreseen.hello equipped.resolves⟩
    · refine foreseen.root link.fsRoot ?_
      rw [equipped.viewRoot, if_pos enforced]
    · rw [leaf enforced]
      exact foreseen.leaf equipped.resolves connected (contained.mp enforced)
  · rintro ⟨⟨roots, leaves⟩, hello⟩
    refine ⟨fun unresolved => ?_, fun root made => ?_, fun _ connected enforced => ?_, fun _ => hello⟩
    · cases equipped.resources.symm.trans unresolved
    · rw [equipped.viewRoot] at made
      split at made
      · rename_i enforced
        cases made
        exact roots enforced
      · cases made
    · have enforced := contained.mpr enforced
      rw [← leaf enforced]
      exact leaves connected enforced

end

theorem Undone.cleaned {a : SpawnAnswers} {link : Link} {calls : List OsCall} {removes : OsCall → Bool}
    {w w' : World (Shard ν) (Host ς)} (undone : Undone a link calls) (bare : Bare link)
    (heap : w'.env.heap = w.env.heap) (links : w'.env.links = w.env.links)
    (asked : w'.env.calls = w.env.calls ++ calls) : CleanedUp removes w w' ↔
      ((filesystemSandboxed link = true → link.fsRoot ≠ [] ∧ removes (.rmdir link.fsRoot) = true) ∧
        (a.socketpair = true → resourcesContained link = true → removes (.removeLeaf link.cgLeaf) = true)) ∧
      w'.env.registry = w.env.registry ∧ w'.sb.registry = w.sb.registry := by
  rw [← undone_tidy bare undone removes]
  constructor
  · rintro ⟨_, _, ⟨more, asked', tidy⟩, registry, published⟩
    obtain rfl := List.append_cancel_left (asked.symm.trans asked')
    exact ⟨tidy, registry, published⟩
  · rintro ⟨tidy, registry, published⟩
    exact ⟨heap, links, ⟨calls, asked, tidy⟩, registry, published⟩

theorem drop_called (h : Host ς) (p : Pointer) (calls : List OsCall) : (h.called calls).drop p = (h.drop p).called calls := rfl

theorem helloForeseen_iff {r r' bus : Registry} {hello : Hello} {rebuilt : Except Exn Kernel.Manifest}
    (h : Rebuilt r hello.manifest rebuilt r') : HelloForeseen r bus hello ↔
      r' = r ∧ ∀ mf, rebuilt = .ok mf → Admissible hello mf.state → BusForeseen bus mf := by
  unfold HelloForeseen
  cases h with
  | quiet known same complete => simp only [known, same, complete, true_and]
  | loud unknown gained => exact ⟨fun foreseen => absurd foreseen.1 unknown, fun same => absurd same.1 (gained_ne gained)⟩

/-- The rest of a mount, from the spawn on. -/
def takeIn (native : ShardOps ν ς) (name : ByteString) (p : Pointer) (grant : HostGrant) (a : SpawnAnswers)
    (h : Host ς) (link : Link) : BusHostM ν ς OutOfProcessResult :=
  match (spawnAndHandshake h.forceEntryFailure a).run { link } with
  | .error e s => do
      modifyHost fun _ => h.called (s.calls ++ (teardownChild s.link).2)
      return { error := ascii "spawn/handshake failed: " ++ e }
  | .ok hello s =>
      match (reconstructAndCache s.link hello).run h.registry with
      | .error e registry => do
          modifyHost fun _ => Host.called { h with registry } (s.calls ++ (teardownChild s.link).2)
          return { error := ascii "handshake refused by the gate: " ++ e.what }
      | .ok link registry => do
          modifyHost fun _ => (Host.put { h with registry } p link).called s.calls
          enroll native name p link grant.sends

theorem enroll_refused (native : ShardOps ν ς) (name : ByteString) (p : Pointer) {link before : Link} (grant : Grant)
    {hello : Hello} {mf : Kernel.Manifest} {door : Schema} {v policy : Value} {w : World (Shard ν) (Host ς)}
    (found : w.env.heap p = some link) (holds : Holds hello mf before link) (cached : Cached link door v policy) :
    wp (enroll native name p link grant) w fun r w' => ∀ result, r = .ok result → result.ok = false →
      w'.env = (w.env.drop p).called (teardownChild link).2 ∧
        (w'.sb.registry = w.sb.registry ↔ BusForeseen w.sb.registry mf) := by
  have proxy := registerShard_proxy native found cached grant
  have refusal := registerShard_refused (proxyOps native) (some (.proxy p)) grant w
  unfold enroll
  rw [wp_bind, wp_caught]
  refine wp_intro ?_ ?_
  · intro id w' run
    rw [andThen_ok, wp_bind, wp_modifyHost, andThen_ok, wp_pure]
    rintro _ ⟨⟩ mounted
    cases mounted
  · intro e w' run
    rw [andThen_ok, wp_bind, wp_modifyHost, andThen_ok, wp_pure]
    rintro _ ⟨⟩ _
    have same := (wp_error proxy run).1
    rw [← foreseen_proxy found holds]
    refine ⟨by rw [same], ?_⟩
    cases wp_error refusal run e rfl with
    | clean foreseen bus => exact ⟨fun _ => foreseen, fun _ => by rw [bus]⟩
    | leaves unforeseen gained => exact ⟨fun published => absurd published (gained_ne gained), fun known => absurd known unforeseen⟩

theorem takeIn_refused (removes : OsCall → Bool) (native : ShardOps ν ς) (name : ByteString) (p : Pointer)
    {grant : HostGrant} {a : MountAnswers} {h : Host ς} {link : Link} {net fs res : Outcome}
    {w : World (Shard ν) (Host ς)} (e : Equipped grant a w.env h link net fs res) (unused : w.env.heap p = none) :
    wp (takeIn native name p grant a.spawn h link) w fun r w' => ∀ result, r = .ok result → result.ok = false →
      (CleanedUp removes w w' ↔ MountForeseen removes w grant a) := by
  obtain ⟨nextLink, leafCounter, rest⟩ := e.host.rest
  have calls := e.host.calls
  have asking := spawnAndHandshake_calls h.forceEntryFailure a.spawn { link }
  have spawning := spawnAndHandshake_spec h.forceEntryFailure a.spawn { link }
  have welcoming := spawnAndHandshake_welcome h.forceEntryFailure a.spawn { link }
  have force : h.forceEntryFailure = w.env.forceEntryFailure := by rw [rest]
  have heap : h.heap = w.env.heap := by rw [rest]
  have links : h.links = w.env.links := by rw [rest]
  have registry : h.registry = w.env.registry := by rw [rest]
  have expected : welcome h.forceEntryFailure a.spawn (networkSandboxed link) (filesystemSandboxed link)
      (resourcesContained link) = expectedHello w.env grant a.spawn := by
    obtain ⟨network, filesystem, resources⟩ := e.sandboxed
    rw [expectedHello, force, network, filesystem, resources]
  unfold takeIn
  split
  · rename_i error s run
    obtain ⟨_, spawned, made, asked⟩ := wp_error asking run
    obtain ⟨rehoused, _⟩ := (wp_error spawning run).1
    have unwelcome := (wp_error welcoming run).trans expected
    simp only [wp_bind, wp_modifyHost, andThen_ok, wp_pure]
    rintro _ ⟨⟩ _
    have undone : Undone a.spawn link (rootCalls link ++ spawned ++ (teardownChild s.link).2) :=
      ⟨_, _, _, asked, by rw [rehoused], by rw [rehoused], rfl⟩
    rw [undone.cleaned e.bare heap links (by simp [Host.called, calls, made]), e.foreseen]
    refine and_congr_right fun _ => ⟨fun _ hello comes => ?_, fun _ => ⟨registry, rfl⟩⟩
    rw [← unwelcome] at comes
    cases comes
  · rename_i hello s run
    obtain ⟨_, spawned, made, asked⟩ := wp_ok asking run
    obtain ⟨⟨rehoused, _⟩, small⟩ := wp_ok spawning run
    have welcome := (wp_ok welcoming run).trans expected
    have reconstruction := reconstructAndCache_recached s.link hello h.registry
    have caching := reconstructAndCache_spec s.link hello (small hello rfl) h.registry
    have foreseen : MountForeseen removes w grant a ↔ ((filesystemSandboxed link = true → link.fsRoot ≠ [] ∧
        removes (.rmdir link.fsRoot) = true) ∧ (a.spawn.socketpair = true → resourcesContained link = true →
          removes (.removeLeaf link.cgLeaf) = true)) ∧ HelloForeseen w.env.registry w.sb.registry hello := by
      rw [e.foreseen, ← welcome]
      simp [Except.toOption]
    have undone : ∀ {link' : Link}, link'.pid = s.link.pid → link'.fsRoot = s.link.fsRoot → link'.cgLeaf = s.link.cgLeaf →
        Undone a.spawn link (rootCalls link ++ spawned ++ (teardownChild link').2) := by
      intro link' pid fsRoot cgLeaf
      have same : (teardownChild link').2 = (teardownChild s.link).2 := by
        unfold teardownChild
        rw [pid, fsRoot, cgLeaf]
      rw [same]
      exact ⟨_, _, _, asked, by rw [rehoused], by rw [rehoused], rfl⟩
    split
    · rename_i error registry' ran
      obtain ⟨rebuilt, came, recached⟩ := wp_error reconstruction ran
      simp only [wp_bind, wp_modifyHost, andThen_ok, wp_pure]
      rintro _ ⟨⟩ _
      rw [(undone rfl rfl rfl).cleaned e.bare heap links (by simp [Host.called, calls, made]), foreseen]
      refine and_congr_right fun _ => ?_
      rw [registry] at came
      rw [helloForeseen_iff came]
      refine and_congr_right fun _ => ⟨fun _ mf read admissible => ?_, fun _ => rfl⟩
      cases recached with
      | unread => cases read
      | inadmissible why =>
          cases read
          exact absurd admissible why
    · rename_i link' registry' ran
      obtain ⟨rebuilt, came, recached⟩ := wp_ok reconstruction ran
      obtain ⟨_, door, v, policy, cached, _⟩ := wp_ok caching ran link' rfl
      cases recached with
      | cached holds =>
          rw [wp_bind, wp_modifyHost, andThen_ok]
          apply wp_mono (enroll_refused native name p grant.sends (put_heap ..) holds cached)
          intro r w' refused result answered failed
          obtain ⟨env, published⟩ := refused result answered failed
          have free : Host.heap { h with registry := registry' } p = none := by
            simp only [heap]
            exact unused
          rw [drop_called, drop_put free] at env
          rw [(undone holds.pid holds.fsRoot holds.cgLeaf).cleaned e.bare (by rw [env]; exact heap)
            (by rw [env]; exact links) (by rw [env]; simp [Host.called, calls, made]), foreseen]
          refine and_congr_right fun _ => ?_
          rw [registry] at came
          rw [helloForeseen_iff came, published, env]
          refine and_congr_right fun _ => ⟨fun known mf read _ => ?_, fun known => known _ rfl holds.admissible⟩
          cases read
          exact known

theorem mount_refused (removes : OsCall → Bool) (native : ShardOps ν ς) (name soPath : ByteString) (grant : HostGrant)
    (a : MountAnswers) {w : World (Shard ν) (Host ς)} (unused : w.env.heap w.env.nextLink = none) :
    wp (mount native name soPath grant a) w fun r w' => ∀ result, r = .ok result → result.ok = false →
      (CleanedUp removes w w' ↔ (findLink w.env name = none → MountForeseen removes w grant a)) := by
  unfold mount
  rw [wp_bind, wp_get, andThen_ok]
  simp only
  by_cases taken : (findLink w.env name).isSome = true
  · rw [if_pos taken]
    rintro _ ⟨⟩ _
    refine ⟨fun _ free => ?_, fun _ => ⟨rfl, rfl, ⟨[], (List.append_nil _).symm, tidy_nil removes⟩, rfl, rfl⟩⟩
    rw [free] at taken
    cases taken
  rw [if_neg taken]
  have free : findLink w.env name = none := by simpa using taken
  simp only [free, forall_const]
  have resolution := resolveCapabilities_decided grant a { w.env with nextLink := w.env.nextLink + 1 } name soPath
  cases run : (resolveCapabilities grant a).run ({ w.env with nextLink := w.env.nextLink + 1 }, { name, soPath }) with
  | error e s =>
      cases (wp_error resolution run).renumbered with
      | refused host why =>
          obtain ⟨nextLink, leafCounter, rest⟩ := host.rest
          simp only [wp_bind, wp_modifyHost, andThen_ok, wp_pure]
          rintro _ ⟨⟩ _
          constructor
          · rintro ⟨_, _, ⟨calls, asked, tidy⟩, _, _⟩
            obtain rfl := List.append_cancel_left (host.calls.symm.trans asked)
            have unmade : viewRoot w.env grant a = none := by
              cases made : viewRoot w.env grant a with
              | none => rfl
              | some root =>
                  have left := tidy.root root
                  rw [made] at left
                  simp [rootLeft, makesRoot] at left
            refine ⟨fun _ => unmade, fun root made => ?_, fun resolves => absurd resolves why,
              fun resolves => absurd resolves why⟩
            rw [unmade] at made
            cases made
          · intro foreseen
            have unmade : viewRoot w.env grant a = none := by
              rcases viewRoot_unresolved why with unresolved | unmade
              · exact foreseen.unresolved unresolved
              · exact unmade
            refine ⟨by rw [rest], by rw [rest], ⟨[], ?_, tidy_nil removes⟩, by rw [rest], rfl⟩
            rw [host.calls, unmade]
            rfl
  | ok _ s =>
      cases (wp_ok resolution run).renumbered with
      | equipped e => exact takeIn_refused removes native name w.env.nextLink e unused

/-! ## Refused mounts -/

theorem refused_mount_cleans_up {native : ShardOps ν ς} {host : Host ς} {inputs : List (Input ν ς)} {s : System ν ς}
    (reached : Reaches native (System.start host) inputs s) (removes : OsCall → Bool) (name soPath : ByteString)
    (grant : HostGrant) (a : MountAnswers) {result : OutOfProcessResult} {w' : World (Shard ν) (Host ς)}
    (run : (mount native name soPath grant a).run s.world = .ok result w') (refused : result.ok = false) :
    CleanedUp removes s.world w' ↔ (findLink s.host name = none → MountForeseen removes s.world grant a) := by
  exact wp_ok (mount_refused removes native name soPath grant a (host_ok reached).unused) run result rfl refused

-- a host that cannot limit the resources of a child, and one that can do everything
def looseStart : System Unit Unit := System.start { enforcement := fun c => c ≠ .resources, memory := () }
def strictStart : System Unit Unit := System.start { memory := () }

theorem refused_mount_cleans_up_silent : ∃ result w',
    (mount pingOps (ascii "a") (ascii "A") {} {}).run strictStart.world = .ok result w' ∧ result.ok = false ∧
    CleanedUp (fun _ => true) strictStart.world w' := by
  have evaluated : (match (mount pingOps (ascii "a") (ascii "A") {} {}).run strictStart.world with
      | .ok result _ => result.ok
      | .error _ _ => true) = false := by
    decide +kernel
  cases run : (mount pingOps (ascii "a") (ascii "A") {} {}).run strictStart.world with
  | error e w' =>
      rw [run] at evaluated
      cases evaluated
  | ok result w' =>
      rw [run] at evaluated
      refine ⟨result, w', rfl, evaluated, ?_⟩
      refine (refused_mount_cleans_up (.nil strictStart) _ _ _ _ _ run evaluated).mpr fun _ => ?_
      refine ⟨nofun, ?_, fun _ _ _ => rfl, nofun⟩
      rintro root ⟨⟩
      exact ⟨List.cons_ne_nil _ _, rfl⟩

theorem refused_mount_leaves_a_view_root : ∃ result w',
    Reaches pingOps looseStart [] looseStart ∧
    (mount pingOps (ascii "a") (ascii "A") {} {}).run looseStart.world = .ok result w' ∧ result.ok = false ∧
    ¬ CleanedUp (fun _ => true) looseStart.world w' := by
  have evaluated : (match (mount pingOps (ascii "a") (ascii "A") {} {}).run looseStart.world with
      | .ok result w' => decide (result.ok = false ∧ w'.env.calls = [.mkdtemp "/tmp/zen-sb-XXXXXX"])
      | .error _ _ => false) = true := by
    decide +kernel
  cases run : (mount pingOps (ascii "a") (ascii "A") {} {}).run looseStart.world with
  | error e w' =>
      rw [run] at evaluated
      cases evaluated
  | ok result w' =>
      rw [run] at evaluated
      obtain ⟨refused, made⟩ := of_decide_eq_true evaluated
      refine ⟨result, w', .nil _, rfl, refused, ?_⟩
      rintro ⟨_, _, ⟨calls, asked, tidy⟩, _, _⟩
      rw [made] at asked
      have left := tidy.root "/tmp/zen-sb-XXXXXX"
      obtain rfl : calls = _ := asked.symm
      revert left
      decide +kernel

end Zen.Isolation
