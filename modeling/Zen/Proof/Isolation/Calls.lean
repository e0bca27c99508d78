import Zen.Proof.Isolation.Spawn

/-!
# What a spawn asks of the operating system

The calls that leave something behind, in order: the view root and the leaf, the child, and what is
confirmed of it. A spawn that fails stops somewhere on that way, and the link then knows the pid of any
child it has made.
-/

namespace Zen.Isolation
open Lib Sb SpawnM

/-- What a link's capabilities are resolved to, whatever is confirmed. -/
def Link.intent (link : Link) : List (Capability × Outcome) := link.resolutions.map fun r => (r.capability, r.outcome)

/-- The calls before the child is launched. -/
def preparations (link : Link) : List OsCall :=
  (if filesystemSandboxed link && link.fsRoot ≠ [] then [.mkdir link.fsRoot] else []) ++
    if resourcesContained link then [.createLeaf link.cgLeaf link.cgCaps] else []

/-- What is confirmed of a child before the spawn succeeds. -/
def confirmations (link : Link) (pid : Pid) : List OsCall :=
  ([.network, .filesystem, .resources].filter link.sandboxed).map (.confirm pid)

/-- The calls that a spawn has made, and the pid that the link is left with. -/
inductive Asked (a : SpawnAnswers) (link : Link) : (spawned : Bool) → Link → List OsCall → Prop where
  | unconnected {link' : Link} (socketpair : a.socketpair = false) (pid : link'.pid = link.pid) : Asked a link false link' []
  | unlaunched {link' : Link} (socketpair : a.socketpair = true) (pid : link'.pid = link.pid) :
      Asked a link false link' (preparations link)
  | unconfirmed {link' : Link} {pid : Pid} (socketpair : a.socketpair = true) (known : link'.pid = some pid)
      {confirmed : List OsCall} (some : confirmed <+: confirmations link pid) :
      Asked a link false link' (preparations link ++ .spawn pid :: confirmed)
  | spawned {link' : Link} {pid : Pid} (socketpair : a.socketpair = true) (known : link'.pid = some pid) :
      Asked a link true link' (preparations link ++ .spawn pid :: confirmations link pid)

/-- How a launch ends: with a pid, without a child, or with a child that is to be reaped. -/
structure Launched (s : Spawning) (r : Except ByteString Pid) (s' : Spawning) : Prop where
  intent : s'.link.intent = s.link.intent
  ended : match r with
    | .ok pid => s'.calls = s.calls ++ [.spawn pid]
    | .error _ => s'.calls = s.calls ∧ s'.link.pid = s.link.pid ∨
        ∃ pid, s'.calls = s.calls ++ [.spawn pid] ∧ s'.link.pid = some pid

theorem launch_calls (force : Bool) (a : SpawnAnswers) (needsUserns sandboxRes : Bool) (s : Spawning) :
    wp (launch force a needsUserns sandboxRes) s (Launched s) := by
  unfold launch
  split
  · unfold forkSandboxed
    rw [wp_bind]
    refine wp_ensure (fun _ => ?_) ⟨rfl, .inl ⟨rfl, rfl⟩⟩
    rw [andThen_ok]
    split
    · exact ⟨rfl, .inl ⟨rfl, rfl⟩⟩
    · rename_i pid _
      simp only [wp_bind, wp_call, andThen_ok, wp_setLink]
      unfold ensure
      split
      · exact ⟨rfl, rfl⟩
      · rename_i unprepared
        refine ⟨rfl, .inr ⟨pid, rfl, ?_⟩⟩
        simp
  · unfold spawnPlain
    split
    · exact ⟨rfl, .inl ⟨rfl, rfl⟩⟩
    · exact ⟨rfl, rfl⟩

theorem handshake_calls (a : SpawnAnswers) (s : Spawning) : wp (handshake a) s fun _ s' =>
    s'.calls = s.calls ∧ s'.link.pid = s.link.pid ∧ s'.link.intent = s.link.intent := by
  unfold handshake
  simp only [wp_bind, wp_setLink, andThen_ok]
  split
  · exact ⟨rfl, rfl, rfl⟩
  · split
    · exact ⟨rfl, rfl, rfl⟩
    · exact ⟨rfl, rfl, rfl⟩

theorem confirmSandbox_calls (wanted confirmed : Bool) (pid : Pid) (capability : Capability) (error : ByteString)
    (s : Spawning) : wp (confirmSandbox wanted confirmed pid capability error) s fun r s' => s'.link = s.link ∧
      match r with
      | .ok _ => s'.calls = s.calls ++ if wanted then [.confirm pid capability] else []
      | .error _ => s'.calls = s.calls := by
  unfold confirmSandbox
  split
  · rw [wp_bind]
    exact wp_ensure (fun _ => ⟨rfl, rfl⟩) ⟨rfl, rfl⟩
  · exact ⟨rfl, (List.append_nil _).symm⟩

theorem wp_callIf_calls {c : Bool} {os : OsCall} {s : Spawning} {Q : Except ByteString Unit → Spawning → Prop}
    (h : Q (.ok ()) { s with calls := s.calls ++ if c then [os] else [] }) : wp (callIf c os) s Q := by
  unfold callIf
  cases c with
  | true => exact h
  | false =>
      have plain : s.calls ++ (if false = true then [os] else []) = s.calls := List.append_nil _
      rw [plain] at h
      exact h

/-- The end of `spawn_and_handshake`, once the child has said Hello. -/
def confirmAll (a : SpawnAnswers) (link : Link) (pid : Pid) (hello : Hello) : SpawnM Hello := do
  confirmSandbox (networkSandboxed link) a.netns pid .network
    "network sandbox not confirmed: child shares the host network namespace"
  confirmSandbox (filesystemSandboxed link) a.mountns pid .filesystem
    "filesystem sandbox not confirmed: child shares the host mount namespace"
  confirmSandbox (resourcesContained link) a.cgroup pid .resources
    "resource sandbox not confirmed: child not in its cgroup leaf or limits not applied"
  setLink markConfirmed
  return hello

theorem confirmations_eq (link : Link) (pid : Pid) : confirmations link pid =
    (if networkSandboxed link then [.confirm pid .network] else []) ++
      ((if filesystemSandboxed link then [.confirm pid .filesystem] else []) ++
        if resourcesContained link then [.confirm pid .resources] else []) := by
  unfold confirmations networkSandboxed filesystemSandboxed resourcesContained
  cases net : link.sandboxed .network <;> cases fs : link.sandboxed .filesystem <;>
    cases res : link.sandboxed .resources <;> simp [net, fs, res]

theorem markConfirmed_intent (link : Link) : (markConfirmed link).intent = link.intent := by
  unfold markConfirmed Link.intent
  rw [List.map_map]
  refine List.map_congr_left fun r _ => ?_
  simp only [Function.comp_apply]
  split <;> rfl

theorem confirmAll_calls (a : SpawnAnswers) (link : Link) (pid : Pid) (hello : Hello) (s : Spawning) :
    wp (confirmAll a link pid hello) s fun r s' => s'.link.pid = s.link.pid ∧ s'.link.intent = s.link.intent ∧
      ∃ confirmed, s'.calls = s.calls ++ confirmed ∧ confirmed <+: confirmations link pid ∧
        (r.isOk = true → confirmed = confirmations link pid) := by
  rw [confirmations_eq]
  unfold confirmAll
  rw [wp_bind]
  refine wp_mono (confirmSandbox_calls ..) ?_
  rintro (e | _) s₁ ⟨link₁, calls₁⟩
  · exact ⟨congrArg Link.pid link₁, congrArg Link.intent link₁, [], by rw [calls₁, List.append_nil], List.nil_prefix, nofun⟩
  rw [andThen_ok, wp_bind]
  refine wp_mono (confirmSandbox_calls ..) ?_
  rintro (e | _) s₂ ⟨link₂, calls₂⟩
  · refine ⟨congrArg Link.pid (link₂.trans link₁), congrArg Link.intent (link₂.trans link₁), _, calls₂.trans calls₁, List.prefix_append .., nofun⟩
  rw [andThen_ok, wp_bind]
  refine wp_mono (confirmSandbox_calls ..) ?_
  have pid₂ := congrArg Link.pid (link₂.trans link₁)
  have intent₂ := congrArg Link.intent (link₂.trans link₁)
  simp only at calls₁ calls₂
  rintro (e | _) s₃ ⟨link₃, calls₃⟩
  · refine ⟨(congrArg Link.pid link₃).trans pid₂, (congrArg Link.intent link₃).trans intent₂, _, (calls₃.trans (calls₂.trans ?_)),
      (List.prefix_append_right_inj _).mpr (List.prefix_append ..), nofun⟩
    rw [calls₁, List.append_assoc]
  · simp only [andThen_ok, wp_bind, wp_setLink, wp_pure]
    refine ⟨(congrArg Link.pid link₃).trans pid₂, (markConfirmed_intent s₃.link).trans
      ((congrArg Link.intent link₃).trans intent₂), _, ?_, List.prefix_rfl, fun _ => rfl⟩
    simp only at calls₃
    rw [calls₃, calls₂, calls₁, List.append_assoc, List.append_assoc]

/-- The end of a spawn from `s`, with its calls. -/
def Answered (a : SpawnAnswers) (s : Spawning) (r : Except ByteString Hello) (s' : Spawning) : Prop :=
  s'.link.intent = s.link.intent ∧ ∃ calls, s'.calls = s.calls ++ calls ∧ Asked a s.link r.isOk s'.link calls

theorem spawnAndHandshake_calls (force : Bool) (a : SpawnAnswers) (s : Spawning) :
    wp (spawnAndHandshake force a) s (Answered a s) := by
  unfold spawnAndHandshake
  rw [wp_bind]
  cases connected : a.socketpair with
  | false => exact ⟨rfl, [], (List.append_nil _).symm, .unconnected connected rfl⟩
  | true =>
      have passed : ensure true "socketpair failed" = pure () := rfl
      simp only [passed, wp_pure, andThen_ok, wp_bind, wp_get]
      refine wp_callIf_calls ?_
      simp only [andThen_ok, wp_bind]
      refine wp_callIf_calls ?_
      have prepared : s.calls ++ (if filesystemSandboxed s.link && decide (s.link.fsRoot ≠ []) then
          [OsCall.mkdir s.link.fsRoot] else []) ++ (if resourcesContained s.link then
            [.createLeaf s.link.cgLeaf s.link.cgCaps] else []) = s.calls ++ preparations s.link := by
        rw [List.append_assoc, preparations]
      simp only [andThen_ok, wp_bind, prepared]
      refine wp_ensure (fun _ => ?_) ⟨rfl, _, rfl, .unlaunched connected rfl⟩
      simp only [andThen_ok, wp_bind]
      refine wp_mono (launch_calls ..) ?_
      rintro (e | pid) launched ⟨intent, ended⟩
      · rcases ended with ⟨calls, same⟩ | ⟨pid, calls, known⟩
        · exact ⟨intent, _, calls, .unlaunched connected same⟩
        · exact ⟨intent, _, calls.trans (List.append_assoc ..), .unconfirmed connected known List.nil_prefix⟩
      simp only [List.append_assoc] at ended
      simp only [andThen_ok, wp_bind, wp_setLink]
      refine wp_mono (handshake_calls a _) ?_
      rintro (e | hello) shaken ⟨calls, known, intent'⟩
      · exact ⟨intent'.trans intent, _, calls.trans ended, .unconfirmed connected known List.nil_prefix⟩
      rw [andThen_ok]
      refine wp_mono (confirmAll_calls a s.link pid hello shaken) ?_
      rintro r s' ⟨same, intent'', confirmed, more, some, all⟩
      have whole : s'.calls = s.calls ++ (preparations s.link ++ .spawn pid :: confirmed) := by
        rw [more, calls, ended, List.append_assoc, List.append_assoc, List.singleton_append]
      refine ⟨intent''.trans (intent'.trans intent), _, whole, ?_⟩
      cases r with
      | error e => exact .unconfirmed connected (same.trans known) some
      | ok hello =>
          rw [all rfl]
          exact .spawned connected (same.trans known)

/-! ## When a spawn succeeds -/

def launches (force : Bool) (a : SpawnAnswers) (needsUserns sandboxRes : Bool) : Bool :=
  if needsUserns || sandboxRes then
    a.pipes && a.fork.isSome && (a.signaled && !force && (!needsUserns || a.idMaps) && (!sandboxRes || a.moved))
  else a.posixSpawn.isSome

def helloOf (a : SpawnAnswers) : Option Hello :=
  match (waitForHello a.hello {}).2 with
  | none => none
  | some frame =>
      match readHello.run frame.payload with
      | .error _ _ => none
      | .ok (manifest, policy, snapshot) _ => some ⟨manifest, policy, snapshot⟩

/-- The Hello of a child whose spawn succeeds with these answers. -/
def welcome (force : Bool) (a : SpawnAnswers) (net fs res : Bool) : Option Hello :=
  if a.socketpair && (!res || a.leaf) && launches force a (net || fs) res then
    (helloOf a).filter fun _ => (!net || a.netns) && (!fs || a.mountns) && (!res || a.cgroup)
  else none

theorem launch_launches (force : Bool) (a : SpawnAnswers) (needsUserns sandboxRes : Bool) (s : Spawning) :
    wp (launch force a needsUserns sandboxRes) s fun r _ => r.isOk = launches force a needsUserns sandboxRes := by
  unfold launch launches
  split
  · unfold forkSandboxed
    rw [wp_bind]
    cases a.pipes with
    | false => rfl
    | true =>
        cases a.fork with
        | none => rfl
        | some pid =>
            simp only [ensure, if_true, wp_pure, andThen_ok, wp_bind, wp_call, wp_setLink]
            cases a.signaled && !force && (!needsUserns || a.idMaps) && (!sandboxRes || a.moved) <;> rfl
  · unfold spawnPlain
    split
    · rename_i failed
      rw [failed]
      rfl
    · rename_i pid made
      rw [made]
      rfl

theorem handshake_hello (a : SpawnAnswers) (s : Spawning) :
    wp (handshake a) s fun r _ => r.toOption = helloOf a := by
  unfold handshake helloOf
  simp only [wp_bind, wp_setLink, andThen_ok]
  cases (waitForHello a.hello {}).2 with
  | none => rfl
  | some frame =>
      dsimp only
      cases readHello.run frame.payload <;> rfl

theorem confirmSandbox_ok (wanted confirmed : Bool) (pid : Pid) (capability : Capability) (error : ByteString)
    (s : Spawning) : wp (confirmSandbox wanted confirmed pid capability error) s fun r _ =>
      r.isOk = (!wanted || confirmed) := by
  cases wanted <;> cases confirmed <;> rfl

theorem confirmAll_ok (a : SpawnAnswers) (link : Link) (pid : Pid) (hello : Hello) (s : Spawning) :
    wp (confirmAll a link pid hello) s fun r _ => r.toOption = (some hello).filter fun _ =>
      (!networkSandboxed link || a.netns) && (!filesystemSandboxed link || a.mountns) &&
        (!resourcesContained link || a.cgroup) := by
  unfold confirmAll
  rw [wp_bind]
  refine wp_mono (confirmSandbox_ok ..) ?_
  rintro (e | _) s₁ first
  · simp [← first, Except.isOk, Except.toBool, Except.toOption]
  rw [andThen_ok, wp_bind]
  refine wp_mono (confirmSandbox_ok ..) ?_
  rintro (e | _) s₂ second
  · simp [← second, Except.isOk, Except.toBool, Except.toOption]
  rw [andThen_ok, wp_bind]
  refine wp_mono (confirmSandbox_ok ..) ?_
  rintro (e | _) s₃ third
  · simp [← third, Except.isOk, Except.toBool, Except.toOption]
  · rw [← first, ← second, ← third]
    rfl

theorem spawnAndHandshake_welcome (force : Bool) (a : SpawnAnswers) (s : Spawning) :
    wp (spawnAndHandshake force a) s fun r _ => r.toOption =
      welcome force a (networkSandboxed s.link) (filesystemSandboxed s.link) (resourcesContained s.link) := by
  unfold spawnAndHandshake welcome
  rw [wp_bind]
  cases a.socketpair with
  | false => rfl
  | true =>
      have passed : ∀ e, ensure true e = pure () := fun _ => rfl
      simp only [passed, wp_pure, andThen_ok, wp_bind, wp_get]
      refine wp_callIf fun calls => ?_
      simp only [andThen_ok, wp_bind]
      refine wp_callIf fun calls' => ?_
      simp only [andThen_ok, wp_bind]
      cases !resourcesContained s.link || a.leaf with
      | false => rfl
      | true =>
          simp only [passed, wp_pure, andThen_ok, wp_bind, Bool.true_and]
          refine wp_mono (launch_launches ..) ?_
          rintro (e | pid) launched ended
          · rw [← ended]
            rfl
          · rw [← ended]
            simp only [andThen_ok, wp_bind, wp_setLink]
            refine wp_mono (handshake_hello a _) ?_
            rintro (e | hello) shaken read
            · rw [← read]
              rfl
            · rw [andThen_ok, ← read]
              exact confirmAll_ok a s.link pid hello shaken

end Zen.Isolation
