import Zen.Isolation.System
import Zen.Proof.Core.Serialize
import Zen.Proof.Isolation.Wire

/-!
# Spawning a child

A spawn changes of its link only the channel, the pid and what is confirmed. If it succeeds, nothing
has been queued to the child yet.
-/

namespace Zen.Isolation
open Lib Sb SpawnM

variable {α : Type}

/-! ## Channels -/

/-- A channel that works holds no more than it may. -/
def Channel.Sound (ch : Channel) : Prop := ch.failed = false → ch.inbox.length ≤ kMaxBacklog

theorem scanFrame_size {input rest : ByteString} {f : Incoming} (scanned : scanFrame input = .frame f rest) :
    5 + f.payload.length + rest.length ≤ input.length := by
  obtain ⟨long, left⟩ := scanFrame_rest scanned
  have payload : f.payload = (input.drop 5).take (readLe (input.take 4)) := by
    unfold scanFrame at scanned
    split at scanned
    · cases scanned
    · simp only at scanned
      split at scanned
      · cases scanned
      · split at scanned
        · cases scanned
        · cases scanned
          rfl
  rw [payload, left, List.length_take, List.length_drop, List.length_drop]
  omega

theorem recvLoop_keeps (results : List RecvResult) (ch : Channel) :
    (Channel.recvLoop results ch).outbox = ch.outbox ∧ (Channel.recvLoop results ch).outPos = ch.outPos ∧
      (ch.inbox.length ≤ kMaxBacklog → (Channel.recvLoop results ch).Sound) := by
  induction results generalizing ch with
  | nil => exact ⟨rfl, rfl, fun bound _ => bound⟩
  | cons result results ih =>
      cases result with
      | again => exact ⟨rfl, rfl, fun bound _ => bound⟩
      | broken => exact ⟨rfl, rfl, fun _ working => by cases working⟩
      | interrupted => exact ih ch
      | data bytes =>
          unfold Channel.recvLoop
          split
          · exact ⟨rfl, rfl, fun bound _ => bound⟩
          · simp only
            split
            · exact ⟨rfl, rfl, fun _ working => by cases working⟩
            · rename_i room
              obtain ⟨outbox, outPos, sound⟩ := ih { ch with inbox := ch.inbox ++ bytes }
              exact ⟨outbox, outPos, fun _ => sound (Nat.not_lt.mp room)⟩

/-- A frame that was read fits into an empty outbox. -/
structure Polled (ch : Channel) (result : Channel × List Incoming) : Prop where
  outbox : result.1.outbox = ch.outbox
  outPos : result.1.outPos = ch.outPos
  failed : ch.failed = true → result.1.failed = true
  sound : ch.Sound → result.1.Sound
  small : ch.Sound → ∀ f ∈ result.2, 5 + f.payload.length ≤ kMaxBacklog

theorem poll_spec (ch : Channel) (results : List RecvResult) : Polled ch (ch.poll results) := by
  obtain ⟨outbox, outPos, sound⟩ := recvLoop_keeps results ch
  unfold Channel.poll
  split
  · exact ⟨rfl, rfl, id, id, fun _ => by simp⟩
  · rename_i working
    have working : ch.failed = false := by simpa using working
    simp only
    split
    · rename_i failed
      exact ⟨outbox, outPos, fun _ => failed, fun before => sound (before working), fun _ => by simp⟩
    · rename_i fine
      have bound : ch.Sound → (Channel.recvLoop results ch).inbox.length ≤ kMaxBacklog := fun before =>
        sound (before working) (by simpa using fine)
      obtain ⟨left, sizes⟩ := @scanAll_sizes Incoming UInt8 scanFrame
        (fun f => 5 + f.payload.length) (fun _ _ _ => scanFrame_size) (Channel.recvLoop results ch).inbox.length
        (Channel.recvLoop results ch).inbox
      refine ⟨outbox, outPos, ?_, fun before _ => Nat.le_trans left (bound before), ?_⟩
      · intro failed
        rw [working] at failed
        cases failed
      · intro before f hf
        exact Nat.le_trans (sizes f hf) (bound before)

theorem flushLoop_keeps (results : List SendResult) (ch : Channel) :
    (Channel.flushLoop results ch).1.inbox = ch.inbox ∧
      ((Channel.flushLoop results ch).1.failed = false → ch.failed = false) := by
  induction results generalizing ch with
  | nil => exact ⟨rfl, id⟩
  | cons result results ih =>
      unfold Channel.flushLoop
      split
      · split
        · exact ⟨rfl, nofun⟩
        · exact ⟨rfl, nofun⟩
        · exact ih _
        · exact ⟨rfl, id⟩
        · exact ih _
      · exact ⟨rfl, id⟩

theorem flush_sound {ch : Channel} (h : ch.Sound) (results : List SendResult) : (ch.flush results).1.Sound := by
  obtain ⟨inbox, failed⟩ := flushLoop_keeps results ch
  have loop : (Channel.flushLoop results ch).1.Sound := by
    intro working
    rw [inbox]
    exact h (failed working)
  unfold Channel.flush
  split
  · exact h
  · simp only
    split
    · exact loop
    · split <;> exact loop

theorem queue_sound {ch : Channel} (h : ch.Sound) (op : Op) (payload : ByteString) : (ch.queue op payload).Sound := by
  intro working
  have before := h (queue_failed working)
  unfold Channel.queue
  split
  · exact before
  · split
    · exact before
    · simp only
      split <;> exact before

/-! ## The handshake -/

/-- A channel on which nothing has been queued. -/
structure Channel.Fresh (ch : Channel) : Prop where
  outbox : ch.outbox = []
  outPos : ch.outPos = 0
  sound : ch.Sound

theorem Channel.Fresh.start : Channel.Fresh {} := ⟨rfl, rfl, fun _ => Nat.zero_le _⟩

theorem Channel.Fresh.poll {ch : Channel} (h : ch.Fresh) (results : List RecvResult) : (ch.poll results).1.Fresh :=
  have polled := poll_spec ch results
  ⟨polled.outbox.trans h.outbox, polled.outPos.trans h.outPos, polled.sound h.sound⟩

theorem waitForHello_spec (rounds : List (List RecvResult × Bool)) {ch : Channel} (h : ch.Fresh) :
    (waitForHello rounds ch).1.Fresh ∧
      ∀ hello, (waitForHello rounds ch).2 = some hello → 5 + hello.payload.length ≤ kMaxBacklog := by
  induction rounds generalizing ch with
  | nil => exact ⟨h, by simp [waitForHello]⟩
  | cons round rounds ih =>
      obtain ⟨results, again⟩ := round
      unfold waitForHello
      have small := (poll_spec ch results).small h.sound
      simp only
      split
      · rename_i hello found
        refine ⟨h.poll results, ?_⟩
        rintro _ ⟨⟩
        exact small hello (List.mem_of_find?_eq_some found)
      · split
        · exact ⟨h.poll results, by simp⟩
        · exact ih (h.poll results)

theorem readHello_size {payload manifest policy snapshot rest : ByteString}
    (read : readHello.run payload = .ok (manifest, policy, snapshot) rest) : snapshot.length ≤ payload.length := by
  have piece : ∀ {input left bytes : ByteString}, Cursor.bytes.run input = .ok bytes left →
      bytes.length + left.length ≤ input.length := by
    intro input left bytes taken
    obtain ⟨n, mid, size, taken⟩ := bind_eq_ok.mp taken
    obtain ⟨_, rfl⟩ := Proof.take_ok.mp taken
    have header := Proof.u32le_ok.mp size
    rw [header, List.length_append, List.length_append]
    omega
  unfold readHello at read
  obtain ⟨_, mid, first, read⟩ := bind_eq_ok.mp read
  obtain ⟨_, mid', second, read⟩ := bind_eq_ok.mp read
  obtain ⟨_, mid'', third, read⟩ := bind_eq_ok.mp read
  have same := (pure_eq_ok.mp read).1
  cases same
  have sizes := piece first
  have sizes' := piece second
  have sizes'' := piece third
  omega

/-! ## The spawn -/

section
variable {s : Spawning} {Q : Except ByteString Unit → Spawning → Prop}

@[simp] theorem wp_call {c : OsCall} : wp (call c) s Q ↔ Q (.ok ()) { s with calls := s.calls ++ [c] } := Iff.rfl

@[simp] theorem wp_setLink {f : Link → Link} : wp (setLink f) s Q ↔ Q (.ok ()) { s with link := f s.link } := Iff.rfl

theorem wp_ensure {ok : Bool} {error : ByteString} (passed : ok = true → Q (.ok ()) s) (failed : Q (.error error) s) :
    wp (ensure ok error) s Q := by
  unfold ensure
  split
  · rename_i good
    exact passed good
  · exact failed

end

theorem wp_callIf {c : Bool} {os : OsCall} {s : Spawning} {Q : Except ByteString Unit → Spawning → Prop}
    (h : ∀ calls, Q (.ok ()) { s with calls }) : wp (callIf c os) s Q := by
  unfold callIf
  split
  · exact h _
  · exact h s.calls

/-- A spawn leaves everything else of a link as it is. -/
def Link.Rehoused (link link' : Link) : Prop :=
  link' = { link with channel := link'.channel, pid := link'.pid, resolutions := link'.resolutions }

theorem Link.Rehoused.refl (link : Link) : link.Rehoused link := rfl

theorem Link.Rehoused.trans {link mid link' : Link} (first : link.Rehoused mid) (second : mid.Rehoused link') :
    link.Rehoused link' := by
  unfold Link.Rehoused at *
  rw [second, first]

/-- The channel on which a child has said Hello. -/
def greeted (a : SpawnAnswers) : Channel := (waitForHello a.hello {}).1

theorem greeted_fresh (a : SpawnAnswers) : (greeted a).Fresh := (waitForHello_spec a.hello .start).1

/-- The end of a spawn of `link`: if it went well, there is a channel. -/
def Spawned (a : SpawnAnswers) (link : Link) (r : Except ByteString α) (s : Spawning) : Prop :=
  link.Rehoused s.link ∧ ∀ x, r = .ok x → s.link.channel = some (greeted a)

theorem forkSandboxed_spec (force : Bool) (a : SpawnAnswers) (needsUserns sandboxRes : Bool) (s : Spawning) :
    wp (forkSandboxed force a needsUserns sandboxRes) s fun _ s' => s.link.Rehoused s'.link := by
  unfold forkSandboxed
  rw [wp_bind]
  refine wp_ensure (fun _ => ?_) (.refl _)
  rw [andThen_ok]
  split
  · exact .refl _
  · simp only [wp_bind, wp_call, andThen_ok, wp_setLink]
    exact wp_ensure (fun _ => rfl) rfl

theorem spawnPlain_spec (a : SpawnAnswers) (s : Spawning) :
    wp (spawnPlain a) s fun _ s' => s.link.Rehoused s'.link := by
  unfold spawnPlain
  split
  · exact .refl _
  · exact .refl _

theorem launch_spec (force : Bool) (a : SpawnAnswers) (needsUserns sandboxRes : Bool) (s : Spawning) :
    wp (launch force a needsUserns sandboxRes) s fun _ s' => s.link.Rehoused s'.link := by
  unfold launch
  split
  · exact forkSandboxed_spec ..
  · exact spawnPlain_spec ..

theorem confirmSandbox_spec (wanted confirmed : Bool) (pid : Pid) (capability : Capability) (error : ByteString)
    (s : Spawning) : wp (confirmSandbox wanted confirmed pid capability error) s fun _ s' => s'.link = s.link := by
  unfold confirmSandbox
  split
  · rw [wp_bind]
    exact wp_ensure (fun _ => rfl) rfl
  · rfl

/-- What the Hello brings is small enough to go back in one frame. -/
def Handshaken (a : SpawnAnswers) (link : Link) (r : Except ByteString Hello) (s : Spawning) : Prop :=
  Spawned a link r s ∧ ∀ hello, r = .ok hello → 5 + hello.snapshot.length ≤ kMaxBacklog

theorem handshake_spec (a : SpawnAnswers) (s : Spawning) : wp (handshake a) s (Handshaken a s.link) := by
  have small := (waitForHello_spec a.hello Channel.Fresh.start).2
  unfold handshake
  simp only [wp_bind, wp_setLink, andThen_ok]
  cases answered : (waitForHello a.hello {}).2 with
  | none => exact ⟨⟨rfl, by simp⟩, by simp⟩
  | some frame =>
      simp only
      cases read : readHello.run frame.payload with
      | error e rest => exact ⟨⟨rfl, by simp⟩, by simp⟩
      | ok parts rest =>
          obtain ⟨manifest, policy, snapshot⟩ := parts
          refine ⟨⟨rfl, fun _ _ => rfl⟩, ?_⟩
          rintro _ ⟨⟩
          have size := readHello_size read
          have whole := small frame answered
          simp only
          omega

theorem spawnAndHandshake_spec (force : Bool) (a : SpawnAnswers) (s : Spawning) :
    wp (spawnAndHandshake force a) s (Handshaken a s.link) := by
  have failed : ∀ {s' : Spawning} {e}, s.link.Rehoused s'.link → Handshaken a s.link (.error e) s' := by
    intro s' e rehoused
    exact ⟨⟨rehoused, by simp⟩, by simp⟩
  unfold spawnAndHandshake
  rw [wp_bind]
  refine wp_ensure (fun _ => ?_) (failed (.refl _))
  simp only [andThen_ok, wp_bind, wp_get]
  refine wp_callIf fun calls => ?_
  simp only [andThen_ok, wp_bind]
  refine wp_callIf fun calls' => ?_
  simp only [andThen_ok, wp_bind]
  refine wp_ensure (fun _ => ?_) (failed (.refl _))
  simp only [andThen_ok, wp_bind]
  refine wp_mono (launch_spec ..) ?_
  rintro (e | pid) spawned rehoused
  · exact failed rehoused
  simp only [andThen_ok, wp_bind, wp_setLink]
  refine wp_mono (handshake_spec a _) ?_
  rintro (e | hello) shaken ⟨⟨greeted, channel⟩, small⟩
  · exact failed (rehoused.trans greeted)
  have whole := rehoused.trans greeted
  simp only [andThen_ok, wp_bind]
  refine wp_mono (confirmSandbox_spec ..) ?_
  rintro (e | _) netns same
  · exact failed (same ▸ whole)
  simp only [andThen_ok, wp_bind]
  refine wp_mono (confirmSandbox_spec ..) ?_
  rintro (e | _) mountns same'
  · exact failed (same'.trans same ▸ whole)
  simp only [andThen_ok, wp_bind]
  refine wp_mono (confirmSandbox_spec ..) ?_
  rintro (e | _) confirmed same''
  · exact failed (same''.trans (same'.trans same) ▸ whole)
  simp only [andThen_ok]
  have link : confirmed.link = shaken.link := same''.trans (same'.trans same)
  refine ⟨⟨?_, fun _ _ => ?_⟩, ?_⟩
  · simp only [link]
    exact whole.trans rfl
  · simp only [link]
    exact channel hello rfl
  · rintro _ ⟨⟩
    exact small hello rfl

/-! ## A respawn -/

/-- The link after a respawn: with a channel on which nothing has been queued, or without any. -/
structure Respawned (a : SpawnAnswers) (link : Link) (result : Link × List OsCall × Bool) : Prop where
  rest : link.Rehoused result.1
  channel : result.1.channel = if result.2.2 then some (greeted a) else none

theorem teardownChild_rehoused (link : Link) : link.Rehoused (teardownChild link).1 := rfl

theorem respawn_cases (force : Bool) (a : SpawnAnswers) (link : Link) :
    ∃ before : Spawning, (before.link = link ∨ before.link = (teardownChild link).1) ∧
      ((∃ hello s, (spawnAndHandshake force a).run before = .ok hello s ∧
        respawn force a link = (s.link, s.calls, true)) ∨
      ∃ e s, (spawnAndHandshake force a).run before = .error e s ∧
        respawn force a link = ((teardownChild s.link).1, s.calls ++ (teardownChild s.link).2, false)) := by
  have started : (if link.channel.isSome then teardownChild link else (link, [])).1 = link ∨
      (if link.channel.isSome then teardownChild link else (link, [])).1 = (teardownChild link).1 := by
    split
    · exact Or.inr rfl
    · exact Or.inl rfl
  unfold respawn
  generalize (if link.channel.isSome then teardownChild link else (link, [])) = start at started ⊢
  refine ⟨⟨start.1, start.2⟩, started, ?_⟩
  dsimp only
  cases run : (spawnAndHandshake force a).run ⟨start.1, start.2⟩ with
  | ok hello s => exact Or.inl ⟨hello, s, rfl, rfl⟩
  | error e s => exact Or.inr ⟨e, s, rfl, rfl⟩

theorem respawn_spec (force : Bool) (a : SpawnAnswers) (link : Link) : Respawned a link (respawn force a link) := by
  obtain ⟨before, started, ended⟩ := respawn_cases force a link
  have same : link.Rehoused before.link := by
    rcases started with same | same
    · rw [same]
      exact .refl link
    · rw [same]
      exact teardownChild_rehoused link
  rcases ended with ⟨hello, s, run, result⟩ | ⟨e, s, run, result⟩
  · obtain ⟨⟨rehoused, channel⟩, _⟩ := wp_ok (spawnAndHandshake_spec force a before) run
    rw [result]
    exact ⟨same.trans rehoused, channel hello rfl⟩
  · obtain ⟨⟨rehoused, _⟩, _⟩ := wp_error (spawnAndHandshake_spec force a before) run
    rw [result]
    exact ⟨same.trans (rehoused.trans (teardownChild_rehoused s.link)), rfl⟩

end Zen.Isolation
