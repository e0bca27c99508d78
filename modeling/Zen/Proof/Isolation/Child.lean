import Zen.Isolation.Child
import Zen.Proof.Isolation.Spawn

/-!
# A child that is revived

The first frame that a respawned child reads is the Revive. If its library takes the state, all that
it says from then on comes from the state it was revived from.
-/

namespace Zen.Isolation
open Lib Kernel

variable {τ : Type}

/-! ## Frames on their way -/

theorem scanFrame_pending {input rest later : ByteString} {f : Incoming} {pending : List Incoming}
    (fits : ∀ g ∈ pending, g.payload.length < 2 ^ 32) (stream : words frameBytes pending = input ++ later)
    (scanned : scanFrame input = .frame f rest) :
    ∃ left, pending = f :: left ∧ words frameBytes left = rest ++ later := by
  obtain ⟨long, _⟩ := scanFrame_rest scanned
  cases pending with
  | nil =>
      have nothing := (List.append_eq_nil_iff.mp stream.symm).1
      rw [nothing] at long
      simp at long
  | cons g left =>
      rw [words_cons] at stream
      have header : readLe (input.take 4) = g.payload.length := by
        have first := readLe_header (fits g (by simp)) (words frameBytes left)
        rw [stream, List.take_append_of_le_length (by omega)] at first
        exact first
      have small : Small g := by
        unfold scanFrame at scanned
        rw [if_neg (by omega)] at scanned
        simp only [header] at scanned
        split at scanned
        · cases scanned
        · rename_i most
          exact Nat.not_lt.mp most
      have size : (frameBytes g).length = 5 + g.payload.length := by
        rw [frameBytes, List.length_append, length_header]
      rcases List.append_eq_append_iff.mp stream with ⟨more, whole, tail⟩ | ⟨missing, part, tail⟩
      · rw [whole, scanFrame_whole small] at scanned
        cases scanned
        exact ⟨left, rfl, tail⟩
      · have none : missing = [] := by
          have sizes := congrArg List.length part
          rw [List.length_append, size] at sizes
          rw [← List.length_eq_zero_iff]
          omega
        subst none
        rw [List.append_nil] at part
        have whole := scanFrame_whole small []
        rw [List.append_nil, part, scanned] at whole
        cases whole
        exact ⟨left, rfl, by simpa using tail.symm⟩

theorem scanAll_pending (fuel : Nat) {input later : ByteString} {pending : List Incoming}
    (fits : ∀ g ∈ pending, g.payload.length < 2 ^ 32) (stream : words frameBytes pending = input ++ later) :
    ∃ left, pending = (scanAll scanFrame fuel input).1 ++ left ∧
      words frameBytes left = (scanAll scanFrame fuel input).2.1 ++ later := by
  induction fuel generalizing input pending with
  | zero => exact ⟨pending, rfl, stream⟩
  | succ fuel ih =>
      unfold scanAll
      cases scanned : scanFrame input with
      | short => exact ⟨pending, rfl, stream⟩
      | bad => exact ⟨pending, rfl, stream⟩
      | frame f rest =>
          obtain ⟨left, rfl, tail⟩ := scanFrame_pending fits stream scanned
          obtain ⟨left', rfl, tail'⟩ := ih (fun g hg => fits g (by simp [hg])) tail
          exact ⟨left', rfl, tail'⟩

theorem poll_pending {ch : Channel} {results : List RecvResult} {later : ByteString} {pending : List Incoming}
    (fits : ∀ g ∈ pending, g.payload.length < 2 ^ 32)
    (stream : words frameBytes pending = ch.inbox ++ (pollTaken results ch ++ later)) :
    ∃ left, pending = (ch.poll results).2 ++ left ∧
      ((ch.poll results).1.failed = false → words frameBytes left = (ch.poll results).1.inbox ++ later) := by
  cases failed : ch.failed with
  | true =>
      have none : ch.poll results = (ch, []) := by simp [Channel.poll, failed]
      rw [none]
      refine ⟨pending, rfl, ?_⟩
      intro working
      rw [failed] at working
      cases working
  | false =>
      cases lost : (Channel.recvLoop results ch).failed with
      | true =>
          have none : ch.poll results = (Channel.recvLoop results ch, []) := by simp [Channel.poll, failed, lost]
          rw [none]
          refine ⟨pending, rfl, ?_⟩
          intro working
          rw [lost] at working
          cases working
      | false =>
          obtain ⟨inbox, _, _⟩ := recvLoop_inbox results lost
          rw [pollTaken, failed, if_neg (by simp), ← List.append_assoc, ← inbox] at stream
          obtain ⟨left, taken, tail⟩ := scanAll_pending (Channel.recvLoop results ch).inbox.length fits stream
          refine ⟨left, ?_, ?_⟩
          · simpa [Channel.poll, failed, lost] using taken
          · intro _
            simpa [Channel.poll, failed, lost] using tail

theorem waitForHello_pending (rounds : List (List RecvResult × Bool)) {ch : Channel} {later : ByteString}
    {pending : List Incoming} (fits : ∀ g ∈ pending, g.payload.length < 2 ^ 32)
    (stream : words frameBytes pending = ch.inbox ++ (helloTaken rounds ch ++ later))
    (working : (waitForHello rounds ch).1.failed = false) :
    ∃ left, (∀ f ∈ left, f ∈ pending) ∧ words frameBytes left = (waitForHello rounds ch).1.inbox ++ later := by
  induction rounds generalizing ch pending with
  | nil => exact ⟨pending, fun _ hf => hf, stream⟩
  | cons round rounds ih =>
      obtain ⟨results, again⟩ := round
      unfold waitForHello at working ⊢
      unfold helloTaken at stream
      simp only at working stream ⊢
      split at working
      · rename_i hello found
        simp only [found] at stream ⊢
        obtain ⟨left, rfl, tail⟩ := poll_pending fits stream
        exact ⟨left, fun f hf => by simp [hf], tail working⟩
      · rename_i none
        simp only [none] at stream ⊢
        split at working
        · rename_i ended
          rw [if_pos ended] at stream
          rw [if_pos ended]
          obtain ⟨left, rfl, tail⟩ := poll_pending fits stream
          exact ⟨left, fun f hf => by simp [hf], tail working⟩
        · rename_i more
          rw [if_neg more] at stream
          rw [if_neg more]
          rw [List.append_assoc] at stream
          obtain ⟨left, rfl, tail⟩ := poll_pending fits stream
          have goes : (ch.poll results).1.failed = false := by
            simp only [Channel.done, Bool.or_eq_true, not_or] at more
            simpa using more.1.1
          obtain ⟨left', sub, tail'⟩ := ih (fun g hg => fits g (by simp [hg])) (tail goes) working
          exact ⟨left', fun f hf => by simp [sub f hf], tail'⟩

/-! ## The two ends of a link -/

/-- What the host has still to read. -/
structure Upward (state : ByteString) (ch : Channel) (c : Child τ) (pending : List Incoming) (later : ByteString) :
    Prop where
  stream : words frameBytes pending = ch.inbox ++ (c.up ++ (c.out ++ later))
  whole : c.exited = false → later = []
  fits : ∀ f ∈ pending, f.payload.length < 2 ^ 32
  lineal : ∀ f ∈ pending, f.op = .snapshot → c.took = some state ∧ f.payload ∈ c.line

/-- How far the child has come with what the host has queued. -/
inductive Stage (state : ByteString) (ch : Channel) (c : Child τ) : List Incoming → Prop where
  | unrevived {rest : List Incoming} (young : c.took = none) (delivers : ∀ f ∈ rest, f.op = .deliver) :
      Stage state ch c (⟨.revive, state⟩ :: rest)
  | unheard (failed : ch.failed = true) : Stage state ch c []
  | revived {pending : List Incoming} (took : c.took = some state) (delivers : ∀ f ∈ pending, f.op = .deliver) :
      Stage state ch c pending

/-- What the child has still to read. -/
structure Downward (state : ByteString) (ch : Channel) (c : Child τ) (pending : List Incoming) (later : ByteString) :
    Prop where
  stream : words frameBytes pending = c.got ++ (c.down ++ later)
  unsent : ch.failed = false → later = ch.unsent ∧ ch.outPos ≤ ch.outbox.length
  small : ∀ f ∈ pending, Small f
  stage : Stage state ch c pending

structure Linked (state : ByteString) (ch : Channel) (c : Child τ) : Prop where
  upward : ch.failed = false → ∃ pending later, Upward state ch c pending later
  downward : c.exited = false → ∃ pending later, Downward state ch c pending later

/-! ## What the child does -/

/-- A Revive is taken without complaint, and no frame is too long for its header. -/
def Child.keepsFaith (lib : Library τ) (c : Child τ) (f : Incoming) : Bool :=
  (f.op ≠ .revive || (lib.revive c.abi c.inst f.payload c.memory).1 == zenOk) &&
    (c.serve lib f).2.all fun frame => frame.payload.length < 2 ^ 32

def ChildInput.faithful (lib : Library τ) (c : Child τ) : ChildInput → Bool
  | .recv n =>
      match scanFrame (c.got ++ c.down.take n) with
      | .frame f rest => Child.keepsFaith lib { c with down := c.down.drop n, got := rest } f
      | _ => true
  | _ => true

/-- A child that is in the line of `state` stays there. -/
def Heirs (state : ByteString) (c c' : Child τ) : Prop :=
  c.took = some state → c'.took = some state ∧ ∀ bytes ∈ c.line, bytes ∈ c'.line

theorem Heirs.refl (state : ByteString) (c : Child τ) : Heirs state c c := fun took => ⟨took, fun _ member => member⟩

/-- A frame after which the child is in the line of `state`. -/
structure Served (state : ByteString) (c : Child τ) (r : Child τ × List Incoming) : Prop where
  same : r.1 = { c with memory := r.1.memory, exited := r.1.exited, took := r.1.took, line := r.1.line }
  took : r.1.took = some state
  grows : c.took = some state → ∀ bytes ∈ c.line, bytes ∈ r.1.line
  lineal : ∀ f ∈ r.2, f.op = .snapshot → f.payload ∈ r.1.line

theorem emitSnapshot_served (lib : Library τ) {state : ByteString} {c : Child τ} (took : c.took = some state) :
    Served state c (c.emitSnapshot lib) := by
  unfold Child.emitSnapshot
  split
  split
  · exact ⟨rfl, took, fun _ _ member => member, nofun⟩
  · refine ⟨rfl, took, fun _ bytes member => List.mem_append_left _ member, ?_⟩
    intro f hf _
    rw [List.mem_singleton.mp hf]
    exact List.mem_append_right _ (List.mem_singleton_self _)

theorem serve_deliver (lib : Library τ) {state : ByteString} {c : Child τ} {f : Incoming}
    (took : c.took = some state) (deliver : f.op = .deliver) : Served state c (c.serve lib f) := by
  unfold Child.serve
  rw [if_pos deliver]
  split
  · exact ⟨rfl, took, fun _ _ member => member, nofun⟩
  · rename_i header bytes rest read
    have served := @emitSnapshot_served τ lib state
      { c with memory := (lib.handle c.abi c.inst header bytes c.memory).2 } took
    refine ⟨served.same, served.took, served.grows, ?_⟩
    intro g hg snapshot
    rcases List.mem_append.mp hg with emitted | later
    · obtain ⟨emission, _, rfl⟩ := List.mem_map.mp emitted
      cases emission <;> cases snapshot
    · exact served.lineal g later snapshot

theorem serve_revive {lib : Library τ} {state : ByteString} {c : Child τ} (young : c.took = none)
    (taken : (lib.revive c.abi c.inst state c.memory).1 = zenOk) :
    Served state c (c.serve lib ⟨.revive, state⟩) := by
  have served := @emitSnapshot_served τ lib state { c with
    memory := (lib.revive c.abi c.inst state c.memory).2
    took := if (lib.revive c.abi c.inst state c.memory).1 = zenOk then some state else none
    line := [] } (if_pos taken)
  refine ⟨served.same, served.took, ?_, served.lineal⟩
  intro took
  rw [young] at took
  cases took

theorem Stage.served {lib : Library τ} {state : ByteString} {ch : Channel} {c : Child τ} {f : Incoming}
    {left : List Incoming} (stage : Stage state ch c (f :: left)) (faithful : c.keepsFaith lib f = true) :
    Served state c (c.serve lib f) ∧ ∀ g ∈ left, g.op = .deliver := by
  cases stage with
  | unrevived young delivers =>
      simp only [Child.keepsFaith, ne_eq, not_true_eq_false, decide_false, Bool.false_or, Bool.and_eq_true,
        beq_iff_eq] at faithful
      exact ⟨serve_revive young faithful.1, delivers⟩
  | revived took delivers =>
      exact ⟨serve_deliver lib took (delivers f (by simp)), fun g hg => delivers g (by simp [hg])⟩

theorem Stage.same {state : ByteString} {ch : Channel} {c c' : Child τ} {pending : List Incoming}
    (h : Stage state ch c pending) (took : c'.took = c.took) : Stage state ch c' pending := by
  cases h with
  | unrevived young delivers => exact .unrevived (took.trans young) delivers
  | unheard failed => exact .unheard failed
  | revived before delivers => exact .revived (took.trans before) delivers

theorem serve_revival (lib : Library τ) (c : Child τ) (f : Incoming) : (c.serve lib f).1.revival = c.revival := by
  have saved : ∀ c : Child τ, (c.emitSnapshot lib).1.revival = c.revival := by
    intro c
    unfold Child.emitSnapshot
    split
    split <;> rfl
  unfold Child.serve
  split
  · split
    · rfl
    · exact saved _
  · split
    · exact saved _
    · split <;> rfl

theorem step_revival {lib : Library τ} {c c' : Child τ} {input : ChildInput}
    (action : Child.step lib input c = some c') : c'.revival = c.revival := by
  cases input with
  | dies =>
      cases action
      rfl
  | send n =>
      rw [Child.step] at action
      split at action
      · cases action
      · cases action
        rfl
  | recv n =>
      rw [Child.step] at action
      split at action
      · cases action
      · simp only at action
        split at action
        · cases action
          rfl
        · cases action
          rfl
        · cases action
          exact serve_revival lib _ _

theorem served_linked {state : ByteString} {ch : Channel} {c : Child τ} {r : Child τ × List Incoming}
    {left : List Incoming} {later : ByteString} (served : Served state c r)
    (fits : ∀ f ∈ r.2, f.payload.length < 2 ^ 32) (quiet : c.out = []) (running : c.exited = false)
    (upward : ch.failed = false → ∃ pending later, Upward state ch c pending later) (read : c.got = [])
    (stream : words frameBytes left = c.down ++ later)
    (unsent : ch.failed = false → later = ch.unsent ∧ ch.outPos ≤ ch.outbox.length)
    (small : ∀ f ∈ left, Small f) (delivers : ∀ f ∈ left, f.op = .deliver) :
    Linked state ch { r.1 with out := words frameBytes r.2 } := by
  have got : r.1.got = [] := by rw [served.same]; exact read
  have down : r.1.down = c.down := by rw [served.same]
  have up : r.1.up = c.up := by rw [served.same]
  refine ⟨?_, ?_⟩
  · intro working
    obtain ⟨pending, later, before⟩ := upward working
    have nothing := before.whole running
    refine ⟨pending ++ r.2, [], ?_, fun _ => rfl, ?_, ?_⟩
    · rw [words_append, before.stream, nothing, quiet, up]
      simp
    · intro f hf
      rcases List.mem_append.mp hf with old | new
      · exact before.fits f old
      · exact fits f new
    · intro f hf snapshot
      refine ⟨served.took, ?_⟩
      rcases List.mem_append.mp hf with old | new
      · obtain ⟨took, member⟩ := before.lineal f old snapshot
        exact served.grows took _ member
      · exact served.lineal f new snapshot
  · intro still
    refine ⟨left, later, ?_, unsent, small, .revived served.took delivers⟩
    rw [got, down]
    exact stream

theorem recv_linked {lib : Library τ} {state : ByteString} {ch : Channel} {c c' : Child τ} {n : Nat}
    (faithful : (ChildInput.recv n).faithful lib c = true) (linked : Linked state ch c)
    (action : Child.step lib (.recv n) c = some c') : Linked state ch c' ∧ Heirs state c c' := by
  rw [Child.step] at action
  split at action
  · cases action
  · rename_i ready
    simp only [not_or, Bool.not_eq_true, Decidable.not_not, Nat.not_lt] at ready
    obtain ⟨running, quiet, some, most, enough⟩ := ready
    obtain ⟨pending, later, before⟩ := linked.downward running
    have stream : words frameBytes pending = (c.got ++ c.down.take n) ++ (c.down.drop n ++ later) := by
      rw [before.stream]
      conv_lhs => rw [← List.take_append_drop n c.down]
      simp only [List.append_assoc]
    simp only at action
    cases scanned : scanFrame (c.got ++ c.down.take n) with
    | short =>
        rw [scanned] at action
        cases action
        refine ⟨⟨fun working => ?_, fun _ => ⟨pending, later, stream, before.unsent, before.small,
          before.stage.same rfl⟩⟩, .refl state c⟩
        obtain ⟨pending, later, upward⟩ := linked.upward working
        exact ⟨pending, later, upward.stream, upward.whole, upward.fits, upward.lineal⟩
    | bad =>
        rw [scanned] at action
        cases action
        refine ⟨⟨fun working => ?_, nofun⟩, .refl state c⟩
        obtain ⟨pending, later, upward⟩ := linked.upward working
        exact ⟨pending, later, upward.stream, nofun, upward.fits, upward.lineal⟩
    | frame f rest =>
        rw [scanned] at action
        cases action
        rw [ChildInput.faithful, scanned] at faithful
        obtain ⟨left, rfl, tail⟩ := scanFrame_pending (fun g hg => (before.small g hg).fits) stream scanned
        have taken : (c.down.take n).length ≤ wanted c.got := by
          rw [List.length_take]
          omega
        have nonempty : c.down.take n ≠ [] := by
          rw [← List.length_pos_iff, List.length_take]
          omega
        obtain rfl : rest = [] := wanted_exact taken nonempty scanned
        obtain ⟨served, delivers⟩ := Stage.served (c := { c with down := c.down.drop n, got := [] })
          (before.stage.same rfl) faithful
        simp only [Child.keepsFaith, Bool.and_eq_true, List.all_eq_true, decide_eq_true_eq] at faithful
        refine ⟨served_linked served faithful.2 quiet running ?_ rfl tail before.unsent
          (fun g hg => before.small g (by simp [hg])) delivers, fun took => ⟨served.took, served.grows took⟩⟩
        intro working
        obtain ⟨pending, later, upward⟩ := linked.upward working
        exact ⟨pending, later, upward.stream, upward.whole, upward.fits, upward.lineal⟩

theorem child_linked {lib : Library τ} {state : ByteString} {ch : Channel} {c c' : Child τ} {input : ChildInput}
    (faithful : input.faithful lib c = true) (linked : Linked state ch c)
    (action : Child.step lib input c = some c') : Linked state ch c' ∧ Heirs state c c' := by
  cases input with
  | dies =>
      cases action
      refine ⟨⟨?_, nofun⟩, .refl state c⟩
      intro working
      obtain ⟨pending, later, before⟩ := linked.upward working
      exact ⟨pending, c.out ++ later, by rw [before.stream]; rfl, nofun, before.fits, before.lineal⟩
  | send n =>
      rw [Child.step] at action
      split at action
      · cases action
      · cases action
        refine ⟨⟨?_, ?_⟩, .refl state c⟩
        · intro working
          obtain ⟨pending, later, before⟩ := linked.upward working
          refine ⟨pending, later, ?_, before.whole, before.fits, before.lineal⟩
          rw [before.stream]
          conv_lhs => rw [← List.take_append_drop n c.out]
          simp only [List.append_assoc]
        · intro running
          obtain ⟨pending, later, before⟩ := linked.downward running
          exact ⟨pending, later, before.stream, before.unsent, before.small, before.stage.same rfl⟩
  | recv n => exact recv_linked faithful linked action

end Zen.Isolation
