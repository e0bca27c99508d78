import Zen.Proof.Isolation.Buffers

/-!
# Which frames cross

A fresh channel takes a frame, and another one delivers it from any pieces of its bytes, where the
frame fits under the backlog cap with its header.
-/

namespace Zen.Isolation
open Lib

/-! ## One poll -/

theorem recvLoop_pieces {results : List RecvResult} (pieces : ∀ result ∈ results, result.isPiece) {ch : Channel}
    (bounded : ch.inbox.length ≤ kMaxBacklog) :
    ((ch.inbox ++ results.flatMap RecvResult.bytes).length ≤ kMaxBacklog ∧
      Channel.recvLoop results ch = { ch with inbox := ch.inbox ++ results.flatMap RecvResult.bytes }) ∨
    (kMaxBacklog < (ch.inbox ++ results.flatMap RecvResult.bytes).length ∧
      (Channel.recvLoop results ch).failed = true) := by
  induction results generalizing ch with
  | nil => exact Or.inl ⟨by simpa using bounded, by simp [Channel.recvLoop]⟩
  | cons result results ih =>
      obtain ⟨piece, later⟩ := List.forall_mem_cons.mp pieces
      cases result with
      | again => cases piece
      | broken => cases piece
      | interrupted => exact ih later bounded
      | data bytes =>
          have some : bytes ≠ [] := by simpa [RecvResult.isPiece] using piece
          rw [Channel.recvLoop, if_neg some, List.flatMap_cons, RecvResult.bytes, ← List.append_assoc]
          simp only
          by_cases excess : kMaxBacklog < (ch.inbox ++ bytes).length
          · rw [if_pos excess]
            refine Or.inr ⟨?_, rfl⟩
            rw [List.length_append]
            exact Nat.lt_of_lt_of_le excess (Nat.le_add_right _ _)
          · rw [if_neg excess]
            exact @ih later { ch with inbox := ch.inbox ++ bytes } (Nat.not_lt.mp excess)

variable {f : Incoming}

/-- A channel that has received this much of a frame, and nothing else has happened to it. -/
def receiving (got : ByteString) : Channel := { inbox := got }

theorem poll_pieces {results : List RecvResult} (pieces : ∀ result ∈ results, result.isPiece) {got word : ByteString}
    (received : got ++ results.flatMap RecvResult.bytes = word) (bounded : word.length ≤ kMaxBacklog)
    {frames : List Incoming} {left : ByteString} (scanned : scanAll scanFrame word.length word = (frames, left, true)) :
    (receiving got).poll results = (receiving left, frames) := by
  have before : (receiving got).inbox.length ≤ kMaxBacklog := by
    have size := congrArg List.length received
    rw [List.length_append] at size
    exact Nat.le_trans (Nat.le_trans (Nat.le_add_right _ _) (Nat.le_of_eq size)) bounded
  rcases recvLoop_pieces pieces before with ⟨-, loop⟩ | ⟨excess, -⟩
  · have loop : Channel.recvLoop results (receiving got) = receiving word := by rw [loop, ← received]; rfl
    rw [Channel.poll, if_neg (show ¬(receiving got).failed = true from nofun), loop]
    simp only
    rw [if_neg (show ¬(receiving word).failed = true from nofun), show (receiving word).inbox = word from rfl, scanned]
    rfl
  · exact absurd bounded (Nat.not_le.mpr (received ▸ excess))

theorem poll_over {results : List RecvResult} (pieces : ∀ result ∈ results, result.isPiece) {got : ByteString}
    (before : got.length ≤ kMaxBacklog) (excess : kMaxBacklog < (got ++ results.flatMap RecvResult.bytes).length) :
    ((receiving got).poll results).1.failed = true := by
  rcases @recvLoop_pieces results pieces (receiving got) before with ⟨within, -⟩ | ⟨-, failed⟩
  · exact absurd excess (Nat.not_lt.mpr within)
  · rw [Channel.poll, if_neg (show ¬(receiving got).failed = true from nofun)]
    simp only
    rw [if_pos failed]
    exact failed

theorem scanAll_part (small : Small f) {word : ByteString} (part : word <+: frameBytes f)
    (incomplete : word ≠ frameBytes f) : scanAll scanFrame word.length word = ([], word, true) := by
  cases word with
  | nil => rfl
  | cons b word => rw [List.length_cons, scanAll, scanFrame_part small part incomplete]

theorem scanAll_whole (small : Small f) : scanAll scanFrame (frameBytes f).length (frameBytes f) = ([f], [], true) := by
  have scanned := scanFrame_whole small []
  rw [List.append_nil] at scanned
  have size : (frameBytes f).length = f.payload.length + 4 + 1 := by rw [length_frameBytes]; omega
  rw [size, scanAll, scanned]
  rfl

/-! ## Every poll -/

theorem pollAll_failed (polls : List (List RecvResult)) {ch : Channel} (failed : ch.failed = true) :
    (Channel.pollAll polls ch).1.failed = true := by
  induction polls generalizing ch with
  | nil => exact failed
  | cons results polls ih => exact ih ((poll_spec ch results).failed failed)

theorem pollAll_quiet {polls : List (List RecvResult)}
    (pieces : ∀ results ∈ polls, ∀ result ∈ results, result.isPiece)
    (nothing : (polls.flatMap fun results => results.flatMap RecvResult.bytes) = []) :
    Channel.pollAll polls (receiving []) = (receiving [], []) := by
  induction polls with
  | nil => rfl
  | cons results polls ih =>
      obtain ⟨here, later⟩ := List.forall_mem_cons.mp pieces
      obtain ⟨none, nothing⟩ := List.append_eq_nil_iff.mp nothing
      have quiet : (receiving []).poll results = (receiving [], []) :=
        poll_pieces here none (Nat.zero_le _) rfl
      rw [Channel.pollAll, quiet]
      simp only
      rw [ih later nothing]
      rfl

theorem pollAll_delivers (small : Small f) (fits : 5 + f.payload.length ≤ kMaxBacklog) {polls : List (List RecvResult)}
    (pieces : ∀ results ∈ polls, ∀ result ∈ results, result.isPiece) {got : ByteString} (incomplete : got ≠ frameBytes f)
    (whole : got ++ (polls.flatMap fun results => results.flatMap RecvResult.bytes) = frameBytes f) :
    Channel.pollAll polls (receiving got) = (receiving [], [f]) := by
  induction polls generalizing got with
  | nil => exact absurd (by simpa using whole) incomplete
  | cons results polls ih =>
      obtain ⟨here, later⟩ := List.forall_mem_cons.mp pieces
      rw [List.flatMap_cons, ← List.append_assoc] at whole
      have part : got ++ results.flatMap RecvResult.bytes <+: frameBytes f := ⟨_, whole⟩
      have bounded : (got ++ results.flatMap RecvResult.bytes).length ≤ kMaxBacklog := by
        refine Nat.le_trans part.length_le ?_
        rw [length_frameBytes]
        exact fits
      rw [Channel.pollAll]
      by_cases complete : got ++ results.flatMap RecvResult.bytes = frameBytes f
      · have rest : (polls.flatMap fun results => results.flatMap RecvResult.bytes) = [] := by
          rw [complete] at whole
          simpa using whole
        rw [poll_pieces here complete (complete ▸ bounded) (scanAll_whole small)]
        simp only
        rw [pollAll_quiet later rest]
        rfl
      · rw [poll_pieces here rfl bounded (scanAll_part small part complete)]
        simp only
        rw [ih later complete whole]
        rfl

theorem pollAll_over (small : Small f) (large : kMaxBacklog < 5 + f.payload.length) {polls : List (List RecvResult)}
    (pieces : ∀ results ∈ polls, ∀ result ∈ results, result.isPiece) {got : ByteString} (before : got.length ≤ kMaxBacklog)
    (whole : got ++ (polls.flatMap fun results => results.flatMap RecvResult.bytes) = frameBytes f) :
    (Channel.pollAll polls (receiving got)).1.failed = true := by
  have short : ∀ {word : ByteString}, word.length ≤ kMaxBacklog → word ≠ frameBytes f := by
    rintro word within rfl
    rw [length_frameBytes] at within
    omega
  induction polls generalizing got with
  | nil => exact absurd (by simpa using whole) (short before)
  | cons results polls ih =>
      obtain ⟨here, later⟩ := List.forall_mem_cons.mp pieces
      rw [List.flatMap_cons, ← List.append_assoc] at whole
      by_cases within : (got ++ results.flatMap RecvResult.bytes).length ≤ kMaxBacklog
      · rw [Channel.pollAll, poll_pieces here rfl within (scanAll_part small ⟨_, whole⟩ (short within))]
        exact ih later within whole
      · exact pollAll_failed polls (poll_over here before (Nat.not_le.mp within))

theorem delivers_iff (small : Small f) {polls : List (List RecvResult)} (segments : Segments polls (frameBytes f)) :
    Delivers polls f ↔ 5 + f.payload.length ≤ kMaxBacklog := by
  have nonempty : ([] : ByteString) ≠ frameBytes f := (framing.nonempty f).symm
  constructor
  · intro delivers
    by_contra large
    have failed := @pollAll_over f small (Nat.not_le.mp large) polls segments.pieces [] (Nat.zero_le _) segments.whole
    cases failed.symm.trans delivers.1
  · intro fits
    have all : Channel.pollAll polls {} = (receiving [], [f]) :=
      pollAll_delivers small fits segments.pieces nonempty segments.whole
    rw [Delivers, all]
    exact ⟨rfl, rfl⟩

theorem queue_empty (op : Op) {payload : ByteString} : (({} : Channel).queue op payload).failed = false ↔
    payload.length ≤ kMaxFrameLen ∧ 5 + payload.length ≤ kMaxBacklog := by
  rw [queue_works (Nat.le_refl _)]
  simp

/-- A payload over the frame cap fails the link. One within it can be queued, and is delivered from any pieces of
its frame, if and only if it leaves room under the backlog cap for the header. -/
theorem frame_crosses_with_its_header (op : Op) (payload : ByteString) :
    (kMaxFrameLen < payload.length → (({} : Channel).queue op payload).failed = true) ∧
    (payload.length ≤ kMaxFrameLen →
      ((({} : Channel).queue op payload).failed = false ↔ payload.length + 5 ≤ kMaxBacklog) ∧
      ∀ polls, Segments polls (frameBytes ⟨op, payload⟩) →
        (Delivers polls ⟨op, payload⟩ ↔ payload.length + 5 ≤ kMaxBacklog)) := by
  constructor
  · intro large
    by_contra works
    exact Nat.not_le.mpr large ((queue_empty op).mp (by simpa using works)).1
  · intro small
    rw [Nat.add_comm payload.length]
    refine ⟨?_, fun polls segments => delivers_iff (f := ⟨op, payload⟩) small segments⟩
    rw [queue_empty]
    exact and_iff_right small

def splitPolls : List (List RecvResult) := [[.data [1, 0]], [.interrupted, .data [0, 0, 16]], [], [.data [7]]]

theorem frame_crosses_with_its_header_split : Delivers splitPolls ⟨.deliver, [7]⟩ :=
  (((frame_crosses_with_its_header .deliver [7]).2 (by decide)).2 splitPolls ⟨by decide, rfl⟩).mpr (by decide)

/-- The largest payload that the frame cap allows. -/
theorem largest_frame_fails : (List.replicate kMaxFrameLen (0 : UInt8)).length ≤ kMaxFrameLen ∧
    (({} : Channel).queue .deliver (List.replicate kMaxFrameLen 0)).failed = true := by
  refine ⟨Nat.le_of_eq List.length_replicate, ?_⟩
  by_contra works
  have fits := ((queue_empty .deliver).mp (by simpa using works)).2
  rw [List.length_replicate] at fits
  exact absurd fits (by decide)

end Zen.Isolation
