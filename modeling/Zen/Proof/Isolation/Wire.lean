import Zen.Isolation.Wire
import Zen.Proof.Core.Binary

/-!
# The link keeps frames whole and in order

`scanFrame` reads back what `frameBytes` writes, so in each direction the bytes between the two ends
are the words of the frames that have not come out yet.
-/

namespace Zen.Isolation
open Lib

def Small (f : Incoming) : Prop := f.payload.length ≤ kMaxFrameLen

/-! ## Frames -/

theorem length_header (f : Incoming) : (putU32 (UInt32.ofNat f.payload.length) ++ putU8 f.op.value).length = 5 := by
  simp [putU32, putU8]

theorem Small.fits {f : Incoming} (small : Small f) : f.payload.length < 2 ^ 32 :=
  Nat.lt_of_le_of_lt small (by decide)

theorem readLe_header {f : Incoming} (fits : f.payload.length < 2 ^ 32) (rest : ByteString) :
    readLe ((frameBytes f ++ rest).take 4) = f.payload.length := by
  have header : (frameBytes f ++ rest).take 4 = putLe 4 (UInt32.ofNat f.payload.length).toNat := by
    rw [frameBytes, putU32, List.append_assoc, List.append_assoc, List.take_append_of_le_length (by simp)]
    simp [List.take_of_length_le]
  rw [header, UInt32.toNat_ofNat_of_lt' fits, readLe_putLe fits]

theorem scanFrame_whole {f : Incoming} (small : Small f) (rest : ByteString) :
    scanFrame (frameBytes f ++ rest) = .frame f rest := by
  have header := readLe_header small.fits rest
  have size : (frameBytes f ++ rest).length = 5 + f.payload.length + rest.length := by
    rw [List.length_append, frameBytes, List.length_append, length_header]
  have op : (frameBytes f ++ rest).getD 4 0 = f.op.value := by
    rw [frameBytes, putU32, putU8, List.append_assoc, List.append_assoc, List.getD_append_right _ _ _ _ (by simp)]
    simp
  have body : (frameBytes f ++ rest).drop 5 = f.payload ++ rest := by
    rw [frameBytes, List.append_assoc, List.drop_left' (length_header f)]
  unfold scanFrame
  rw [if_neg (by omega)]
  simp only [header]
  rw [if_neg (Nat.not_lt.mpr small), if_neg (by omega), op, ← List.drop_drop, body]
  simp

theorem scanFrame_part {f : Incoming} (small : Small f) {input : ByteString} (part : input <+: frameBytes f)
    (incomplete : input ≠ frameBytes f) : scanFrame input = .short := by
  obtain ⟨missing, whole⟩ := part
  have size : input.length + missing.length = 5 + f.payload.length := by
    rw [← List.length_append, whole, frameBytes, List.length_append, length_header]
  have lacks : 0 < missing.length := by
    apply List.length_pos_iff.mpr
    rintro rfl
    exact incomplete (by simpa using whole)
  unfold scanFrame
  split
  · rfl
  · rename_i long
    have header : readLe (input.take 4) = f.payload.length := by
      have first := readLe_header small.fits []
      rw [List.append_nil, ← whole, List.take_append_of_le_length (by omega)] at first
      exact first
    simp only [header]
    rw [if_neg (Nat.not_lt.mpr small), if_pos (by omega)]

theorem framing : Framing frameBytes scanFrame Small where
  nonempty f := by
    intro none
    have size := congrArg List.length none
    rw [frameBytes, List.length_append, length_header] at size
    simp at size
  empty := rfl
  whole f rest small := scanFrame_whole small rest
  part f input small part incomplete := scanFrame_part small part incomplete

/-! ## The channel -/

def Channel.unsent (ch : Channel) : ByteString := ch.outbox.drop ch.outPos

theorem queue_failed {ch : Channel} {op : Op} {payload : ByteString} (h : (ch.queue op payload).failed = false) :
    ch.failed = false := by
  unfold Channel.queue at h
  split at h
  · exact h
  · rename_i working
    simpa using working

theorem queue_unsent {ch : Channel} {f : Incoming} (bound : ch.outPos ≤ ch.outbox.length)
    (h : (ch.queue f.op f.payload).failed = false) :
    (ch.queue f.op f.payload).unsent = ch.unsent ++ frameBytes f ∧
      (ch.queue f.op f.payload).outPos ≤ (ch.queue f.op f.payload).outbox.length ∧
      (ch.queue f.op f.payload).inbox = ch.inbox := by
  have working := queue_failed h
  unfold Channel.queue at h ⊢
  rw [working] at h ⊢
  simp only [Bool.false_eq_true, if_false] at h ⊢
  split at h
  · cases h
  · rename_i fits
    rw [if_neg fits]
    split at h
    · cases h
    · rename_i room
      rw [if_neg room]
      refine ⟨List.drop_append_of_le_length bound, ?_, rfl⟩
      rw [List.length_append]
      exact Nat.le_trans bound (Nat.le_add_right _ _)

theorem flushLoop_unsent (results : List SendResult) {ch : Channel} (bound : ch.outPos ≤ ch.outbox.length) :
    (Channel.flushLoop results ch).2 ++ (Channel.flushLoop results ch).1.unsent = ch.unsent ∧
      (Channel.flushLoop results ch).1.outPos ≤ (Channel.flushLoop results ch).1.outbox.length ∧
      (Channel.flushLoop results ch).1.inbox = ch.inbox := by
  induction results generalizing ch with
  | nil => exact ⟨rfl, bound, rfl⟩
  | cons result results ih =>
      unfold Channel.flushLoop
      split
      · cases result with
        | again => exact ⟨rfl, bound, rfl⟩
        | broken => exact ⟨rfl, bound, rfl⟩
        | interrupted => exact ih bound
        | sent n =>
            cases n with
            | zero => exact ⟨rfl, bound, rfl⟩
            | succ n =>
                simp only
                have taken : ((ch.outbox.drop ch.outPos).take (n + 1)).length ≤ ch.outbox.length - ch.outPos := by
                  rw [List.length_take, List.length_drop]
                  exact Nat.min_le_right _ _
                have bound' : ch.outPos + ((ch.outbox.drop ch.outPos).take (n + 1)).length ≤ ch.outbox.length := by
                  omega
                obtain ⟨unsent, inside, inbox⟩ :=
                  @ih { ch with outPos := ch.outPos + ((ch.outbox.drop ch.outPos).take (n + 1)).length } bound'
                refine ⟨?_, inside, inbox⟩
                rw [List.append_assoc, unsent]
                simp only [Channel.unsent]
                rw [← List.drop_drop]
                generalize ch.outbox.drop ch.outPos = waiting
                rw [List.length_take]
                conv_rhs => rw [← List.take_append_drop (n + 1) waiting]
                congr 1
                by_cases short : n + 1 ≤ waiting.length
                · rw [Nat.min_eq_left short]
                · rw [Nat.min_eq_right (by omega), List.drop_of_length_le (Nat.le_refl _),
                    List.drop_of_length_le (by omega)]
      · exact ⟨rfl, bound, rfl⟩

theorem flush_unsent (results : List SendResult) {ch : Channel} (bound : ch.outPos ≤ ch.outbox.length) :
    (ch.flush results).2 ++ (ch.flush results).1.unsent = ch.unsent ∧
      (ch.flush results).1.outPos ≤ (ch.flush results).1.outbox.length ∧
      (ch.flush results).1.inbox = ch.inbox := by
  unfold Channel.flush
  split
  · exact ⟨rfl, bound, rfl⟩
  · obtain ⟨unsent, inside, inbox⟩ := flushLoop_unsent results bound
    generalize Channel.flushLoop results ch = result at unsent inside inbox
    obtain ⟨ch', taken⟩ := result
    simp only at unsent inside inbox ⊢
    split
    · exact ⟨unsent, inside, inbox⟩
    · split
      · rename_i all
        refine ⟨?_, Nat.le_refl _, inbox⟩
        rw [← unsent]
        congr 1
        exact (List.drop_eq_nil_of_le (Nat.le_of_eq all.symm)).symm
      · exact ⟨unsent, inside, inbox⟩

theorem recvLoop_inbox (results : List RecvResult) {ch : Channel} (h : (Channel.recvLoop results ch).failed = false) :
    (Channel.recvLoop results ch).inbox = ch.inbox ++ Channel.recvTaken results ch ∧
      (Channel.recvLoop results ch).outbox = ch.outbox ∧ (Channel.recvLoop results ch).outPos = ch.outPos := by
  induction results generalizing ch with
  | nil => exact ⟨(List.append_nil _).symm, rfl, rfl⟩
  | cons result results ih =>
      cases result with
      | again => exact ⟨(List.append_nil _).symm, rfl, rfl⟩
      | broken => cases h
      | interrupted => exact ih h
      | data bytes =>
          unfold Channel.recvLoop at h ⊢
          unfold Channel.recvTaken
          split
          · rename_i none
            subst none
            exact ⟨(List.append_nil _).symm, rfl, rfl⟩
          · rename_i some
            rw [if_neg some] at h
            simp only at h ⊢
            split
            · rename_i exhausted
              rw [if_pos exhausted] at h
              cases h
            · rename_i room
              rw [if_neg room] at h
              obtain ⟨inbox, outbox, outPos⟩ := @ih { ch with inbox := ch.inbox ++ bytes } h
              have goes : ¬ (bytes = [] ∨ kMaxBacklog < (ch.inbox ++ bytes).length) := by
                rintro (none | exhausted)
                · exact some none
                · exact room exhausted
              rw [if_neg goes]
              exact ⟨by rw [inbox, List.append_assoc], outbox, outPos⟩

theorem poll_failed {ch : Channel} {results : List RecvResult} (h : (ch.poll results).1.failed = false) :
    ch.failed = false ∧ (Channel.recvLoop results ch).failed = false := by
  unfold Channel.poll at h
  split at h
  · rename_i failed
    rw [failed] at h
    cases h
  · rename_i working
    refine ⟨by simpa using working, ?_⟩
    simp only at h
    split at h
    · rename_i failed
      rw [failed] at h
      cases h
    · rename_i fine
      simpa using fine

theorem poll_eq {ch : Channel} {results : List RecvResult} (h : (ch.poll results).1.failed = false) :
    ch.poll results =
      let received := Channel.recvLoop results ch
      let scanned := scanAll scanFrame received.inbox.length received.inbox
      ({ received with inbox := scanned.2.1, failed := !scanned.2.2 }, scanned.1) := by
  obtain ⟨working, fine⟩ := poll_failed h
  unfold Channel.poll
  simp only [working, fine, Bool.false_eq_true, if_false]

/-! ## Runs -/

structure Wire.Flows (w : Wire) : Prop where
  bound : w.channel.outPos ≤ w.channel.outbox.length
  downward : Carries frameBytes w.queued w.received (w.got ++ (w.down ++ w.channel.unsent))
  waits : scanFrame w.got = .short
  upward : Carries frameBytes w.sent w.polled (w.channel.inbox ++ (w.up ++ w.sending))
  rest : scanFrame w.channel.inbox = .short
  smallDown : ∀ f ∈ w.queued, Small f
  smallUp : ∀ f ∈ w.sent, Small f

def Wire.Ok (w : Wire) : Prop := w.channel.failed = false → w.broken = false → w.Flows

def WireInput.small : WireInput → Prop
  | queue f | childSendFrame f => Small f
  | _ => True

theorem Wire.Ok.start : ({} : Wire).Ok := fun _ _ =>
  ⟨Nat.le_refl _, .start, rfl, .start, rfl, nofun, nofun⟩

theorem small_snoc {frames : List Incoming} {f : Incoming} (all : ∀ f ∈ frames, Small f) (small : Small f) :
    ∀ f' ∈ frames ++ [f], Small f' := by
  intro f' mem
  rcases List.mem_append.mp mem with mem | mem
  · exact all f' mem
  · rw [List.mem_singleton.mp mem]
    exact small

theorem queue_ok {w : Wire} {f : Incoming} (h : w.Ok) (small : Small f) :
    Wire.Ok { w with channel := w.channel.queue f.op f.payload, queued := w.queued ++ [f] } := by
  intro working fine
  have flows := h (queue_failed working) fine
  obtain ⟨unsent, bound, inbox⟩ := queue_unsent flows.bound working
  have downward := flows.downward.push f
  rw [List.append_assoc, List.append_assoc, ← unsent] at downward
  have upward := flows.upward
  have rest := flows.rest
  rw [← inbox] at upward rest
  exact ⟨bound, downward, flows.waits, upward, rest, small_snoc flows.smallDown small, flows.smallUp⟩

theorem flush_ok {w : Wire} {results : List SendResult} (h : w.Ok) :
    Wire.Ok { w with channel := (w.channel.flush results).1, down := w.down ++ (w.channel.flush results).2 } := by
  intro working fine
  have bound : w.channel.failed = false → w.channel.outPos ≤ w.channel.outbox.length :=
    fun before => (h before fine).bound
  have before : w.channel.failed = false := by
    cases failed : w.channel.failed with
    | false => rfl
    | true =>
        simp only [Channel.flush, failed, if_true] at working
        cases working
  have flows := h before fine
  obtain ⟨unsent, bound, inbox⟩ := flush_unsent results flows.bound
  have downward := flows.downward
  rw [← unsent, ← List.append_assoc w.down] at downward
  have upward := flows.upward
  have rest := flows.rest
  rw [← inbox] at upward rest
  exact ⟨bound, downward, flows.waits, upward, rest, flows.smallDown, flows.smallUp⟩

theorem poll_ok {w : Wire} {results : List RecvResult} (h : w.Ok)
    (arrived : Channel.recvTaken results w.channel <+: w.up) :
    Wire.Ok { w with
      channel := (w.channel.poll results).1
      up := w.up.drop (Channel.recvTaken results w.channel).length
      polled := w.polled ++ (w.channel.poll results).2 } := by
  intro working fine
  obtain ⟨before, received⟩ := poll_failed working
  have flows := h before fine
  obtain ⟨inbox, outbox, outPos⟩ := recvLoop_inbox results received
  obtain ⟨later, stream⟩ := arrived
  have upward := flows.upward
  rw [← stream, List.append_assoc, ← List.append_assoc w.channel.inbox, ← inbox] at upward
  obtain ⟨more, rest, scanned, carried, short⟩ := upward.take framing flows.smallUp (Nat.le_refl _)
  have polled := poll_eq working
  simp only [scanned] at polled
  have left : w.up.drop (Channel.recvTaken results w.channel).length = later := by
    rw [← stream, List.drop_left]
  rw [polled, left]
  refine ⟨?_, ?_, flows.waits, carried, short, flows.smallDown, flows.smallUp⟩
  · rw [outbox, outPos]
    exact flows.bound
  · simp only [Channel.unsent, outbox, outPos]
    exact flows.downward

theorem scanFrame_rest {input rest : ByteString} {f : Incoming} (scanned : scanFrame input = .frame f rest) :
    5 + readLe (input.take 4) ≤ input.length ∧ rest = input.drop (5 + readLe (input.take 4)) := by
  unfold scanFrame at scanned
  split at scanned
  · cases scanned
  · simp only at scanned
    split at scanned
    · cases scanned
    · split at scanned
      · cases scanned
      · rename_i long
        cases scanned
        exact ⟨Nat.not_lt.mp long, rfl⟩

-- `read_exact` asks for no more than the frame it reads, so nothing of the next one is with it
theorem wanted_exact {got piece rest : ByteString} {f : Incoming} (most : piece.length ≤ wanted got)
    (some : piece ≠ []) (scanned : scanFrame (got ++ piece) = .frame f rest) : rest = [] := by
  obtain ⟨long, rfl⟩ := scanFrame_rest scanned
  apply List.drop_eq_nil_of_le
  have pieces := List.length_pos_iff.mpr some
  unfold wanted at most
  rw [List.length_append] at long ⊢
  split at most
  · omega
  · rename_i header
    rw [List.take_append_of_le_length (by omega)] at long ⊢
    omega

theorem childRecv_ok {w w' : Wire} {n : Nat} (h : w.Ok) (action : w.childRecv n = some w') : w'.Ok := by
  unfold Wire.childRecv at action
  split at action
  · cases action
  · rename_i asked
    simp only at action
    have arrived : w.down.take n ++ w.down.drop n = w.down := List.take_append_drop n w.down
    have stream : ∀ {bytes}, w.got ++ (w.down ++ bytes) = (w.got ++ w.down.take n) ++ (w.down.drop n ++ bytes) := by
      intro bytes
      conv_lhs => rw [← arrived]
      simp only [List.append_assoc]
    split at action
    · rename_i short
      cases action
      intro working fine
      have flows := h working fine
      have downward := flows.downward
      rw [stream] at downward
      exact ⟨flows.bound, downward, short, flows.upward, flows.rest, flows.smallDown, flows.smallUp⟩
    · cases action
      intro _ fine
      cases fine
    · rename_i f rest scanned
      cases action
      intro working fine
      have flows := h working fine
      have downward := flows.downward
      rw [stream] at downward
      have carried := downward.takeOne framing flows.smallDown scanned
      simp only [not_or, Nat.not_lt] at asked
      obtain ⟨_, positive, most, enough⟩ := asked
      have size : (w.down.take n).length = n := by
        rw [List.length_take, Nat.min_eq_left enough]
      have exact_piece : rest = [] := by
        refine wanted_exact (by rw [size]; exact most) ?_ scanned
        rw [← List.length_pos_iff, size]
        omega
      subst exact_piece
      exact ⟨flows.bound, carried, rfl, flows.upward, flows.rest, flows.smallDown, flows.smallUp⟩

theorem wire_step {input : WireInput} {w w' : Wire} (small : input.small) (h : w.Ok)
    (action : Wire.step input w = some w') : w'.Ok := by
  cases input with
  | queue f =>
      cases action
      exact queue_ok h small
  | flush results =>
      cases action
      exact flush_ok h
  | poll results =>
      rw [Wire.step] at action
      split at action
      · cases action
        exact h
      · simp only at action
        split at action
        · rename_i arrived
          cases action
          exact poll_ok h arrived
        · cases action
  | childRecv n => exact childRecv_ok h action
  | childSendFrame f =>
      rw [Wire.step] at action
      split at action
      · cases action
      · rename_i idle
        cases action
        intro working fine
        have flows := h working fine
        simp only [not_or, Decidable.not_not] at idle
        have upward := flows.upward.push f
        rw [idle.2, List.append_nil, List.append_assoc] at upward
        exact ⟨flows.bound, flows.downward, flows.waits, upward, flows.rest, flows.smallDown,
          small_snoc flows.smallUp small⟩
  | childSend n =>
      rw [Wire.step] at action
      split at action
      · cases action
      · cases action
        intro working fine
        have flows := h working fine
        have upward := flows.upward
        rw [← List.take_append_drop n w.sending, ← List.append_assoc w.up] at upward
        exact ⟨flows.bound, flows.downward, flows.waits, upward, flows.rest, flows.smallDown, flows.smallUp⟩
  | childFails =>
      cases action
      intro _ fine
      cases fine

/-! ## Headers -/

theorem u64_parses (v : UInt64) : Parses Cursor.u64 (putU64 v) v := fun _ => Proof.u64le_ok.mpr rfl

theorem u8_parses (v : UInt8) : Parses Cursor.u8 (putU8 v) v := fun _ => rfl

theorem bind_parsed {α γ : Type} {read : Cursor α} {f : α → Cursor γ} {word rest : ByteString} {a : α}
    (parses : Parses read word a) : (read >>= f).run (word ++ rest) = (f a).run rest :=
  bind_of_ok (parses rest)

theorem readDeliver_deliverPayload (header : DeliverHeader) (bytes : ByteString) :
    readDeliver.run (deliverPayload header bytes) = .ok (header, bytes) [] := by
  rw [readDeliver, deliverPayload, List.append_assoc, List.append_assoc, bind_parsed (u64_parses header.sender),
    bind_parsed (u64_parses header.replyTo), bind_parsed (u64_parses header.correlation)]
  rfl

theorem readEmit_emitPayload (header : EmitHeader) (bytes : ByteString) :
    readEmit.run (emitPayload header bytes) = .ok (header, bytes) [] := by
  rw [readEmit, emitPayload, List.append_assoc, List.append_assoc, List.append_assoc,
    bind_parsed (u8_parses header.kind), bind_parsed (u64_parses header.target),
    bind_parsed (u64_parses header.replyTo), bind_parsed (u64_parses header.correlation)]
  rfl

/-! ## The link -/

theorem link_neither_loses_nor_reorders {inputs : List WireInput} {w : Wire}
    (run : Run Wire.step {} inputs w) (small : ∀ input ∈ inputs, input.small)
    (working : w.channel.failed = false) (fine : w.broken = false) :
    w.received <+: w.queued ∧ w.polled <+: w.sent ∧
    (w.channel.unsent = [] → w.down = [] → w.received = w.queued) ∧
    (w.sending = [] → w.up = [] → w.polled = w.sent) ∧
    (∀ header bytes, readDeliver.run (deliverPayload header bytes) = .ok (header, bytes) []) ∧
    ∀ header bytes, readEmit.run (emitPayload header bytes) = .ok (header, bytes) [] := by
  have ok : w.Ok := run.preserves (fun _ _ _ allowed h action => wire_step allowed h action) small .start
  have flows := ok working fine
  refine ⟨flows.downward.taken_prefix, flows.upward.taken_prefix, ?_, ?_, readDeliver_deliverPayload,
    readEmit_emitPayload⟩
  · intro flushed empty
    have downward := flows.downward
    rw [flushed, empty, List.append_nil, List.append_nil] at downward
    exact downward.drained framing flows.smallDown flows.waits
  · intro written empty
    have upward := flows.upward
    rw [written, empty, List.append_nil, List.append_nil] at upward
    exact upward.drained framing flows.smallUp flows.rest

-- two frames down in three pieces, one frame up in two, and half of a second one
def wireRun : List WireInput :=
  [.queue ⟨.revive, [7]⟩, .flush [.sent 3, .interrupted, .again], .queue ⟨.shutdown, []⟩, .childRecv 2,
    .flush [.sent 100], .childRecv 3, .childRecv 1, .childRecv 5, .childSendFrame ⟨.snapshot, [8, 9]⟩, .childSend 4,
    .poll [.data [2, 0], .interrupted, .data [0], .again], .childSend 3, .childSendFrame ⟨.emit, []⟩, .childSend 2,
    .poll [.data [0, 3, 8, 9, 0, 0]]]

theorem link_neither_loses_nor_reorders_example : ∃ w, Run Wire.step {} wireRun w ∧ w.polled <+: w.sent ∧
    w.received = w.queued ∧ w.received = [⟨.revive, [7]⟩, ⟨.shutdown, []⟩] ∧ w.polled = [⟨.snapshot, [8, 9]⟩] := by
  have evaluated : (exec Wire.step wireRun {}).map (fun w => (w.channel.failed || w.broken,
      w.channel.unsent ++ w.down, w.received, w.polled)) =
        some (false, [], [⟨.revive, [7]⟩, ⟨.shutdown, []⟩], [⟨.snapshot, [8, 9]⟩]) := by
    decide +kernel
  obtain ⟨w, reached, seen⟩ := Option.map_eq_some_iff.mp evaluated
  simp only [Prod.mk.injEq, Bool.or_eq_false_iff, List.append_eq_nil_iff] at seen
  obtain ⟨⟨working, fine⟩, ⟨flushed, empty⟩, received, polled⟩ := seen
  have run := Run.of_exec reached
  have small : ∀ input ∈ wireRun, input.small := by
    simp [wireRun, WireInput.small, Small, kMaxFrameLen]
  have link := link_neither_loses_nor_reorders run small working fine
  exact ⟨w, run, link.2.1, link.2.2.1 flushed empty, received, polled⟩

end Zen.Isolation
