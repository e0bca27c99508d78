import Zen.Proof.Isolation.Spawn
import Zen.Spec.Channel

/-!
# The buffers of a channel

The cap counts the bytes that are not sent yet and the header of the frame, so sent bytes can pile up
beneath it and the largest payloads do not fit under it.
-/

namespace Zen.Isolation
open Lib

/-! ## Outbox -/

theorem length_frameBytes (f : Incoming) : (frameBytes f).length = 5 + f.payload.length := by
  rw [frameBytes, List.length_append, length_header]

theorem queue_outbox {ch : Channel} {op : Op} {payload : ByteString} (h : (ch.queue op payload).failed = false) :
    (ch.queue op payload).outbox.length = ch.outbox.length + 5 + payload.length := by
  unfold Channel.queue at h ⊢
  split
  · rename_i failed
    rw [if_pos failed, failed] at h
    cases h
  · rename_i working
    rw [if_neg working] at h
    split
    · rename_i large
      rw [if_pos large] at h
      cases h
    · rename_i small
      simp only
      rw [if_neg small] at h
      simp only at h
      have grown : (ch.outbox ++ frameBytes ⟨op, payload⟩).length = ch.outbox.length + 5 + payload.length := by
        rw [List.length_append, length_frameBytes, Nat.add_assoc]
      split <;> exact grown

theorem queue_works {ch : Channel} {op : Op} {payload : ByteString} (inside : ch.outPos ≤ ch.outbox.length) :
    (ch.queue op payload).failed = false ↔ ch.failed = false ∧ payload.length ≤ kMaxFrameLen ∧
      ch.outbox.length - ch.outPos + 5 + payload.length ≤ kMaxBacklog := by
  unfold Channel.queue
  cases failed : ch.failed with
  | true => simp [failed]
  | false =>
      by_cases large : kMaxFrameLen < payload.length
      · simp [large, Nat.not_le.mpr large]
      · have grown : (ch.outbox ++ frameBytes ⟨op, payload⟩).length - ch.outPos =
            ch.outbox.length - ch.outPos + 5 + payload.length := by
          rw [List.length_append, length_frameBytes]
          simp only
          omega
        simp only [Bool.false_eq_true, if_false, large, grown, true_and, Nat.not_lt.mp large]
        split
        · rename_i excess
          simp [Nat.not_le.mpr excess]
        · rename_i room
          simp [Nat.not_lt.mp room]

theorem flushLoop_outbox (results : List SendResult) (ch : Channel) :
    (Channel.flushLoop results ch).1.outbox = ch.outbox := by
  induction results generalizing ch with
  | nil => rfl
  | cons result results ih =>
      unfold Channel.flushLoop
      split
      · split
        · rfl
        · rfl
        · exact ih _
        · rfl
        · exact ih _
      · rfl

theorem flush_outbox (results : List SendResult) (ch : Channel) :
    (ch.flush results).1.outbox.length ≤ ch.outbox.length := by
  have kept := flushLoop_outbox results ch
  unfold Channel.flush
  split
  · exact Nat.le_refl _
  · simp only
    split
    · rw [kept]
    · split
      · exact Nat.zero_le _
      · rw [kept]

/-! ## Runs -/

/-- A working channel has sent no more than it holds, and holds no more than it may. -/
structure Channel.Held (ch : Channel) : Prop where
  inside : ch.outPos ≤ ch.outbox.length
  bounded : ch.Bounded

theorem Channel.Held.start : Channel.Held {} := ⟨Nat.le_refl _, fun _ => ⟨Nat.zero_le _, Nat.zero_le _⟩⟩

theorem queue_keeps (ch : Channel) (op : Op) (payload : ByteString) :
    (ch.queue op payload).outPos = ch.outPos ∧ (ch.queue op payload).inbox = ch.inbox ∧
      ch.outbox.length ≤ (ch.queue op payload).outbox.length := by
  unfold Channel.queue
  split
  · exact ⟨rfl, rfl, Nat.le_refl _⟩
  · split
    · exact ⟨rfl, rfl, Nat.le_refl _⟩
    · have grown : ch.outbox.length ≤ (ch.outbox ++ frameBytes ⟨op, payload⟩).length := by
        rw [List.length_append]
        exact Nat.le_add_right _ _
      simp only
      split <;> exact ⟨rfl, rfl, grown⟩

theorem queue_bounded {ch : Channel} (held : ch.Held) (op : Op) (payload : ByteString) :
    (ch.queue op payload).Bounded ↔ Channel.Room (.queue op payload) ch := by
  obtain ⟨-, inbox, -⟩ := queue_keeps ch op payload
  constructor
  · intro bounded working small
    by_cases fits : ch.outbox.length - ch.outPos + 5 + payload.length ≤ kMaxBacklog
    · have works : (ch.queue op payload).failed = false := (queue_works held.inside).mpr ⟨working, small, fits⟩
      rw [← queue_outbox works]
      exact Or.inl (bounded works).1
    · exact Or.inr (Nat.not_le.mp fits)
  · intro room works
    obtain ⟨working, small, fits⟩ := (queue_works held.inside).mp works
    rw [queue_outbox works, inbox]
    refine ⟨?_, (held.bounded working).2⟩
    rcases room working small with within | excess
    · exact within
    · exact absurd fits (Nat.not_le.mpr excess)

theorem flush_held {ch : Channel} (held : ch.Held) (results : List SendResult) : (ch.flush results).1.Held := by
  obtain ⟨-, inside, inbox⟩ := flush_unsent results held.inside
  refine ⟨inside, fun works => ?_⟩
  have working : ch.failed = false := by
    cases failed : ch.failed with
    | false => rfl
    | true =>
        unfold Channel.flush at works
        rw [if_pos failed, failed] at works
        cases works
  rw [inbox]
  exact ⟨Nat.le_trans (flush_outbox results ch) (held.bounded working).1, (held.bounded working).2⟩

theorem poll_held {ch : Channel} (held : ch.Held) (results : List RecvResult) : (ch.poll results).1.Held := by
  have polled := poll_spec ch results
  refine ⟨?_, fun works => ?_⟩
  · rw [polled.outbox, polled.outPos]
    exact held.inside
  · have working := (poll_failed works).1
    rw [polled.outbox]
    exact ⟨(held.bounded working).1, polled.sound (fun _ => (held.bounded working).2) works⟩

/-- A step from a bounded channel keeps it so if there is room, and only then. -/
theorem step_bounded {input : ChannelInput} {ch ch' : Channel} (held : ch.Held)
    (action : Channel.step input ch = some ch') : ch'.outPos ≤ ch'.outbox.length ∧ (ch'.Bounded ↔ Channel.Room input ch) := by
  cases input with
  | queue op payload =>
      cases action
      obtain ⟨outPos, -, grown⟩ := queue_keeps ch op payload
      exact ⟨outPos ▸ Nat.le_trans held.inside grown, queue_bounded held op payload⟩
  | flush results =>
      cases action
      have after := flush_held held results
      exact ⟨after.inside, iff_of_true after.bounded trivial⟩
  | poll results =>
      cases action
      have after := poll_held held results
      exact ⟨after.inside, iff_of_true after.bounded trivial⟩

/-- Every channel that the inputs lead to on the way is bounded. -/
def Channel.StaysBounded (inputs : List ChannelInput) (ch : Channel) : Prop :=
  ∀ before after ch', inputs = before ++ after → Run Channel.step ch before ch' → ch'.Bounded

theorem staysBounded_iff {inputs : List ChannelInput} {ch : Channel} (held : ch.Held) :
    Channel.StaysBounded inputs ch ↔ Along Channel.step Channel.Room inputs ch := by
  induction inputs generalizing ch with
  | nil =>
      refine iff_of_true ?_ trivial
      intro before after ch' split run
      obtain ⟨rfl, -⟩ := List.append_eq_nil_iff.mp split.symm
      cases run.exec_eq
      exact held.bounded
  | cons input inputs ih =>
      constructor
      · intro stays
        have here : ∀ {ch'}, Channel.step input ch = some ch' → ch'.Bounded := fun action =>
          stays [input] inputs _ rfl (.cons action (.nil _))
        obtain ⟨next, action⟩ : ∃ next, Channel.step input ch = some next := by cases input <;> exact ⟨_, rfl⟩
        obtain ⟨-, room⟩ := step_bounded held action
        refine ⟨room.mp (here action), fun ch' action' => ?_⟩
        obtain ⟨inside, -⟩ := step_bounded held action'
        refine (ih ⟨inside, here action'⟩).mp fun before after last split run => ?_
        exact stays (input :: before) after last (by rw [split, List.cons_append]) (.cons action' run)
      · rintro ⟨room, later⟩ before after last split run
        cases before with
        | nil =>
            cases run.exec_eq
            exact held.bounded
        | cons first before =>
            obtain ⟨rfl, rfl⟩ := List.cons.inj split
            obtain ⟨mid, action, rest⟩ := run.uncons
            obtain ⟨inside, bounded⟩ := step_bounded held action
            exact (ih ⟨inside, bounded.mpr room⟩).mpr (later mid action) before after last rfl rest

/-- In every sequence of calls on a fresh channel, the buffers stay bounded if and only if each frame is queued
with room for it next to the bytes already sent, or fails the channel. -/
theorem buffers_bounded_with_room (inputs : List ChannelInput) :
    Channel.StaysBounded inputs {} ↔ Along Channel.step Channel.Room inputs {} :=
  staysBounded_iff .start

/-! ## A slow peer -/

theorem flush_some {ch : Channel} {n : Nat} (working : ch.failed = false) (positive : 0 < n)
    (more : ch.outPos + n < ch.outbox.length) : (ch.flush [.sent n]).1 = { ch with outPos := ch.outPos + n } := by
  obtain ⟨n, rfl⟩ := Nat.exists_eq_succ_of_ne_zero (Nat.ne_of_gt positive)
  have taken : ((ch.outbox.drop ch.outPos).take (n + 1)).length = n + 1 := by
    rw [List.length_take, List.length_drop]
    omega
  have waiting : ch.outPos < ch.outbox.length := by omega
  have unfinished : ch.outPos + (n + 1) ≠ ch.outbox.length := Nat.ne_of_lt more
  simp only [Channel.flush, Channel.flushLoop, working, waiting, if_true, Bool.false_eq_true, if_false, taken, unfinished]

theorem pile_up {first second : ByteString} (size : first.length = 41943040) (size' : second.length = 41943040) :
    ∃ ch, Run Channel.step {} [.queue .deliver first, .flush [.sent 20971520], .queue .deliver second] ch ∧
      ch.failed = false ∧ kMaxBacklog < ch.outbox.length := by
  have works : (({} : Channel).queue .deliver first).failed = false :=
    (queue_works (Nat.le_refl _)).mpr ⟨rfl, by rw [size]; decide, by rw [size]; decide⟩
  have held := queue_outbox works
  obtain ⟨start, -, -⟩ := queue_keeps {} .deliver first
  generalize queued : ({} : Channel).queue .deliver first = ch at works held start
  have held : ch.outbox.length = 41943045 := by rw [held, size]; rfl
  have start : ch.outPos = 0 := start
  have flushed := flush_some (n := 20971520) works (by decide) (by rw [start, held]; decide)
  have unsent : ch.outPos + 20971520 ≤ ch.outbox.length := by rw [start, held]; decide
  have again : (Channel.queue { ch with outPos := ch.outPos + 20971520 } .deliver second).failed = false :=
    (queue_works unsent).mpr ⟨works, by rw [size']; decide, by simp only [start, held, size']; decide⟩
  refine ⟨Channel.queue { ch with outPos := ch.outPos + 20971520 } .deliver second, ?_, again, ?_⟩
  · apply Run.of_exec
    simp only [exec, Channel.step, Option.bind_some, queued, flushed]
  · rw [queue_outbox again]
    simp only [held, size']
    decide

/-- 40 MiB are queued, 20 MiB of them are sent, and 40 MiB are queued again. -/
def slowPeer : List ChannelInput :=
  [.queue .deliver (List.replicate 41943040 0), .flush [.sent 20971520], .queue .deliver (List.replicate 41943040 0)]

theorem sent_bytes_pile_up :
    ∃ ch, Run Channel.step {} slowPeer ch ∧ ch.failed = false ∧ kMaxBacklog < ch.outbox.length :=
  pile_up List.length_replicate List.length_replicate

end Zen.Isolation
