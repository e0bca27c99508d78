import Zen.Proof.Switchboard.Records

/-!
# Exactly once, in order, and what an exception breaks

As long as no handler throws, the dispatcher of every run is in order, whatever else is called in
between. One exception of a handler leaves the dispatch flag set: from then on nothing is delivered.
-/

namespace Zen.Sb
open Lib BusM

variable {σ ω : Type}

/-! ## The ledger along a run -/

def Ordered (m : Machine σ ω) : Prop := Numbered m ∧ ∃ done next, Ledger.InOrder m.ledger done next

theorem Ordered.start (env : ω) : Ordered (Machine.start env : Machine σ ω) := by
  refine ⟨⟨rfl, rfl⟩, 0, 1, .idle rfl rfl, Nat.le_refl 1, rfl, rfl, rfl, ?_, ?_⟩
  · intro n positive small
    omega
  · intro n positive small
    have one : (Machine.start env : Machine σ ω).ledger.journal.length = 1 := rfl
    omega

theorem Ordered.step {ops : ShardOps σ ω} {input : Input σ ω} {m m' : Machine σ ω} (h : Ordered m)
    (returns : input.throws = false) (action : Machine.step ops input m = some m') :
    Ordered m' ∧ Ledger.Extends m.ledger m'.ledger := by
  obtain ⟨numbered, done, next, order⟩ := h
  obtain ⟨numbered', same | step | ⟨throws, _⟩⟩ := step_refines numbered action
  · rw [Ordered, same]
    exact ⟨⟨numbered', done, next, order⟩, fun _ _ old => old⟩
  · obtain ⟨order', kept⟩ := order.step step
    exact ⟨⟨numbered', order'⟩, kept⟩
  · rw [returns] at throws
    cases throws

theorem ordered_run {ops : ShardOps σ ω} {inputs : List (Input σ ω)} {m m' : Machine σ ω}
    (run : Reaches ops m inputs m') (returns : ∀ input ∈ inputs, input.throws = false) (h : Ordered m) :
    Ordered m' ∧ Ledger.Extends m.ledger m'.ledger :=
  run.relates (R := fun m m' => Ledger.Extends m.ledger m'.ledger) (fun _ _ _ old => old)
    (fun first second n r old => second n r (first n r old))
    (fun _ _ _ quiet h action => h.step quiet action) returns h

theorem ordered_from_start {ops : ShardOps σ ω} {env : ω} {inputs : List (Input σ ω)} {m : Machine σ ω}
    (run : Reaches ops (.start env) inputs m) (returns : ∀ input ∈ inputs, input.throws = false) : Ordered m :=
  (ordered_run run returns (.start env)).1

/-! ## Reading the ledger back -/

theorem ledger_outcome (m : Machine σ ω) {n : Nat} (positive : 1 ≤ n)
    (inside : n < m.world.sb.journal.length) :
    m.ledger.journal[n]? = some (m.world.sb.outcome n).final := by
  have slot : m.ledger.journal[n]? = (m.world.sb.journal[n]?).map DeliveryOutcome.final :=
    List.getElem?_map
  rw [slot, List.getElem?_eq_getElem inside, Switchboard.outcome, if_neg (by omega),
    List.getD_eq_getElem?_getD, List.getElem?_eq_getElem inside]
  rfl

theorem final_eq_some {o r : DeliveryOutcome} : o.final = some r ↔ o.disposition ≠ .pending ∧ o = r := by
  unfold DeliveryOutcome.final
  split
  · rename_i pending
    simp [pending]
  · rename_i decided
    simp [decided]

theorem final_eq_none {o : DeliveryOutcome} : o.final = none ↔ o.disposition = .pending := by
  unfold DeliveryOutcome.final
  split
  · rename_i pending
    simp [pending]
  · rename_i decided
    simp [decided]

theorem decided_inside {m : Machine σ ω} {n : Nat}
    (decided : (m.world.sb.outcome n).disposition ≠ .pending) : 1 ≤ n ∧ n < m.world.sb.journal.length := by
  by_contra outside
  apply decided
  unfold Switchboard.outcome
  split
  · rfl
  · rename_i nonzero
    rw [List.getD_eq_getElem?_getD, List.getElem?_eq_none (by omega)]
    rfl

theorem pending_iff {m : Machine σ ω} {done next : Nat} (order : Ledger.InOrder m.ledger done next) {n : Nat}
    (positive : 1 ≤ n) (inside : n < m.world.sb.journal.length) :
    (m.world.sb.outcome n).disposition = .pending ↔ done < n := by
  have slot := ledger_outcome m positive inside
  have size : m.ledger.journal.length = m.world.sb.journal.length := List.length_map _
  rw [← final_eq_none]
  constructor
  · intro open'
    by_contra small
    obtain ⟨r, decided⟩ := order.finished n positive (by omega)
    rw [slot, open'] at decided
    cases decided
  · intro above
    have unfinished := order.unfinished n above (by omega)
    rw [slot] at unfinished
    exact Option.some.inj unfinished

/-! ## Between pumps -/

def Switchboard.issued (sb : Switchboard σ) : List Nat := List.range' 1 (sb.nextSeq - 1)

def Switchboard.finished (sb : Switchboard σ) (n : Nat) : Prop := (sb.outcome n).disposition ≠ .pending

instance (sb : Switchboard σ) : DecidablePred sb.finished := fun n =>
  inferInstanceAs (Decidable ((sb.outcome n).disposition ≠ .pending))

-- slot 0 of the journal is no ticket's
structure Faithful (m : Machine σ ω) : Prop where
  slots : m.world.sb.journal.length = m.world.sb.issued.length + 1
  pending : m.world.sb.queue.map Envelope.seq =
    m.world.sb.issued.filter fun n => ¬ m.world.sb.finished n
  increasing : (m.world.sb.queue.map Envelope.seq).Pairwise (· < ·)
  above : ∀ n, m.world.sb.finished n → ∀ e ∈ m.world.sb.queue, n < e.seq
  once : ∀ n, m.world.sb.finished n →
    m.world.log.dequeued.count n = 1 ∧ m.world.log.decided.count n = 1

theorem range_count {n k : Nat} (positive : 1 ≤ n) (small : n ≤ k) : (List.range' 1 k).count n = 1 :=
  List.count_eq_one_of_mem List.nodup_range' (List.mem_range'_1.mpr ⟨positive, by omega⟩)

theorem finished_iff {m : Machine σ ω} {done next : Nat} (order : Ledger.InOrder m.ledger done next)
    {n : Nat} : m.world.sb.finished n ↔ 1 ≤ n ∧ n ≤ done := by
  have size : m.ledger.journal.length = m.world.sb.journal.length := List.length_map _
  have reach := order.next_le
  have bound := order.bound
  constructor
  · intro decided
    obtain ⟨positive, inside⟩ := decided_inside decided
    have small := mt (pending_iff order positive inside).mpr decided
    omega
  · rintro ⟨positive, small⟩ open'
    have above := (pending_iff order positive (by omega)).mp open'
    omega

-- with `done` tickets finished, the unfinished ones are those from `done + 1` on
theorem filter_unfinished {m : Machine σ ω} {done next : Nat} (order : Ledger.InOrder m.ledger done next)
    {k : Nat} (most : done ≤ k) : (List.range' 1 k).filter (fun n => ¬ m.world.sb.finished n) =
      List.range' (done + 1) (k - done) := by
  have parts : List.range' 1 k = List.range' 1 done ++ List.range' (done + 1) (k - done) := by
    rw [Nat.add_comm done 1, List.range'_append_1]
    congr 1
    omega
  have none : (List.range' 1 done).filter (fun n => ¬ m.world.sb.finished n) = [] := by
    apply List.filter_eq_nil_iff.mpr
    intro n hn
    obtain ⟨positive, small⟩ := List.mem_range'_1.mp hn
    rw [decide_eq_true_eq, finished_iff order]
    omega
  have all : (List.range' (done + 1) (k - done)).filter (fun n => ¬ m.world.sb.finished n) =
      List.range' (done + 1) (k - done) := by
    apply List.filter_eq_self.mpr
    intro n hn
    obtain ⟨large, small⟩ := List.mem_range'_1.mp hn
    rw [decide_eq_true_eq, finished_iff order]
    omega
  rw [parts, List.filter_append, none, all, List.nil_append]

theorem Ordered.faithful {m : Machine σ ω} (h : Ordered m) (between : m.stack = []) : Faithful m := by
  obtain ⟨numbered, done, next, order⟩ := h
  have slots := numbered.slots
  have size : m.ledger.journal.length = m.world.sb.journal.length := List.length_map _
  have first : next = done + 1 := by
    cases order.phase with
    | idle stack flag => rfl
    | looping stack flag => rfl
    | handling stack flag => simp [Machine.ledger, Mail.ledger, between] at stack
  subst first
  have bound := order.bound
  have waiting : m.world.sb.queue.map Envelope.seq =
      List.range' (done + 1) (m.world.sb.nextSeq - 1 - done) := by
    have listed := order.waiting
    rw [size, ← slots, Nat.add_comm, ← Nat.sub_sub, Nat.add_comm] at listed
    exact listed
  refine ⟨?_, ?_, ?_, ?_, ?_⟩
  · rw [Switchboard.issued, List.length_range']
    omega
  · rw [waiting, Switchboard.issued, filter_unfinished order (by omega)]
  · rw [waiting]
    exact List.pairwise_lt_range'
  · intro n decided e he
    have listed : e.seq ∈ m.world.sb.queue.map Envelope.seq := List.mem_map_of_mem he
    rw [waiting, List.mem_range'_1] at listed
    have small := (finished_iff order).mp decided
    omega
  · intro n decided
    obtain ⟨positive, small⟩ := (finished_iff order).mp decided
    have dequeued : m.world.log.dequeued = List.range' 1 done := order.dequeued
    have finished : m.world.log.decided = List.range' 1 done := order.decided
    rw [dequeued, finished]
    exact ⟨range_count positive small, range_count positive small⟩

theorem Ordered.decided_increasing {m : Machine σ ω} (h : Ordered m) :
    m.world.log.decided.Pairwise (· < ·) := by
  obtain ⟨_, done, next, order⟩ := h
  have finished : m.world.log.decided = List.range' 1 done := order.decided
  rw [finished]
  exact List.pairwise_lt_range'

theorem handlers_length (stack : List Frame) :
    (stack.filter Frame.isHandler).length = ((stack.map Frame.ticket).filter Option.isSome).length := by
  induction stack with
  | nil => rfl
  | cons frame stack ih =>
      cases frame with
      | loop => exact ih
      | handler e trusted =>
          rw [List.filter_cons_of_pos rfl, List.length_cons, ih]
          rfl

theorem Ordered.not_nested {m : Machine σ ω} (h : Ordered m) :
    (m.stack.filter Frame.isHandler).length ≤ 1 := by
  obtain ⟨_, done, next, order⟩ := h
  rw [handlers_length]
  have stack : m.stack.map Frame.ticket = m.ledger.stack := rfl
  rw [stack]
  cases order.phase with
  | idle stack flag => simp [stack]
  | looping stack flag => simp [stack]
  | handling stack flag => simp [stack]

theorem outcome_of_extends {m m' : Machine σ ω} (kept : Ledger.Extends m.ledger m'.ledger) {n : Nat}
    (decided : m.world.sb.finished n) : m'.world.sb.outcome n = m.world.sb.outcome n := by
  obtain ⟨positive, inside⟩ := decided_inside decided
  have before := ledger_outcome m positive inside
  have value : (m.world.sb.outcome n).final = some (m.world.sb.outcome n) :=
    final_eq_some.mpr ⟨decided, rfl⟩
  rw [value] at before
  have after := kept n _ before
  have inside' : n < m'.world.sb.journal.length := by
    have size : m'.ledger.journal.length = m'.world.sb.journal.length := List.length_map _
    have below := (List.getElem?_eq_some_iff.mp after).1
    omega
  rw [ledger_outcome m' positive inside'] at after
  exact (final_eq_some.mp (Option.some.inj after)).2

/-! ## Publishing -/

structure Published (sb : Switchboard σ) (msg : Message) (gated : Bool) (result : Switchboard σ × Nat)
    (es : List Envelope) : Prop where
  queue : result.1.queue = sb.queue ++ es
  count : result.2 = es.length
  copies : ∀ e ∈ es, e.msg = msg ∧ e.gated = gated
  ascending : (es.map Envelope.target).Pairwise (· < ·)
  targets : ∀ id, id ∈ es.map Envelope.target ↔ ∃ rec, sb.find id = some rec ∧ rec.alive = true ∧
    ∃ s ∈ rec.accept, s.name = msg.name ∧ s.version = msg.version

theorem acceptMatch_isSome {rec : ShardRecord σ} {name : ByteString} {version : UInt32} :
    (acceptMatch rec name version).isSome = true ↔ ∃ s ∈ rec.accept, s.name = name ∧ s.version = version := by
  simp [acceptMatch, List.find?_isSome]

theorem addressed_targets (msg : Message) (gated : Bool) (records : List (ShardRecord σ)) (seq : Nat) :
    (addressed msg gated records seq).map Envelope.target = records.map ShardRecord.id := by
  induction records generalizing seq with
  | nil => rfl
  | cons rec records ih =>
      rw [List.map_cons, ← ih (seq + 1)]
      rfl

theorem mem_values {m : Machine σ ω} (ok : RecordsOk m) {rec : ShardRecord σ} :
    rec ∈ m.world.sb.shards.values ↔ m.world.sb.find rec.id = some rec := by
  rw [OrdMap.values, List.mem_map, Switchboard.find, OrdMap.find_eq_some]
  constructor
  · rintro ⟨entry, he, rfl⟩
    have key := ok.keyed entry.1 entry.2 (OrdMap.find_eq_some.mpr he)
    rw [key]
    exact he
  · intro he
    exact ⟨_, he, rfl⟩

theorem fanout_published {m : Machine σ ω} (ok : RecordsOk m) (msg : Message) (gated : Bool) :
    ∃ es, Published m.world.sb msg gated (m.world.sb.fanout msg gated) es := by
  rw [fanout_eq]
  refine ⟨_, rfl, ?_, fun e he => mem_addressed he, ?_, ?_⟩
  · rw [addressed, List.length_map, List.length_zipIdx]
  · rw [addressed_targets]
    exact (values_ascending ok).sublist (List.filter_sublist.map _)
  · intro id
    rw [addressed_targets, List.mem_map]
    constructor
    · rintro ⟨rec, hrec, rfl⟩
      obtain ⟨listed, chosen⟩ := List.mem_filter.mp hrec
      rw [recipient, Bool.and_eq_true, acceptMatch_isSome] at chosen
      exact ⟨rec, (mem_values ok).mp listed, chosen⟩
    · rintro ⟨rec, found, alive, accepts⟩
      have key := ok.keyed id rec found
      subst key
      refine ⟨rec, List.mem_filter.mpr ⟨(mem_values ok).mpr found, ?_⟩, rfl⟩
      rw [recipient, Bool.and_eq_true, acceptMatch_isSome]
      exact ⟨alive, accepts⟩

/-! ## Exactly once -/

theorem dispatch_exactly_once {ops : ShardOps σ ω} {env : ω} {inputs : List (Input σ ω)} {m : Machine σ ω}
    (run : Reaches ops (.start env) inputs m) (returns : ∀ input ∈ inputs, input.throws = false) :
    (m.stack = [] → Faithful m) ∧
    m.world.log.decided.Pairwise (· < ·) ∧
    (m.stack.filter Frame.isHandler).length ≤ 1 ∧
    (∀ later m', Reaches ops m later m' → (∀ input ∈ later, input.throws = false) →
      ∀ n, m.world.sb.finished n → m'.world.sb.outcome n = m.world.sb.outcome n) ∧
    ∀ msg asSender, (∃ es, Published m.world.sb msg false (m.world.sb.publish msg) es) ∧
      ∃ es, Published m.world.sb { msg with sender := asSender } true
        (m.world.sb.publishAs asSender msg) es := by
  have ordered := ordered_from_start run returns
  have ok := records_ok run
  refine ⟨ordered.faithful, ordered.decided_increasing, ordered.not_nested, ?_, ?_⟩
  · intro later m' further quiet n decided
    exact outcome_of_extends (ordered_run further quiet ordered).2 decided
  · intro msg asSender
    exact ⟨fanout_published ok msg false, fanout_published ok { msg with sender := asSender } true⟩

def Ping : Schema := ⟨⟨ascii "Ping", 1, [⟨ascii "n", .int, true⟩]⟩, by decide⟩

def pingValue (n : Int64) : Value := ⟨⟨Ping.raw, [some (.int n)]⟩, rfl⟩

def pingPolicy : Value := ⟨⟨lifecyclePolicySchema.raw, [some (.int 1), some (.bool true)]⟩, by decide⟩

-- every Shard accepts a `Ping`, has one as its state and allows one reload
def pingOps : ShardOps Unit Unit where
  acceptedSchemas _ := pure [some Ping]
  snapshot _ := pure (pingValue 0)
  policy _ := pure pingPolicy
  revive _ _ := pure ()

def anyone : Grant := { rules := [{ anyShape := true, anyTarget := true }] }

-- two Shards, one publish; the first handler sends again, pumps and asks the loop to stop
def pingRun : List (Input Unit Unit) :=
  [.registerShard (some ()) anyone, .registerShard (some ()) {}, .publish ⟨pingValue 1, 0, 0, 0⟩, .pump,
    .turn, .handlerSends 2 ⟨pingValue 2, 0, 0, 0⟩, .pump, .stop, .handlerReturns, .turn]

theorem dispatch_exactly_once_ping : ∃ m, Reaches pingOps (.start ()) pingRun m ∧ Faithful m ∧
    m.world.log.decided = [1] ∧ m.world.sb.queue.map Envelope.seq = [2, 3] := by
  have evaluated : (exec (Machine.step pingOps) pingRun (.start ())).map
      (fun m => (m.stack.length, m.world.log.decided, m.world.sb.queue.map Envelope.seq)) =
        some (0, [1], [2, 3]) := by
    decide +kernel
  obtain ⟨m, reached, seen⟩ := Option.map_eq_some_iff.mp evaluated
  simp only [Prod.mk.injEq, List.length_eq_zero_iff] at seen
  have run := Run.of_exec reached
  exact ⟨m, run, (dispatch_exactly_once run (by decide)).1 seen.1, seen.2⟩

end Zen.Sb
