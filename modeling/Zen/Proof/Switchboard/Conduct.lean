import Zen.Proof.Switchboard.View

/-!
# What a handler sends

A handler of `x` that sends and publishes does the same, in the view without `x`, as one that makes
the other calls only.
-/

namespace Zen.Sb
open Lib BusM

variable {σ ω : Type} {x : ShardId}

/-! ## The handler of `x` -/

def Input.sends : Input σ ω → Bool
  | handlerSends _ _ | handlerPublishes _ => true
  | _ => false

def others (x : ShardId) (counts : List (Option ShardId × Nat)) : List (Option ShardId × Nat) :=
  counts.filter fun c => c.1 ≠ some x

theorem others_append (counts counts' : List (Option ShardId × Nat)) :
    others x (counts ++ counts') = others x counts ++ others x counts' :=
  List.filter_append ..

/-- The bus calls `x`, or what `x` called returns to it. -/
structure Handling (x : ShardId) (m : Machine σ ω) : Prop where
  top : ∃ e trusted frames, m.stack = .handler e trusted :: frames ∧ e.target = x
  busy : m.world.sb.inDispatch = true

theorem call_enabled (ops : ShardOps σ ω) {call : Input σ ω} (isCall : call.isCall = true) {m : Machine σ ω}
    (h : Handling x m) : ∃ mid, Machine.step ops call m = some mid ∧ Handling x mid := by
  obtain ⟨e, trusted, frames, top, target⟩ := h.top
  have quiet : ∀ mid, Machine.step ops call m = some mid → mid.stack = m.stack →
      mid.world.sb.inDispatch = m.world.sb.inDispatch → ∃ mid, Machine.step ops call m = some mid ∧ Handling x mid := by
    intro mid action stack inDispatch
    exact ⟨mid, action, ⟨e, trusted, frames, stack.trans top, target⟩, inDispatch.trans h.busy⟩
  have revival : ∀ {α : Type} {op : BusM σ ω α}, Machine.step ops call m = some (m.ended (op.run m.world)) →
      wp op m.world (fun _ w => w.mail = m.world.mail) → ∃ mid, Machine.step ops call m = some mid ∧ Handling x mid := by
    intro α op action mail
    refine quiet _ action ?_ ?_
    · cases op.run m.world <;> rfl
    · cases run : op.run m.world with
      | ok a w => exact congrArg Mail.inDispatch (wp_ok mail run)
      | error e w => exact congrArg Mail.inDispatch (wp_error mail run)
  cases call with
  | registerShard incoming grant =>
      have spec := registerShard_spec ops incoming grant m.world
      rw [Machine.step] at quiet ⊢
      cases run : (registerShard ops incoming grant).run m.world with
      | ok id w =>
          rw [run] at quiet
          exact quiet _ rfl rfl (congrArg Mail.inDispatch (wp_ok spec run).1)
      | error e w =>
          rw [run] at quiet
          exact quiet _ rfl rfl (congrArg Mail.inDispatch (wp_error spec run).1)
  | unregisterShard id => exact quiet _ rfl rfl (congrArg Mail.inDispatch (unregisterShard_mail m id))
  | kill id => exact quiet _ rfl rfl (congrArg Mail.inDispatch (kill_mail m.world id))
  | reload id candidateBytes =>
      exact revival rfl (wp_mono (reload_spec ops id candidateBytes m.world) fun _ _ spec => spec.1)
  | swapState id candidateBytes =>
      exact revival rfl (wp_mono (swapState_spec ops id candidateBytes m.world) fun _ _ spec => spec.1)
  | pump =>
      have same : m.pump = m := if_pos h.busy
      exact ⟨m.pump, rfl, same.symm ▸ h⟩
  | publish msg =>
      refine quiet _ rfl rfl ?_
      rw [Switchboard.publish, fanout_eq]
      rfl
  | publishAs asSender msg =>
      refine quiet _ rfl rfl ?_
      rw [Switchboard.publishAs, fanout_eq]
      rfl
  | handlerPublishes msg =>
      rw [Machine.step, top] at quiet ⊢
      refine quiet _ rfl top ?_
      rw [Switchboard.publishAs, fanout_eq]
      rfl
  | handlerSends target msg =>
      rw [Machine.step, top] at quiet ⊢
      exact quiet _ rfl top rfl
  | send target msg | sendAs asSender target msg | stop | outside change => exact quiet _ rfl rfl rfl
  | turn | handlerReturns | handlerThrows => cases isCall

theorem calls_enabled (ops : ShardOps σ ω) {calls : List (Input σ ω)} (isCall : ∀ call ∈ calls, call.isCall = true)
    {m : Machine σ ω} (h : Handling x m) : ∃ mid, exec (Machine.step ops) calls m = some mid ∧ Handling x mid := by
  induction calls generalizing m with
  | nil => exact ⟨m, rfl, h⟩
  | cons call calls ih =>
      obtain ⟨next, action, handling⟩ := call_enabled ops (isCall call (by simp)) h
      obtain ⟨mid, rest, handling'⟩ := ih (fun call' mem => isCall call' (by simp [mem])) handling
      exact ⟨mid, by rw [exec, action]; exact rest, handling'⟩

theorem send_same {ops : ShardOps σ ω} {call : Input σ ω} (sends : call.sends = true) {m mid : Machine σ ω}
    (h : Handling x m) (action : Machine.step ops call m = some mid) :
    SameBut x mid m ∧ others x (call.recipients m) = [] := by
  obtain ⟨e, trusted, frames, top, target⟩ := h.top
  have nothing : ∀ es, (∀ e' ∈ es, e'.sentBy x = true) →
      SameBut x (m.enqueued (m.world.sb.appended es) (some e.target)) m := by
    intro es sent
    refine ⟨?_, rfl⟩
    rw [SameView, appended_view, sent_waiting sent, List.append_nil]
  cases call with
  | handlerSends receiver msg =>
      rw [Machine.step, top] at action
      cases action
      refine ⟨nothing [_] ?_, rfl⟩
      intro e' mem
      rw [List.mem_singleton.mp mem]
      simp [Envelope.sentBy, target]
  | handlerPublishes msg =>
      rw [Machine.step, top] at action
      cases action
      rw [Switchboard.publishAs, fanout_eq]
      refine ⟨nothing _ ?_, ?_⟩
      · intro e' mem
        obtain ⟨message, gated⟩ := mem_addressed mem
        simp [Envelope.sentBy, message, gated, target]
      · simp [Input.recipients, top, others, target]
  | _ => cases sends

theorem exec_alike {ops : ShardOps σ ω} {inputs : List (Input σ ω)} (noTurn : ∀ input ∈ inputs, input ≠ .turn)
    {m m' mid : Machine σ ω} (h : SameBut x m m') (run : exec (Machine.step ops) inputs m = some mid) :
    ∃ mid', exec (Machine.step ops) inputs m' = some mid' ∧ SameBut x mid mid' ∧
      outputs (Machine.step ops) Input.recipients inputs m = outputs (Machine.step ops) Input.recipients inputs m' := by
  induction inputs generalizing m m' with
  | nil =>
      cases run
      exact ⟨m', rfl, h, rfl⟩
  | cons input inputs ih =>
      obtain ⟨next, action, rest⟩ := Option.bind_eq_some_iff.mp run
      obtain ⟨⟨next', action', same⟩, recipients⟩ := step_alike h (noTurn input (by simp)) action
      obtain ⟨mid', rest', same', counts⟩ := ih (fun input' mem => noTurn input' (by simp [mem])) same rest
      refine ⟨mid', by rw [exec, action']; exact rest', same', ?_⟩
      rw [outputs, outputs, action, action', recipients]
      simp only [counts]

/-- The sends of `x` make no difference to its calls: with them left out the same is done. -/
theorem calls_without_sends {ops : ShardOps σ ω} {calls : List (Input σ ω)}
    (isCall : ∀ call ∈ calls, call.isCall = true) {m m' mid : Machine σ ω} (handling : Handling x m)
    (h : SameBut x m m') (run : exec (Machine.step ops) calls m = some mid) :
    ∃ mid', exec (Machine.step ops) (calls.filter fun call => !call.sends) m' = some mid' ∧ SameBut x mid mid' ∧
      others x (outputs (Machine.step ops) Input.recipients calls m) =
        others x (outputs (Machine.step ops) Input.recipients (calls.filter fun call => !call.sends) m') := by
  induction calls generalizing m m' with
  | nil =>
      cases run
      exact ⟨m', rfl, h, rfl⟩
  | cons call calls ih =>
      have later : ∀ call' ∈ calls, call'.isCall = true := fun call' mem => isCall call' (by simp [mem])
      obtain ⟨next, action, handling'⟩ := call_enabled ops (isCall call (by simp)) handling
      rw [exec, action] at run
      cases sends : call.sends with
      | true =>
          obtain ⟨unseen, uncounted⟩ := send_same sends handling action
          obtain ⟨mid', rest', same', counts⟩ := ih later handling' (unseen.trans h) run
          rw [List.filter_cons_of_neg (by simp [sends])]
          refine ⟨mid', rest', same', ?_⟩
          rw [outputs, action, others_append, uncounted, List.nil_append]
          exact counts
      | false =>
          have noTurn : call ≠ .turn := by
            rintro rfl
            cases isCall .turn (by simp)
          obtain ⟨⟨next', action', same⟩, recipients⟩ := step_alike h noTurn action
          obtain ⟨mid', rest', same', counts⟩ := ih later handling' same run
          rw [List.filter_cons_of_pos (by simp [sends])]
          refine ⟨mid', by rw [exec, action']; exact rest', same', ?_⟩
          rw [outputs, outputs, action, action', recipients, others_append, others_append]
          simp only [counts]

/-- Shard `x` differs between the two behaviours, and only in what its handler sends and publishes. -/
structure DifferInSends (x : ShardId) (h h' : Behaviour σ ω) : Prop where
  others : ∀ id, id ≠ x → h id = h' id
  calls : ∀ shard msg env, ((h x shard msg env).calls.filter fun call => !call.sends) =
    (h' x shard msg env).calls.filter fun call => !call.sends
  throws : ∀ shard msg env, (h x shard msg env).throws = (h' x shard msg env).throws

theorem outputs_snoc (ops : ShardOps σ ω) (c : Conduct σ ω) (m : Machine σ ω) :
    outputs (Machine.step ops) Input.recipients c.inputs m =
      outputs (Machine.step ops) Input.recipients c.calls m := by
  have last : ∀ m : Machine σ ω, c.last.recipients m = [] := by
    intro m
    unfold Conduct.last
    split <;> rfl
  unfold Conduct.inputs
  generalize c.calls = calls
  induction calls generalizing m with
  | nil =>
      rw [List.nil_append]
      unfold outputs
      rw [last, List.nil_append]
      cases Machine.step ops c.last m <;> rfl
  | cons call calls ih =>
      rw [List.cons_append, outputs, outputs]
      cases Machine.step ops call m with
      | none => rfl
      | some next => simp only [ih]

theorem inputs_noTurn (c : Conduct σ ω) : ∀ input ∈ c.inputs, input ≠ .turn := by
  intro input mem
  rcases List.mem_append.mp mem with mem | mem
  · rintro rfl
    cases c.inside .turn mem
  · rw [List.mem_singleton.mp mem]
    unfold Conduct.last
    split <;> nofun

theorem exec_snoc {ops : ShardOps σ ω} {c : Conduct σ ω} {m mid : Machine σ ω}
    (run : exec (Machine.step ops) c.inputs m = some mid) :
    ∃ next, exec (Machine.step ops) c.calls m = some next ∧ Machine.step ops c.last next = some mid := by
  unfold Conduct.inputs at run
  generalize c.calls = calls at run ⊢
  induction calls generalizing m with
  | nil =>
      obtain ⟨next, action, done⟩ := Option.bind_eq_some_iff.mp run
      cases done
      exact ⟨m, rfl, action⟩
  | cons call calls ih =>
      obtain ⟨next, action, rest⟩ := Option.bind_eq_some_iff.mp run
      obtain ⟨next', calls', last⟩ := ih rest
      exact ⟨next', by rw [exec, action]; exact calls', last⟩

theorem conduct_alike {ops : ShardOps σ ω} {c c' : Conduct σ ω}
    (calls : (c.calls.filter fun call => !call.sends) = c'.calls.filter fun call => !call.sends)
    (throws : c.throws = c'.throws) {m m' mid : Machine σ ω} (handling : Handling x m)
    (handling' : Handling x m') (h : SameBut x m m') (run : exec (Machine.step ops) c.inputs m = some mid) :
    ∃ mid', exec (Machine.step ops) c'.inputs m' = some mid' ∧ SameBut x mid mid' ∧
      others x (outputs (Machine.step ops) Input.recipients c.inputs m) =
        others x (outputs (Machine.step ops) Input.recipients c'.inputs m') := by
  obtain ⟨next, called, last⟩ := exec_snoc run
  obtain ⟨next', called', _⟩ := calls_enabled ops c'.inside handling'
  obtain ⟨bare, without, same, counts⟩ := calls_without_sends c.inside handling h called
  obtain ⟨bare', without', same', counts'⟩ := calls_without_sends c'.inside handling' (.refl m') called'
  rw [calls, without'] at without
  cases without
  have noTurn : c.last ≠ .turn := inputs_noTurn c c.last (List.mem_append_right _ (by simp))
  obtain ⟨⟨mid', last', end_same⟩, _⟩ := step_alike (same.trans same'.symm) noTurn last
  have ends : c'.last = c.last := by rw [Conduct.last, Conduct.last, throws]
  refine ⟨mid', ?_, end_same, ?_⟩
  · refine Run.exec_append called' ?_
    rw [exec, ends, last']
    rfl
  · rw [outputs_snoc, outputs_snoc, counts, counts', calls]

theorem answers_alike {ops : ShardOps σ ω} {h h' : Behaviour σ ω} (differ : DifferInSends x h h')
    {m m' mid : Machine σ ω} (same : SameBut x m m') (busy : m.world.sb.inDispatch = true)
    (run : exec (Machine.step ops) (m.answers h) m = some mid) :
    ∃ mid', exec (Machine.step ops) (m'.answers h') m' = some mid' ∧ SameBut x mid mid' ∧
      others x (outputs (Machine.step ops) Input.recipients (m.answers h) m) =
        others x (outputs (Machine.step ops) Input.recipients (m'.answers h') m') := by
  have env : m.world.env = m'.world.env := congrArg View.env same.world
  have inDispatch : m.world.sb.inDispatch = m'.world.sb.inDispatch := congrArg View.inDispatch same.world
  unfold Machine.answers at run ⊢
  cases top : m.stack with
  | nil =>
      have top' : m'.stack = [] := by
        have stack := same.stack
        rw [top] at stack
        exact List.map_eq_nil_iff.mp stack.symm
      rw [top] at run
      rw [top']
      cases run
      exact ⟨m', rfl, same, rfl⟩
  | cons frame frames =>
      cases frame with
      | loop =>
          obtain ⟨frames', top', _⟩ := loop_top same top
          rw [top] at run
          rw [top']
          cases run
          exact ⟨m', rfl, same, rfl⟩
      | handler e trusted =>
          obtain ⟨e', frames', top', target, _⟩ := handler_top same top
          rw [top] at run
          rw [top']
          simp only [target, ← env, ← same.world.find] at run ⊢
          cases found : m.world.sb.find e.target with
          | none =>
              rw [found] at run
              cases run
              exact ⟨m', rfl, same, rfl⟩
          | some rec =>
              rw [found] at run
              simp only at run ⊢
              by_cases here : e.target = x
              · have handling : Handling x m := ⟨⟨e, trusted, frames, top, here⟩, busy⟩
                have handling' : Handling x m' :=
                  ⟨⟨e', trusted, frames', top', target.trans here⟩, inDispatch.symm.trans busy⟩
                rw [here] at run ⊢
                exact conduct_alike (differ.calls ..) (differ.throws ..) handling handling' same run
              · rw [← differ.others e.target here]
                obtain ⟨mid', run', same', counts⟩ := exec_alike (inputs_noTurn _) same run
                exact ⟨mid', run', same', congrArg (others x) counts⟩

end Zen.Sb
