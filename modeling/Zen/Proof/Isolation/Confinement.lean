import Zen.Isolation.System
import Zen.Proof.Switchboard.Fifo

/-!
# What a child can do

Whatever bytes a child writes, the frames they make are emitted messages, which go to the queue under
the child's own id and through the gate, and snapshots, which replace the one the host keeps of it.
-/

namespace Zen.Isolation
open Lib Sb

variable {ν ς : Type}

/-! ## Frames of one child -/

def emits (link : Link) (sb : Switchboard (Shard ν)) (f : Incoming) : Switchboard (Shard ν) :=
  if f.op = .emit then handleEmit link f.payload sb else sb

def absorbs (link : Link) (f : Incoming) : Link :=
  if f.op = .snapshot then handleSnapshot link f.payload else link

theorem handleSnapshot_id (link : Link) (payload : ByteString) : (handleSnapshot link payload).id = link.id := by
  unfold handleSnapshot
  split
  · rfl
  · split <;> rfl

theorem absorbs_id (link : Link) (f : Incoming) : (absorbs link f).id = link.id := by
  unfold absorbs
  split
  · exact handleSnapshot_id link f.payload
  · rfl

theorem emits_congr {link link' : Link} (same : link'.id = link.id) :
    (emits link' : Switchboard (Shard ν) → Incoming → Switchboard (Shard ν)) = emits link := by
  funext sb f
  unfold emits handleEmit
  rw [same]

@[simp] theorem put_heap (h : Host ς) (p : Pointer) (link : Link) : (h.put p link).heap p = some link :=
  Function.update_self ..

@[simp] theorem put_put (h : Host ς) (p : Pointer) (link link' : Link) :
    (h.put p link).put p link' = h.put p link' := by
  unfold Host.put
  simp

theorem put_self {h : Host ς} {p : Pointer} {link : Link} (found : h.heap p = some link) : h.put p link = h := by
  unfold Host.put
  rw [← found, Function.update_eq_self]

theorem handleChildFrame_eq {w : World (Shard ν) (Host ς)} {p : Pointer} {link : Link}
    (found : w.env.heap p = some link) (f : Incoming) :
    handleChildFrame p w f = { w with sb := emits link w.sb f, env := w.env.put p (absorbs link f) } := by
  unfold handleChildFrame emits absorbs
  rw [found]
  simp only
  split
  · rename_i emit
    rw [if_neg (by rw [emit]; decide), put_self found]
  · split
    · rfl
    · rw [put_self found]

theorem frames_eq {w : World (Shard ν) (Host ς)} {p : Pointer} {link : Link}
    (found : w.env.heap p = some link) (frames : List Incoming) :
    frames.foldl (handleChildFrame p) w =
      { w with sb := frames.foldl (emits link) w.sb, env := w.env.put p (frames.foldl absorbs link) } := by
  induction frames generalizing w link with
  | nil => rw [List.foldl_nil, List.foldl_nil, List.foldl_nil, put_self found]
  | cons f frames ih =>
      rw [List.foldl_cons, handleChildFrame_eq found, ih (put_heap _ _ _)]
      simp only [put_put, List.foldl_cons, emits_congr (absorbs_id link f)]

def received (ch : Channel) (sends : List SendResult) (recvs : List RecvResult) : Channel × List Incoming :=
  (ch.flush sends).1.poll recvs

theorem drainChild_asleep {w : World (Shard ν) (Host ς)} {p : Pointer} {link : Link} (found : w.env.heap p = some link)
    (asleep : link.channel = none) (sends : List SendResult) (recvs : List RecvResult) :
    drainChild p sends recvs w = w := by
  unfold drainChild
  rw [found]
  simp only [asleep]

theorem drainChild_eq {w : World (Shard ν) (Host ς)} {p : Pointer} {link : Link} {ch : Channel}
    (found : w.env.heap p = some link) (live : link.channel = some ch) (sends : List SendResult)
    (recvs : List RecvResult) : drainChild p sends recvs w =
      let (channel, frames) := received ch sends recvs
      { w with
        sb := frames.foldl (emits link) w.sb
        env := w.env.put p (frames.foldl absorbs { link with channel := some channel }) } := by
  unfold drainChild
  rw [found]
  simp only [live]
  rw [frames_eq (put_heap _ _ _)]
  simp only [put_put, received]
  rfl

/-! ## Emitted messages -/

/-- An envelope that a child may put on the queue. -/
structure Emitted (sb : Switchboard (Shard ν)) (id : ShardId) (e : Envelope) : Prop where
  gated : e.gated = true
  sender : e.msg.sender = id
  published : sb.resolveSchema e.msg.name e.msg.version = some e.msg.payload.schema
  accepted : Accepted e.msg.payload.schema e.msg.payload

def Enqueues (id : ShardId) (sb sb' : Switchboard (Shard ν)) : Prop :=
  ∃ es, sb' = sb.appended es ∧ es.map Envelope.seq = List.range' sb.nextSeq es.length ∧ ∀ e ∈ es, Emitted sb id e

theorem Enqueues.refl (id : ShardId) (sb : Switchboard (Shard ν)) : Enqueues id sb sb :=
  ⟨[], by simp [Switchboard.appended], rfl, by simp⟩

theorem Enqueues.trans {id : ShardId} {sb mid sb' : Switchboard (Shard ν)} (first : Enqueues id sb mid)
    (second : Enqueues id mid sb') : Enqueues id sb sb' := by
  obtain ⟨es, rfl, numbers, emitted⟩ := first
  obtain ⟨es', rfl, numbers', emitted'⟩ := second
  refine ⟨es ++ es', appended_appended sb es es', ?_, ?_⟩
  · rw [List.map_append, numbers, numbers', List.length_append]
    exact List.range'_append_1
  · intro e he
    rcases List.mem_append.mp he with he | he
    · exact emitted e he
    · exact ⟨(emitted' e he).gated, (emitted' e he).sender, (emitted' e he).published, (emitted' e he).accepted⟩

theorem handleEmit_enqueues (link : Link) (payload : ByteString) (sb : Switchboard (Shard ν)) :
    Enqueues link.id sb (handleEmit link payload sb) := by
  unfold handleEmit
  split
  · exact .refl _ _
  · rename_i header bytes rest _
    split
    · exact .refl _ _
    · rename_i claim _
      cases resolved : sb.resolveSchema claim.name claim.version with
      | none => exact .refl _ _
      | some door =>
          simp only
          cases verdict : admitUnverified (parse bytes) door .firstError with
          | reject errors => exact .refl _ _
          | accept v =>
              simp only
              -- the name and version that the envelope claims are those of its door
              obtain ⟨name, version⟩ := Registry.lookup_some resolved
              have schema : v.schema = door := (Proof.accepted_written verdict).1
              have accepted := accepted_of_bytes verdict
              rw [← schema] at name version resolved accepted
              rw [← name, ← version] at resolved
              have emitted : ∀ e : Envelope, e.gated = true → e.msg.sender = link.id → e.msg.payload = v →
                  Emitted sb link.id e := by
                intro e gated sender payload
                refine ⟨gated, sender, ?_, ?_⟩
                · rw [Message.name, Message.version, payload]
                  exact resolved
                · rw [payload]
                  exact accepted
              split
              · rw [Switchboard.publishAs, fanout_eq]
                refine ⟨_, rfl, by rw [addressed_seqs, addressed, List.length_map, List.length_zipIdx], ?_⟩
                intro e he
                obtain ⟨msg, gated⟩ := mem_addressed he
                exact emitted e gated (by rw [msg]) (by rw [msg])
              · rw [Switchboard.sendAs, enqueueDirected_eq]
                refine ⟨_, rfl, rfl, ?_⟩
                intro e he
                rw [List.mem_singleton.mp he]
                exact emitted _ rfl rfl rfl

theorem emits_enqueues (link : Link) (frames : List Incoming) (sb : Switchboard (Shard ν)) :
    Enqueues link.id sb (frames.foldl (emits link) sb) := by
  induction frames generalizing sb with
  | nil => exact .refl _ _
  | cons f frames ih =>
      refine .trans ?_ (ih _)
      unfold emits
      split
      · exact handleEmit_enqueues link f.payload sb
      · exact .refl _ _

/-! ## Snapshots -/

/-- The Snapshot frames that the gate lets through. -/
def admitted (door : Schema) (frames : List Incoming) : List ByteString :=
  (frames.filter fun f => f.op == .snapshot && (admitUnverified (parse f.payload) door .firstError).ok).map
    Incoming.payload

/-- The link keeps everything but its channel and its snapshot, and that is the last one admitted. -/
structure Refreshed (frames : List Incoming) (link link' : Link) : Prop where
  rest : link' = { link with
    channel := link'.channel, snapshotValue := link'.snapshotValue, snapshotBytes := link'.snapshotBytes }
  bytes : ∀ door, link.stateSchema = some door →
    link'.snapshotBytes = (admitted door frames).getLastD link.snapshotBytes
  cache : link'.snapshotValue = link.snapshotValue ∧ link'.snapshotBytes = link.snapshotBytes ∨
    ∃ door v, link.stateSchema = some door ∧ ⟨.snapshot, link'.snapshotBytes⟩ ∈ frames ∧
      admitUnverified (parse link'.snapshotBytes) door .firstError = .accept v ∧ link'.snapshotValue = some v

theorem Refreshed.schema {frames : List Incoming} {link link' : Link} (h : Refreshed frames link link') :
    link'.id = link.id ∧ link'.stateSchema = link.stateSchema := by
  rw [h.rest]
  exact ⟨rfl, rfl⟩

theorem Refreshed.refl (link : Link) (channel : Option Channel) : Refreshed [] link { link with channel } :=
  ⟨rfl, fun _ _ => rfl, Or.inl ⟨rfl, rfl⟩⟩

theorem admitted_append (door : Schema) (frames frames' : List Incoming) :
    admitted door (frames ++ frames') = admitted door frames ++ admitted door frames' := by
  simp [admitted]

theorem Refreshed.trans {frames frames' : List Incoming} {link mid link' : Link} (first : Refreshed frames link mid)
    (second : Refreshed frames' mid link') : Refreshed (frames ++ frames') link link' := by
  have schema := first.schema.2
  refine ⟨?_, ?_, ?_⟩
  · rw [second.rest, first.rest]
  · intro door known
    rw [second.bytes door (schema.trans known), first.bytes door known, admitted_append]
    cases List.eq_nil_or_concat (admitted door frames') with
    | inl none => simp [none]
    | inr some =>
        obtain ⟨before, last, all⟩ := some
        simp [all, ← List.append_assoc]
  · rcases second.cache with ⟨value, bytes⟩ | ⟨door, v, known, sent, accepted, value⟩
    · rcases first.cache with ⟨value', bytes'⟩ | ⟨door, v, known, sent, accepted, value'⟩
      · exact Or.inl ⟨value.trans value', bytes.trans bytes'⟩
      · refine Or.inr ⟨door, v, known, ?_, ?_, value.trans value'⟩
        · rw [bytes]
          exact List.mem_append_left _ sent
        · rw [bytes]
          exact accepted
    · exact Or.inr ⟨door, v, schema ▸ known, List.mem_append_right _ sent, accepted, value⟩

theorem absorbs_refreshed (link : Link) (f : Incoming) : Refreshed [f] link (absorbs link f) := by
  have ignored : (∀ door, link.stateSchema = some door → admitted door [f] = []) → Refreshed [f] link link := by
    intro none
    refine ⟨rfl, ?_, Or.inl ⟨rfl, rfl⟩⟩
    intro door known
    rw [none door known]
    rfl
  unfold absorbs
  split
  · rename_i snapshot
    unfold handleSnapshot
    split
    · rename_i unknown
      exact ignored (by simp [unknown])
    · rename_i door known
      cases verdict : admitUnverified (parse f.payload) door .firstError with
      | reject errors =>
          refine ignored ?_
          intro door' known'
          cases known.symm.trans known'
          simp [admitted, verdict, Admission.ok]
      | accept v =>
          refine ⟨rfl, ?_, Or.inr ⟨door, v, known, by simp [← snapshot], verdict, rfl⟩⟩
          intro door' known'
          cases known.symm.trans known'
          simp [admitted, verdict, snapshot, Admission.ok]
  · rename_i other
    refine ignored ?_
    intro door known
    simp [admitted, other]

theorem frames_refreshed (frames : List Incoming) (link : Link) :
    Refreshed frames link (frames.foldl absorbs link) := by
  induction frames generalizing link with
  | nil => exact .refl link link.channel
  | cons f frames ih => exact (absorbs_refreshed link f).trans (ih (absorbs link f))

/-! ## Polls -/

/-- Of bus and host, only what belongs to the child has changed. -/
structure Confined (p : Pointer) (link : Link) (w w' : World (Shard ν) (Host ς)) : Prop where
  bus : Enqueues link.id w.sb w'.sb
  log : w'.log = w.log
  host : ∃ frames link', Refreshed frames link link' ∧ w'.env = w.env.put p link'

theorem Confined.trans {p : Pointer} {link link' : Link} {w mid w' : World (Shard ν) (Host ς)}
    (first : Confined p link w mid) (found : mid.env.heap p = some link') (second : Confined p link' mid w') :
    Confined p link w w' := by
  obtain ⟨frames, next, refreshed, env⟩ := first.host
  obtain ⟨frames', last, refreshed', env'⟩ := second.host
  have same : next = link' := by simpa [env] using found
  subst same
  refine ⟨first.bus.trans (refreshed.schema.1 ▸ second.bus), second.log.trans first.log, ?_⟩
  exact ⟨frames ++ frames', last, refreshed.trans refreshed', by rw [env', env, put_put]⟩

theorem drainChild_confined {w : World (Shard ν) (Host ς)} {p : Pointer} {link : Link}
    (found : w.env.heap p = some link) (sends : List SendResult) (recvs : List RecvResult) :
    Confined p link w (drainChild p sends recvs w) := by
  cases live : link.channel with
  | none =>
      rw [drainChild_asleep found live]
      exact ⟨.refl _ _, rfl, [], link, .refl link link.channel, (put_self found).symm⟩
  | some ch =>
      rw [drainChild_eq found live]
      exact ⟨emits_enqueues link _ w.sb, rfl, _, _,
        (Refreshed.refl link _).trans (frames_refreshed _ _), rfl⟩

/-- All the times that a child's link is read, whatever comes from it. -/
def drains (p : Pointer) (polls : List (List SendResult × List RecvResult)) (w : World (Shard ν) (Host ς)) :
    World (Shard ν) (Host ς) :=
  polls.foldl (fun w poll => drainChild p poll.1 poll.2 w) w

theorem child_is_confined (p : Pointer) (link : Link) (w : World (Shard ν) (Host ς))
    (mounted : w.env.heap p = some link) (polls : List (List SendResult × List RecvResult)) :
    Confined p link w (drains p polls w) := by
  unfold drains
  induction polls generalizing w link with
  | nil => exact ⟨.refl _ _, rfl, [], link, .refl link link.channel, (put_self mounted).symm⟩
  | cons poll polls ih =>
      rw [List.foldl_cons]
      have first := drainChild_confined mounted poll.1 poll.2
      obtain ⟨frames, link', _, env⟩ := first.host
      have found : (drainChild p poll.1 poll.2 w).env.heap p = some link' := by rw [env, put_heap]
      exact first.trans found (ih link' _ found)

def pingBytes : ByteString := (serialize (pingValue 5)).toOption.getD []

def pingWorld : World (Shard Unit) (Host Unit) :=
  { sb := { registry := ⟨[Ping]⟩ }
    env := Host.put { memory := () } 0
      { name := ascii "ping", soPath := [], id := 7, channel := some {}, stateSchema := some Ping } }

-- a message, a snapshot, an Emit frame cut short, and the beginning of a frame too long to be one
def pingPolls : List (List SendResult × List RecvResult) :=
  [([], [.data (frameBytes ⟨.emit, emitPayload ⟨kEmitSend, 3, 0, 0⟩ pingBytes⟩ ++
      (frameBytes ⟨.snapshot, pingBytes⟩).take 1)]),
    ([], [.data ((frameBytes ⟨.snapshot, pingBytes⟩).drop 1), .again]),
    ([.broken], [.data (frameBytes ⟨.emit, [0, 0]⟩), .data [255, 255, 255, 255, 0]])]

theorem child_is_confined_ping : ∃ link, pingWorld.env.heap 0 = some link ∧
    Confined 0 link pingWorld (drains 0 pingPolls pingWorld) ∧
    (drains 0 pingPolls pingWorld).sb.queue.map (fun e => (e.msg.sender, e.target)) = [(7, 3)] ∧
    ((drains 0 pingPolls pingWorld).env.heap 0).map Link.snapshotBytes = some pingBytes :=
  ⟨_, rfl, child_is_confined 0 _ pingWorld rfl pingPolls, by decide +kernel, by decide +kernel⟩

end Zen.Isolation
