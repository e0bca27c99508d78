import Zen.Proof.Kernel.Control
import Zen.Proof.Kernel.HotReload

/-!
# What the load capability is good for

It lets a Shard send the three control messages to one control Shard and nothing else; and each of them,
once sent, does what the host's own call on the kernel would do.
-/

namespace Zen.Kernel
open Lib Sb Author KernelM

variable {ν ς ρ ω α : Type}

theorem loadCapability_permits (control : ShardId) (name : ByteString) (version : UInt32) (target : ShardId) :
    (loadCapability control).permits name version target = true ↔
      target = control ∧ ∃ shape ∈ controlShard.accept, shape.key = (name, version) := by
  have rules : (loadCapability control).rules = controlShard.accept.map fun shape =>
      { shapeName := shape.zenName, shapeVersion := shape.zenVersion, target := control } := rfl
  rw [Grant.permits, rules, List.any_map, List.any_eq_true]
  constructor
  · rintro ⟨shape, listed, permits⟩
    simp only [Function.comp_apply, Bool.false_or, Bool.and_eq_true, beq_iff_eq] at permits
    obtain ⟨⟨rfl, rfl⟩, rfl⟩ := permits
    exact ⟨rfl, shape, listed, rfl⟩
  · rintro ⟨rfl, shape, listed, key⟩
    cases key
    exact ⟨shape, listed, by simp⟩

/-! ## Delivery -/

/-- Only what the bus keeps of messages may differ. -/
structure SameButMail (s s' : System ν ς) : Prop where
  libs : s'.kernel.libs = s.kernel.libs
  bound : s'.kernel.bound = s.kernel.bound
  registry : s'.kernel.registry = s.kernel.registry
  env : s'.kernel.world.env = s.kernel.world.env
  shards : s'.kernel.world.sb.shards = s.kernel.world.sb.shards
  nextShardId : s'.kernel.world.sb.nextShardId = s.kernel.world.sb.nextShardId
  published : s'.kernel.world.sb.registry = s.kernel.world.sb.registry
  registered : s'.registered = s.registered

theorem deliverOne_called {σ ω : Type} {w : World σ ω} {e : Envelope} {rec : ShardRecord σ} {door : Schema}
    (found : w.sb.find e.target = some rec) (alive : rec.alive = true) (permitted : w.sb.permitted e = true)
    (matched : acceptMatch rec e.msg.name e.msg.version = some door)
    (admitted : admitLive e.msg.payload door .firstError = .accept e.msg.payload) :
    w.deliverOne e = ({ w with log := { w.log with
      gated := w.log.gated ++ [(e.msg.payload, door)], handled := w.log.handled ++ [(e.target, e.msg)] } }, some e.msg) := by
  unfold World.deliverOne
  simp [found, alive, permitted, matched, admitted]

namespace Governed
variable {g : Governed ρ ω} {s s' : Host ρ ω}

theorem door_open {doors : List Schema} (h : DoorsOf controlShard doors) {rec : ShardRecord (Shard ν)} (own : rec.accept = doors)
    (apart : ∀ door ∈ doors, ∀ shape ∈ controlShard.accept, ∀ schema, shape.schemaOf = .ok schema →
      door.contentId = schema.contentId → door = schema)
    {shape : Shape} (listed : shape ∈ controlShard.accept) {schema : Schema} (derived : shape.schemaOf = .ok schema) :
    acceptMatch rec schema.name schema.version = some schema := by
  obtain ⟨schemas, declared, same⟩ := h
  obtain ⟨schema', among, derived'⟩ := (mapM_partners declared).1 shape listed
  rw [derived] at derived'
  cases derived'
  have known : schema.identity ∈ doors.map Schema.identity := by
    rw [← same]
    exact List.mem_map_of_mem among
  obtain ⟨door, there, identity⟩ := List.mem_map.mp known
  have found : (acceptMatch rec schema.name schema.version).isSome = true := by
    rw [acceptMatch, List.find?_isSome]
    refine ⟨door, own ▸ there, ?_⟩
    have name : door.name = schema.name := congrArg (fun i => i.1) identity
    have version : door.version = schema.version := congrArg (fun i => i.2.1) identity
    simp [name, version]
  obtain ⟨first, matched⟩ := Option.isSome_iff_exists.mp found
  obtain ⟨first_there, name, version⟩ := acceptMatch_eq_some matched
  have doorsOf : DoorsOf controlShard doors := ⟨schemas, declared, same⟩
  obtain ⟨shape', listed', schema', derived', identity'⟩ := doorsOf.shape (own ▸ first_there)
  have same_key : shape'.key = shape.key := by
    rw [schemaOf_key derived, schemaOf_key derived', ← name, ← version]
    exact congrArg (fun i => (i.1, i.2.1)) identity'
  have distinct : (controlShard.accept.map Shape.key).Nodup := by decide
  have same_shape := List.inj_on_of_nodup_map distinct listed' listed same_key
  subst same_shape
  rw [derived] at derived'
  cases derived'
  rw [matched, apart first (own ▸ first_there) _ listed schema derived (congrArg (fun i => i.2.2) identity').symm]

theorem onBus_returns {e : Envelope} {trusted : Message} {frames : List Frame} (top : s.stack = .handler e trusted :: frames) :
    g.onBus .handlerReturns s = some { s with
      kernel := { s.kernel with world := s.kernel.world.delivered e trusted }, stack := frames } := by
  have top' : s.machine.stack = .handler e trusted :: frames := top
  simp only [onBus, System.step, hosted, Machine.step, top']
  rfl

theorem onBus_throws {e : Envelope} {trusted : Message} {frames : List Frame}
    (top : s.stack = .handler e trusted :: .loop :: frames) : g.onBus .handlerThrows s = some { s with stack := frames } := by
  have top' : s.machine.stack = .handler e trusted :: .loop :: frames := top
  simp only [onBus, System.step, hosted, Machine.step, top']
  rfl

/-- Whatever the message, the handler of the control Shard comes to its end. -/
theorem control_enabled (watched : Watched s) {e : Envelope} {trusted : Message} (commands : commanded s = some (e, trusted)) :
    ∃ s', g.step .control s = some s' := by
  obtain ⟨frames, top, controls⟩ := commanded_iff.mp commands
  obtain ⟨_, ⟨impossible, _⟩ | ⟨_, _, _, rfl⟩⟩ := watched.ok.frames top
  · cases impossible
  · have answers := wp_leaves (control_answers g.seam g.native e.target trusted watched.ok.kernel.below)
    have stack := (Heeded.keeps answers watched.ok watched.doors).2.2
    rw [Governed.step, commands]
    change ∃ s', g.ended ((controlShard.handle (controlOn g.seam g.native) e.target trusted).run s) = some s'
    generalize (controlShard.handle (controlOn g.seam g.native) e.target trusted).run s = r at stack
    cases r with
    | ok u t => exact ⟨_, onBus_returns (stack.trans top)⟩
    | error failure t =>
        cases failure with
        | threw e => exact ⟨_, onBus_throws (stack.trans top)⟩
        | logicError what => exact ⟨_, onBus_throws (stack.trans top)⟩
        | fault f =>
            simp only [ended]
            cases (g.undefined f).run t.kernel.world.env.memory with
            | ok u memory => exact ⟨_, onBus_returns (s := t.remembering fun _ => memory) (stack.trans top)⟩
            | error e memory => exact ⟨_, onBus_throws (s := t.remembering fun _ => memory) (stack.trans top)⟩

/-! ## A message with the capability -/

theorem Demands.unique {msg : Message} {o : Order} (demands : Demands msg o) {shape : Shape} (listed : shape ∈ controlShard.accept)
    (key : shape.key = (msg.name, msg.version)) {obj : shape.Object} (read : fromValue shape msg.payload.raw = .ok obj) :
    order shape obj = some o := by
  obtain ⟨shape', listed', key', obj', read', ordered⟩ := demands
  have distinct : (controlShard.accept.map Shape.key).Nodup := by decide
  have same := List.inj_on_of_nodup_map distinct listed' listed (key'.trans key.symm)
  subst same
  rw [read] at read'
  cases read'
  exact ordered

/-- The control Shard that the message goes to, and a sender who may send it there. -/
structure Capable (s : Host ρ ω) (a control : ShardId) (shape : Shape) : Prop where
  alive : ∃ rec, s.kernel.world.sb.find control = some rec ∧ rec.alive = true
  controls : controls s control = true
  unforged : Unforged s control
  permits : ∃ sender, s.kernel.world.sb.find a = some sender ∧
    sender.grant.permits shape.zenName shape.zenVersion control = true

structure Between (s : Host ρ ω) : Prop where
  stack : s.stack = []
  queue : s.kernel.world.sb.queue = []
  inDispatch : s.kernel.world.sb.inDispatch = false

theorem step_bus (other : ∀ e trusted frames, s.stack ≠ .handler e trusted :: frames)
    (call : Sb.Input (Unit ⊕ ρ) (ControlMemory ω)) : g.step (.bus call) s = g.onBus call s := by
  have none : commanded s = none := by
    cases commands : commanded s with
    | none => rfl
    | some handling =>
        obtain ⟨frames, top, _⟩ := commanded_iff.mp commands
        exact absurd top (other _ _ frames)
  rw [Governed.step, none]

/-- The bus has just called the handler of the control Shard for `e`, as the only message there was. -/
structure CalledFor (s called : Host ρ ω) (e : Envelope) : Prop where
  same : SameButMail s called
  stack : called.stack = [.handler e e.msg, .loop]
  queue : called.kernel.world.sb.queue = []
  inDispatch : called.kernel.world.sb.inDispatch = true
  journal : called.kernel.world.sb.journal = s.kernel.world.sb.journal ++ [({} : DeliveryOutcome)]

theorem message_called (between : Between s) {a control : ShardId} {rec : ShardRecord (Shard (Unit ⊕ ρ))} {door : Schema}
    {msg : Message} (found : s.kernel.world.sb.find control = some rec) (alive : rec.alive = true)
    (permitted : ∃ sender, s.kernel.world.sb.find a = some sender ∧ sender.grant.permits msg.name msg.version control = true)
    (matched : acceptMatch rec msg.name msg.version = some door)
    (admitted : admitLive msg.payload door .firstError = .accept msg.payload) :
    ∃ called, exec g.step [.bus (.sendAs a control msg), .bus .pump, .bus .turn] s = some called ∧
      CalledFor s called ⟨{ msg with sender := a }, control, s.kernel.world.sb.nextSeq, true⟩ := by
  let e : Envelope := ⟨{ msg with sender := a }, control, s.kernel.world.sb.nextSeq, true⟩
  have first : g.step (.bus (.sendAs a control msg)) s =
      some (s.withMachine (s.machine.enqueued (s.kernel.world.sb.sendAs a control msg) (some a))) := by
    rw [step_bus (by rw [between.stack]; simp)]
    rfl
  let sent : Host ρ ω := s.withMachine (s.machine.enqueued (s.kernel.world.sb.sendAs a control msg) (some a))
  have second : g.step (.bus .pump) sent = some (sent.withMachine { sent.machine.withBus
      { sent.kernel.world.sb with inDispatch := true, stopRequested := false } with stack := .loop :: sent.stack }) := by
    have idle : sent.machine.world.sb.inDispatch = false := between.inDispatch
    rw [step_bus (by change ∀ e trusted frames, s.stack ≠ _; rw [between.stack]; simp)]
    simp only [onBus, System.step, hosted, Machine.step, Machine.pump, idle]
    rfl
  let pumped : Host ρ ω := sent.withMachine { sent.machine.withBus
    { sent.kernel.world.sb with inDispatch := true, stopRequested := false } with stack := .loop :: sent.stack }
  have looping : pumped.stack = [.loop] := congrArg (List.cons Frame.loop) between.stack
  have front : pumped.machine.world.sb.queue = [e] := by
    change s.kernel.world.sb.queue ++ [e] = [e]
    rw [between.queue]
    rfl
  have turns : (pumped.machine.popped e []).deliverOne e = ({ pumped.machine.popped e [] with
      log := { (pumped.machine.popped e []).log with
        gated := (pumped.machine.popped e []).log.gated ++ [(e.msg.payload, door)]
        handled := (pumped.machine.popped e []).log.handled ++ [(e.target, e.msg)] } }, some e.msg) := by
    obtain ⟨sender, known, permits⟩ := permitted
    exact deliverOne_called found alive (permitted_eq_true.mpr ⟨sender, known, permits⟩) matched admitted
  let called : Host ρ ω := pumped.withMachine { pumped.machine with
    world := { pumped.machine.popped e [] with
      log := { (pumped.machine.popped e []).log with
        gated := (pumped.machine.popped e []).log.gated ++ [(e.msg.payload, door)]
        handled := (pumped.machine.popped e []).log.handled ++ [(e.target, e.msg)] } }
    stack := [.handler e e.msg, .loop] }
  have third : g.step (.bus .turn) pumped = some called := by
    have looping' : pumped.machine.stack = [.loop] := looping
    have open' : pumped.machine.world.sb.stopRequested = false := rfl
    rw [step_bus (by rw [looping]; simp)]
    simp only [onBus, System.step, hosted, Machine.step, looping', Machine.turn, front, open', Bool.false_eq_true,
      ↓reduceIte, turns]
    rfl
  refine ⟨called, ?_, ⟨rfl, rfl, rfl, rfl, rfl, rfl, rfl, rfl⟩, rfl, rfl, rfl, rfl⟩
  rw [exec, first, Option.bind_some, exec, second, Option.bind_some, exec, third]
  rfl

/-- The order has been carried out, and the bus is between two pumps again. -/
structure Served (t s' : Host ρ ω) (seq : Nat) : Prop where
  same : SameButMail t s'
  between : Between s'
  outcome : s'.kernel.world.sb.outcome seq = { disposition := .delivered }

/-- The order has been carried out as far as it went before it threw, and no message is ever delivered again. -/
structure Stalled (t s' : Host ρ ω) (seq : Nat) : Prop where
  same : SameButMail t s'
  stack : s'.stack = []
  inDispatch : s'.kernel.world.sb.inDispatch = true
  outcome : s'.kernel.world.sb.outcome seq = {}

theorem ends_served {t : Host ρ ω} {e : Envelope} (stack : t.stack = [.handler e e.msg, .loop])
    (queue : t.kernel.world.sb.queue = []) (journal : e.seq < t.kernel.world.sb.journal.length) (positive : 1 ≤ e.seq)
    (returns : g.onBus .handlerReturns t = some s') :
    ∃ s'', g.step (.bus .turn) s' = some s'' ∧ Served t s'' e.seq := by
  rw [onBus_returns stack] at returns
  cases returns
  let returned : Host ρ ω := { t with
    kernel := { t.kernel with world := t.kernel.world.delivered e e.msg }, stack := [.loop] }
  have looping : returned.machine.stack = [.loop] := rfl
  have empty : returned.machine.world.sb.queue = [] := queue
  have turned : g.step (.bus .turn) returned = some (returned.withMachine { returned.machine.withBus
      { returned.kernel.world.sb with inDispatch := false, queue := [] } with stack := [] }) := by
    rw [step_bus (by change ∀ _ _ _, [Frame.loop] ≠ _; simp)]
    simp only [onBus, System.step, hosted, Machine.step, looping, Machine.turn, empty]
    rfl
  refine ⟨_, turned, ⟨rfl, rfl, rfl, rfl, rfl, rfl, rfl, rfl⟩, ⟨rfl, rfl, rfl⟩, ?_⟩
  change (if e.seq = 0 then _ else (t.kernel.world.sb.journal.set e.seq ⟨.delivered, {}⟩).getD e.seq {}) = _
  rw [if_neg (Nat.ne_of_gt positive), List.getD_eq_getElem?_getD, List.getElem?_set_self journal]
  rfl

theorem ends_stalled {t : Host ρ ω} {e : Envelope} (stack : t.stack = [.handler e e.msg, .loop])
    (busy : t.kernel.world.sb.inDispatch = true) (pending : t.kernel.world.sb.outcome e.seq = {})
    (throws : g.onBus .handlerThrows t = some s') : Stalled t s' e.seq := by
  rw [onBus_throws stack] at throws
  cases throws
  exact ⟨⟨rfl, rfl, rfl, rfl, rfl, rfl, rfl, rfl⟩, rfl, busy, pending⟩

-- what a schema whose fields are all texts is made of
def wordsOf : List Raw.Field → Option (List ByteString)
  | [] => some []
  | ⟨name, .text, true⟩ :: fields => (wordsOf fields).map (name :: ·)
  | _ => none

structure Words where
  name : ByteString
  version : UInt32
  fields : List ByteString
  deriving DecidableEq

def worded (schema : Schema) : Option Words :=
  (wordsOf schema.raw.fields).map fun fields => ⟨schema.name, schema.version, fields⟩

theorem wordsOf_inj {fields fields' : List Raw.Field} {names : List ByteString} (h : wordsOf fields = some names)
    (h' : wordsOf fields' = some names) : fields = fields' := by
  induction fields generalizing fields' names with
  | nil =>
      cases h
      match fields' with
      | [] => rfl
      | ⟨name, .text, true⟩ :: fields' =>
          obtain ⟨_, _, impossible⟩ := Option.map_eq_some_iff.mp h'
          cases impossible
  | cons f fields ih =>
      match f, h with
      | ⟨name, .text, true⟩, h =>
          obtain ⟨rest, words, rfl⟩ := Option.map_eq_some_iff.mp h
          match fields', h' with
          | ⟨name', .text, true⟩ :: fields', h' =>
              obtain ⟨rest', words', same⟩ := Option.map_eq_some_iff.mp h'
              cases same
              rw [ih words words']

theorem worded_inj {a b : Schema} {parts : Words} (h : worded a = some parts)
    (h' : worded b = some parts) : a = b := by
  obtain ⟨⟨name, version, fields⟩, wf⟩ := a
  obtain ⟨⟨name', version', fields'⟩, wf'⟩ := b
  obtain ⟨names, words, rfl⟩ := Option.map_eq_some_iff.mp h
  obtain ⟨names', words', same⟩ := Option.map_eq_some_iff.mp h'
  cases same
  have fields_eq : fields = fields' := wordsOf_inj words words'
  subst fields_eq
  rfl

def LoadLibrary : Schema :=
  ⟨⟨ascii "LoadLibrary", 1, [⟨ascii "name", .text, true⟩, ⟨ascii "path", .text, true⟩]⟩, by decide⟩

def ReloadLibrary : Schema :=
  ⟨⟨ascii "ReloadLibrary", 1, [⟨ascii "name", .text, true⟩, ⟨ascii "path", .text, true⟩]⟩, by decide⟩

def UnloadLibrary : Schema := ⟨⟨ascii "UnloadLibrary", 1, [⟨ascii "name", .text, true⟩]⟩, by decide⟩

def controlSchemas : List Schema := [LoadLibrary, ReloadLibrary, UnloadLibrary]

theorem own_doors {doors : List Schema} (made : doors.map worded = controlSchemas.map worded) :
    ∀ door ∈ doors, ∀ shape ∈ controlShard.accept, ∀ schema, shape.schemaOf = .ok schema →
      door.contentId = schema.contentId → door = schema := by
  intro door listed shape among schema derived same
  have declared : schema ∈ controlSchemas := by
    have cases : shape = loadLibrary ∨ shape = reloadLibrary ∨ shape = unloadLibrary := by
      simpa [controlShard] using among
    rcases cases with rfl | rfl | rfl
    · have schema' : schema = LoadLibrary := (Except.ok.inj derived).symm
      simp [schema', controlSchemas]
    · have schema' : schema = ReloadLibrary := (Except.ok.inj derived).symm
      simp [schema', controlSchemas]
    · have schema' : schema = UnloadLibrary := (Except.ok.inj derived).symm
      simp [schema', controlSchemas]
  have known : worded door ∈ controlSchemas.map worded := by
    rw [← made]
    exact List.mem_map_of_mem listed
  obtain ⟨own, there, words⟩ := List.mem_map.mp known
  have complete : ∀ s ∈ controlSchemas, (worded s).isSome = true := by decide
  obtain ⟨parts, known⟩ := Option.isSome_iff_exists.mp (complete own there)
  have door_eq : door = own := worded_inj (words.symm.trans known) known
  subst door_eq
  have apart : (controlSchemas.map Schema.contentId).Nodup := by decide +kernel
  exact List.inj_on_of_nodup_map apart there declared same

/-- A library is opened by any path, and makes one instance that says it is a `Ping` counter. -/
def aside (seam : Seam Unit) : Seam ς where
  libOpen path memory := ((seam.libOpen path ()).1, memory)
  shardAbi lib memory := ((seam.shardAbi lib ()).1, memory)
  libClose _ memory := memory
  abiVersion abi _ := seam.abiVersion abi ()
  create abi memory := ((seam.create abi ()).1, memory)
  destroy _ _ memory := memory
  describe abi inst memory := ((seam.describe abi inst ()).1, memory)
  snapshot abi inst memory := ((seam.snapshot abi inst ()).1, memory)
  policy abi inst memory := ((seam.policy abi inst ()).1, memory)
  revive abi inst state memory := ((seam.revive abi inst state ()).1, memory)

def loaderHost : Governed Unit Unit where
  seam := aside obligingSeam
  others :=
    { acceptedSchemas := fun _ => pure [some Ping], snapshot := fun _ => pure (pingValue 0)
      policy := fun _ => pure pingPolicy, revive := fun _ _ => pure () }
  undefined := fun _ => pure ()

def uncontrolled : Host Unit Unit := System.start (fun _ => ((0 : Int64), ()), ())

-- the loader may send what the control Shard accepts, and nothing else
def withLoader : List (Governed.Input Unit Unit) :=
  [.bus mountControl, .bus (.registerShard (some (.inr ())) (loadCapability 1))]

theorem withLoader_reaches : ∃ s, loaderHost.Reaches uncontrolled withLoader s ∧ Between s ∧
    Capable s 2 1 loadLibrary := by
  have evaluated : ((exec loaderHost.step withLoader uncontrolled).bind fun s =>
      (s.kernel.world.sb.find 1).bind fun rec => (s.kernel.world.sb.find 2).map fun sender =>
        (s.stack.isEmpty && s.kernel.world.sb.queue.isEmpty && !s.kernel.world.sb.inDispatch && rec.alive && controls s 1,
          rec.accept.map worded, sender.grant)) = some (true, controlSchemas.map worded, loadCapability 1) := by
    decide +kernel
  obtain ⟨s, reached, seen⟩ := Option.bind_eq_some_iff.mp evaluated
  obtain ⟨rec, found, seen⟩ := Option.bind_eq_some_iff.mp seen
  obtain ⟨sender, known, seen⟩ := Option.map_eq_some_iff.mp seen
  simp only [Prod.mk.injEq, Bool.and_eq_true, List.isEmpty_iff, Bool.not_eq_true'] at seen
  obtain ⟨⟨⟨⟨⟨stack, queue⟩, inDispatch⟩, alive⟩, controls⟩, doors, grant⟩ := seen
  refine ⟨s, Run.of_exec reached, ⟨stack, queue, inDispatch⟩, ⟨⟨rec, found, alive⟩, controls, ?_, sender, known, ?_⟩⟩
  · intro rec' found'
    rw [found] at found'
    cases found'
    exact own_doors doors
  · rw [grant]
    decide

def loadMessage : Message :=
  ⟨⟨⟨LoadLibrary.raw, [some (.text (ascii "a")), some (.text (ascii "A"))]⟩, by decide⟩, 0, 0, 0⟩

def Frame.target : Frame → Option ShardId
  | .loop => none
  | .handler e _ => some e.target

theorem kernel_answers_to_authority_loader : ∃ s s' e,
    loaderHost.Reaches uncontrolled (withLoader ++ [.bus (.sendAs 2 1 loadMessage), .bus .pump, .bus .turn]) s ∧
    loaderHost.step .control s = some s' ∧ s'.kernel.libs.map Loaded.name = [ascii "a"] ∧
    Authorized s e ∧ Obeyed loaderHost s e s' := by
  have evaluated : ((exec loaderHost.step (withLoader ++ [.bus (.sendAs 2 1 loadMessage), .bus .pump, .bus .turn])
      uncontrolled).bind fun s => (s.kernel.world.sb.find 1).bind fun rec => (loaderHost.step .control s).map fun s' =>
        (s.stack.map Frame.target, rec.accept.map worded, s'.kernel.libs.map Loaded.name)) =
      some ([some 1, none], controlSchemas.map worded, [ascii "a"]) := by
    decide +kernel
  obtain ⟨s, reached, seen⟩ := Option.bind_eq_some_iff.mp evaluated
  obtain ⟨rec, found, seen⟩ := Option.bind_eq_some_iff.mp seen
  obtain ⟨s', action, seen⟩ := Option.map_eq_some_iff.mp seen
  simp only [Prod.mk.injEq] at seen
  obtain ⟨frames, doors, loaded⟩ := seen
  have run := Run.of_exec reached
  obtain ⟨e, authorized, obeyed⟩ := (kernel_answers_to_authority run).2 .control s' action
  refine ⟨s, s', e, run, action, loaded, authorized, obeyed ?_⟩
  have here : e.target = 1 := by
    rw [authorized.1] at frames
    exact Option.some.inj (List.cons.inj frames).1
  intro rec' found'
  rw [here, found] at found'
  cases found'
  exact own_doors doors

end Governed
end Zen.Kernel
