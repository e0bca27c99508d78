import Zen.Proof.Kernel.Rules
import Zen.Proof.Kernel.SchemaCodec
import Zen.Proof.Switchboard.Fifo

/-!
# Reconstructing a manifest

Along the list, the host knows under each (name, version) the content id that the condition of
`Resolves` computes from the library's own schemas, as long as all schemas before came back as meant.
-/

namespace Zen.Kernel
open Lib Sb KernelM
open Raw (Cell)

variable {ν ς : Type}

/-! ## What the host knows on the way -/

def KnownIds (known : Registry) (earlier : List Schema) (r : Registry) : Prop :=
  ∀ name version, (r.lookup name version).map Schema.contentId = resolvedId known earlier name version

theorem KnownIds.start (known : Registry) : KnownIds known [] known := by
  intro name version
  rw [resolvedId, List.find?_nil, Option.or_none]

theorem resolvedId_snoc (known : Registry) (earlier : List Schema) (s : Schema) (name : ByteString)
    (version : UInt32) : resolvedId known (earlier ++ [s]) name version =
      (resolvedId known earlier name version).or (if named name version s then some s.contentId else none) := by
  rw [resolvedId, resolvedId, List.find?_append, ← Option.or_assoc, Option.map_or, List.find?_singleton]
  congr 1
  split <;> rfl

theorem registerSchema_lookup {r r' : Registry} {s owner : Schema} {inserted : Bool}
    (h : r.registerSchema s = .ok (r', owner, inserted)) (name : ByteString) (version : UInt32) :
    (r'.lookup name version).map Schema.contentId = ((r.lookup name version).map Schema.contentId).or
      (if named name version s then some s.contentId else none) := by
  unfold Registry.registerSchema at h
  cases found : r.lookup s.name s.version with
  | none =>
      rw [found] at h
      cases h
      rw [Registry.lookup, Registry.lookup, List.find?_append, Option.map_or, List.find?_singleton]
      congr 1
      change Option.map _ (if named name version s then some s else none) = _
      split <;> rfl
  | some existing =>
      rw [found] at h
      simp only at h
      split at h
      · cases h
        split
        · rename_i here
          obtain ⟨rfl, rfl⟩ : s.name = name ∧ s.version = version := by simpa [named] using here
          rw [found]
          rfl
        · rw [Option.or_none]
      · cases h

theorem KnownIds.register {known r r' : Registry} {earlier : List Schema} {s s' owner : Schema}
    {inserted : Bool} (h : KnownIds known earlier r) (same : s'.identity = s.identity)
    (registered : r.registerSchema s' = .ok (r', owner, inserted)) : KnownIds known (earlier ++ [s]) r' := by
  intro name version
  simp only [Schema.identity, Prod.mk.injEq] at same
  rw [registerSchema_lookup registered, h, resolvedId_snoc, named, named, same.1, same.2.1, same.2.2]

/-! ## The list -/

theorem reconstructSchema_spec (desc : Raw.Value) (r : Registry) :
    wp (reconstructSchema desc) r fun result r' => ∀ s, result = .ok s → decodeSchema desc r = .ok s ∧
      ∃ owner inserted, r.registerSchema s = .ok (r', owner, inserted) := by
  simp only [wp, reconstructSchema, EStateM.run]
  cases decoded : decodeSchema desc r with
  | error e => simp
  | ok s =>
      simp only
      cases registered : r.registerSchema s with
      | error e => simp
      | ok result =>
          obtain ⟨r', owner, inserted⟩ := result
          rintro _ ⟨⟩
          exact ⟨rfl, owner, inserted, registered⟩

def sameIds (listed rebuilt : List Schema) : Prop :=
  rebuilt.map Schema.contentId = listed.map Schema.contentId

structure Faithful (known : Registry) (earlier listed rebuilt : List Schema) : Prop where
  enough : Resolves known earlier listed → sameIds listed rebuilt
  needed : Uncollided listed rebuilt → sameIds listed rebuilt → Resolves known earlier listed

theorem Faithful.cons {known r r' : Registry} {earlier listed rebuilt : List Schema} {s s' owner : Schema}
    {inserted : Bool} (ids : KnownIds known earlier r)
    (decoded : decodeSchema (Raw.encodeSchema s.raw) r = .ok s')
    (registered : r.registerSchema s' = .ok (r', owner, inserted))
    (rest : KnownIds known (earlier ++ [s]) r' → Faithful known (earlier ++ [s]) listed rebuilt) :
    Faithful known earlier (s :: listed) (s' :: rebuilt) := by
  obtain ⟨name, version⟩ := decoded_named decoded
  have later (sameId : s'.contentId = s.contentId) : Faithful known (earlier ++ [s]) listed rebuilt := by
    refine rest (ids.register ?_ registered)
    rw [Schema.identity, Schema.identity, name, version, sameId]
  have nested : s'.raw.nestedIds = s.raw.nestedIds ↔
      ∀ n ∈ s.raw.references, resolvedId known earlier n.name n.version = some n.contentId := by
    rw [decoded_nestedIds decoded]
    simp only [ids _ _]
  constructor
  · rintro ⟨here, after⟩
    have sameId := decoded_contentId decoded (nested.mpr here)
    rw [sameIds, List.map_cons, List.map_cons, sameId, (later sameId).enough after]
  · intro uncollided same
    rw [sameIds, List.map_cons, List.map_cons, List.cons.injEq] at same
    rw [Uncollided, List.forall₂_cons] at uncollided
    exact ⟨nested.mp (uncollided.1 same.1), (later same.1).needed uncollided.2 same.2⟩

def encoded (s : Schema) : Cell := .message (Raw.encodeSchema s.raw)

theorem reconstructAll_spec (known : Registry) (earlier listed : List Schema) (r : Registry) :
    wp (reconstructAll (listed.map encoded)) r fun result _ =>
      ∀ rebuilt, result = .ok rebuilt → KnownIds known earlier r → Faithful known earlier listed rebuilt := by
  induction listed generalizing earlier r with
  | nil =>
      rw [List.map_nil, reconstructAll, wp_pure]
      rintro _ ⟨⟩ _
      exact ⟨fun _ => rfl, fun _ _ => trivial⟩
  | cons s listed ih =>
      rw [List.map_cons, reconstructAll, wp_bind]
      apply wp_mono (reconstructSchema_spec _ r)
      rintro (e | s') r' spec
      · simp
      · obtain ⟨decoded, owner, inserted, registered⟩ := spec s' rfl
        rw [andThen_ok, wp_bind]
        apply wp_mono (ih (earlier ++ [s]) r')
        rintro (e | rebuilt) _ rest
        · simp
        · rw [andThen_ok, wp_pure]
          rintro _ ⟨⟩ ids
          exact Faithful.cons ids decoded registered (rest rebuilt rfl)

-- the schema of the state is the last of the list
theorem reconstructAll_snoc (cells : List Cell) (c : Cell) : reconstructAll (cells ++ [c]) = (do
    let accepted ← reconstructAll cells
    let state ← reconstructSchema (Cell.asMessage (some c))
    return accepted ++ [state]) := by
  induction cells with
  | nil => simp [reconstructAll]
  | cons c' cells ih => simp [reconstructAll, ih]

theorem reconstructListed_spec (accepted : List Schema) (state : Schema) (r : Registry) :
    wp (do
      let rebuilt ← reconstructAll (accepted.map encoded)
      let rebuiltState ← reconstructSchema (Raw.encodeSchema state.raw)
      return (⟨rebuilt, rebuiltState⟩ : Manifest)) r fun result _ => ∀ mf, result = .ok mf →
        Faithful r [] (accepted ++ [state]) (mf.accepted ++ [mf.state]) := by
  have whole := reconstructAll_spec r [] (accepted ++ [state]) r
  rw [List.map_append, List.map_singleton, reconstructAll_snoc, wp_bind] at whole
  rw [wp_bind]
  apply wp_mono whole
  rintro (e | rebuilt) r' first
  · simp
  · rw [andThen_ok, wp_bind] at first ⊢
    apply wp_mono first
    rintro (e | rebuiltState) _ both
    · simp
    · rintro _ ⟨⟩
      exact both _ rfl (.start r)

/-! ## The wire -/

/-- A value that the wire gives back as it is. -/
structure Plain (schema : Raw.Schema) (v : Raw.Value) : Prop where
  claims : v.schema = schema
  declared : v.ClaimsDeclared
  canon : v.canon = v

def PlainCell (t : Raw.TypeRef) (c : Cell) : Prop := c.ClaimsDeclared t ∧ c.canon = c

theorem Plain.cell {schema : Raw.Schema} {v : Raw.Value} (h : Plain schema v) :
    PlainCell (.message schema) (.message v) := by
  refine ⟨⟨h.claims, h.declared⟩, ?_⟩
  rw [Cell.canon, h.canon]

theorem plain_list {element : Raw.TypeRef} {cells : List Cell} (h : ∀ c ∈ cells, PlainCell element c) :
    PlainCell (.list element) (.list cells) := by
  constructor
  · exact Raw.cellsClaimDeclared_iff.mpr fun c hc => (h c hc).1
  · rw [Cell.canon, Raw.canonCells_eq, List.map_congr_left (g := id) fun c hc => (h c hc).2, List.map_id]

theorem plain_token (k : Kind) (ref : Option Raw.Schema) :
    Plain typeTokenSchema.raw (Raw.makeTypeToken k ref) := by
  cases ref with
  | none => exact ⟨rfl, ⟨trivial, trivial⟩, rfl⟩
  | some s => exact ⟨rfl, ⟨trivial, trivial, trivial, trivial⟩, rfl⟩

theorem plain_type (t : Raw.TypeRef) :
    ∀ c ∈ Raw.encodeType t, PlainCell (.message typeTokenSchema.raw) c := by
  induction t with
  | list element ih =>
      rw [Raw.encodeType, List.forall_mem_cons]
      exact ⟨(plain_token _ _).cell, ih⟩
  | int | float | text | bool | bytes =>
      rw [Raw.encodeType, List.forall_mem_singleton]
      · exact (plain_token _ _).cell
      all_goals simp
  | message schema _ =>
      rw [Raw.encodeType, List.forall_mem_singleton]
      exact (plain_token _ _).cell

theorem plain_field (f : Raw.Field) : Plain fieldDescSchema.raw (Raw.encodeField f) := by
  have tokens := plain_list (plain_type f.type)
  refine ⟨rfl, ⟨trivial, trivial, tokens.1, trivial⟩, ?_⟩
  simp only [Raw.encodeField, Raw.Value.canon, Raw.canonSlots, tokens.2]
  rfl

theorem plain_schema (s : Raw.Schema) : Plain schemaDescSchema.raw (Raw.encodeSchema s) := by
  have fields : PlainCell (.list (.message fieldDescSchema.raw))
      (.list (s.fields.map fun f => .message (Raw.encodeField f))) := by
    apply plain_list
    intro c hc
    obtain ⟨f, _, rfl⟩ := List.mem_map.mp hc
    exact (plain_field f).cell
  refine ⟨rfl, ⟨trivial, trivial, fields.1, trivial⟩, ?_⟩
  simp only [Raw.encodeSchema, Raw.Value.canon, Raw.canonSlots, fields.2]
  rfl

theorem plain_manifest (accepted : List Schema) (state : Schema) :
    Plain manifestSchema.raw (encodeManifest accepted state).raw := by
  have schemas : PlainCell (.list (.message schemaDescSchema.raw))
      (.list ((accepted.map Schema.raw).map fun s => .message (Raw.encodeSchema s))) := by
    apply plain_list
    intro c hc
    obtain ⟨s, _, rfl⟩ := List.mem_map.mp hc
    exact (plain_schema s).cell
  have last := (plain_schema state.raw).cell
  refine ⟨rfl, ⟨schemas.1, last.1, trivial⟩, ?_⟩
  simp only [encodeManifest, Raw.encodeManifest, Raw.Value.canon, Raw.canonSlots, schemas.2, last.2]

theorem reconstructManifest_spec {accepted : List Schema} {state : Schema} {bytes : ByteString}
    (written : serialize (encodeManifest accepted state) = .ok bytes) (r : Registry) :
    wp (reconstructManifest bytes) r fun result _ => ∀ mf, result = .ok mf →
      Faithful r [] (accepted ++ [state]) (mf.accepted ++ [mf.state]) := by
  unfold reconstructManifest
  cases verdict : admitUnverified (parse bytes) manifestSchema .firstError with
  | reject errors => simp
  | accept v =>
      obtain ⟨_, body, code, rfl⟩ := Proof.serialize_ok.mp written
      have plain := plain_manifest accepted state
      have wire := (Proof.accepted_iff_fits code plain.declared .firstError v).mp verdict
      have same : v.raw = (encodeManifest accepted state).raw := wire.2.2.2.1.trans plain.canon
      have listed : Cell.asList (v.get "accepted") = accepted.map encoded := by
        rw [Value.get, same]
        exact List.map_map
      have last : Cell.asMessage (v.get "state") = Raw.encodeSchema state.raw := by
        rw [Value.get, same]
        rfl
      simp only [listed, last]
      exact reconstructListed_spec accepted state r

/-! ## Reconstruction -/

theorem reconstruct_spec {seam : Seam ς} {abi inst : Pointer} {k : Kernel ν ς} {accepted : List Schema}
    {state : Schema} {bytes : ByteString} {memory : ς}
    (written : serialize (encodeManifest accepted state) = .ok bytes)
    (described : seam.describe abi inst k.world.env.memory = ((zenOk, bytes), memory)) :
    wp (reconstruct seam abi inst) k fun result _ => ∀ mf, result = .ok mf →
      Faithful k.registry [] (accepted ++ [state]) (mf.accepted ++ [mf.state]) := by
  rw [reconstruct, wp_bind, wp_onSeam, SeamM.describe, wp_perform, described, andThen_ok]
  simp only [ne_eq, not_true_eq_false, ↓reduceIte, wp_onRegistry]
  exact reconstructManifest_spec written k.registry

theorem sameIds_snoc {accepted rebuilt : List Schema} {state rebuiltState : Schema} :
    sameIds (accepted ++ [state]) (rebuilt ++ [rebuiltState]) ↔
      rebuilt.map Schema.contentId = accepted.map Schema.contentId ∧
        rebuiltState.contentId = state.contentId := by
  rw [sameIds, List.map_append, List.map_append, List.map_singleton, List.map_singleton]
  constructor
  · intro same
    obtain ⟨front, last⟩ := List.append_inj' same rfl
    exact ⟨front, List.singleton_inj.mp last⟩
  · rintro ⟨front, last⟩
    rw [front, last]

theorem reconstruct_keeps_content_ids {seam : Seam ς} {abi inst : Pointer} {k k' : Kernel ν ς}
    {accepted : List Schema} {state : Schema} {bytes : ByteString} {memory : ς} {mf : Manifest}
    (written : serialize (encodeManifest accepted state) = .ok bytes)
    (described : seam.describe abi inst k.world.env.memory = ((zenOk, bytes), memory))
    (accepts : (reconstruct seam abi inst).run k = .ok mf k') :
    (Resolves k.registry [] (accepted ++ [state]) →
      mf.accepted.map Schema.contentId = accepted.map Schema.contentId ∧
        mf.state.contentId = state.contentId) ∧
    (Uncollided (accepted ++ [state]) (mf.accepted ++ [mf.state]) →
      mf.accepted.map Schema.contentId = accepted.map Schema.contentId →
        mf.state.contentId = state.contentId → Resolves k.registry [] (accepted ++ [state])) := by
  have faithful := wp_ok (reconstruct_spec written described) accepts mf rfl
  constructor
  · intro resolves
    exact sameIds_snoc.mp (faithful.enough resolves)
  · intro uncollided front last
    exact faithful.needed uncollided (sameIds_snoc.mpr ⟨front, last⟩)

def bytesOf (v : Value) : ByteString := (serialize v).toOption.getD []

/-- Every path of one letter is a library, its own descriptor and its one instance. -/
def toySeam (accepts : Pointer → List Schema) (revives : Pointer → ZenStatus) : Seam Unit where
  libOpen path _ := (match path with | [letter] => .ok letter.toNat | _ => .error "not found", ())
  shardAbi lib _ := (some (some lib), ())
  libClose _ _ := ()
  abiVersion _ _ := zenAbiVersion
  create abi _ := (some abi, ())
  destroy _ _ _ := ()
  describe abi _ _ := ((zenOk, bytesOf (encodeManifest (accepts abi) Ping)), ())
  snapshot _ _ _ := ((zenOk, bytesOf (pingValue 7)), ())
  policy _ _ _ := ((zenOk, bytesOf pingPolicy), ())
  revive abi _ _ _ := (revives abi, ())

def Inner : Schema := ⟨⟨ascii "Inner", 1, [⟨ascii "a", .int, true⟩]⟩, by decide⟩

def OtherInner : Schema := ⟨⟨ascii "Inner", 1, [⟨ascii "b", .text, true⟩]⟩, by decide⟩

def Outer : Schema := ⟨⟨ascii "Outer", 1, [⟨ascii "in", .message OtherInner.raw, true⟩]⟩, by decide⟩

-- library A accepts the first `Inner`, B only `Outer`, C lists `Outer` and what it nests
def nestingAccepts (abi : Pointer) : List Schema :=
  if abi = 65 then [Inner] else if abi = 66 then [Outer] else [OtherInner, Outer]

def nestingSeam : Seam Unit := toySeam nestingAccepts fun _ => zenOk

def answer {σ α : Type} : EStateM.Result Exn σ α → Option α
  | .ok a _ => some a
  | .error _ _ => none

theorem answer_eq_some {σ α : Type} {r : EStateM.Result Exn σ α} {a : α} (h : answer r = some a) :
    ∃ s, r = .ok a s := by
  cases r with
  | ok b s =>
      cases h
      exact ⟨s, rfl⟩
  | error e s => cases h

theorem toy_describe (accepts : Pointer → List Schema) (revives : Pointer → ZenStatus) (abi inst : Pointer)
    (short : ((serialize (encodeManifest (accepts abi) Ping)).toOption).isSome = true) : ∃ bytes,
      serialize (encodeManifest (accepts abi) Ping) = .ok bytes ∧
        (toySeam accepts revives).describe abi inst () = ((zenOk, bytes), ()) := by
  obtain ⟨bytes, written⟩ := Option.isSome_iff_exists.mp short
  refine ⟨bytes, toOption_eq_some.mp written, ?_⟩
  simp only [toySeam, bytesOf, written, Option.getD_some]

theorem reconstruct_keeps_content_ids_nested : ∃ mf k',
    (reconstruct nestingSeam 67 67).run (System.start () : System Unit Unit).kernel = .ok mf k' ∧
    mf.accepted.map Schema.contentId = [OtherInner, Outer].map Schema.contentId := by
  have accepts : nestingAccepts 67 = [OtherInner, Outer] := rfl
  obtain ⟨bytes, written, described⟩ :=
    toy_describe nestingAccepts (fun _ => zenOk) 67 67 (by decide +kernel)
  rw [accepts] at written
  have evaluated : (answer ((reconstruct nestingSeam 67 67).run
      (System.start () : System Unit Unit).kernel)).isSome = true := by
    decide +kernel
  obtain ⟨mf, answered⟩ := Option.isSome_iff_exists.mp evaluated
  obtain ⟨k', run⟩ := answer_eq_some answered
  refine ⟨mf, k', run, ((reconstruct_keeps_content_ids written described run).1 ?_).1⟩
  exact ⟨by decide +kernel, by decide +kernel, by decide +kernel, trivial⟩

-- after A is loaded, B's `Outer` comes back with A's `Inner` in it
theorem outer_nests_other_inner : ∃ s bytes mf k',
    Reaches nestingSeam pingOps (System.start ()) [.load (ascii "a") (ascii "A")] s ∧
    serialize (encodeManifest [Outer] Ping) = .ok bytes ∧
    nestingSeam.describe 66 66 s.kernel.world.env.memory = ((zenOk, bytes), ()) ∧
    (reconstruct nestingSeam 66 66).run s.kernel = .ok mf k' ∧
    mf.accepted.map Schema.contentId ≠ [Outer].map Schema.contentId := by
  have accepts : nestingAccepts 66 = [Outer] := rfl
  obtain ⟨bytes, written, described⟩ :=
    toy_describe nestingAccepts (fun _ => zenOk) 66 66 (by decide +kernel)
  rw [accepts] at written
  have evaluated : ((exec (System.step nestingSeam pingOps) [.load (ascii "a") (ascii "A")]
      (System.start ())).bind fun s => (answer ((reconstruct nestingSeam 66 66).run s.kernel)).map fun mf =>
        decide (mf.accepted.map Schema.contentId ≠ [Outer].map Schema.contentId)) = some true := by
    decide +kernel
  obtain ⟨s, reached, rebuilt⟩ := Option.bind_eq_some_iff.mp evaluated
  obtain ⟨mf, answered, different⟩ := Option.map_eq_some_iff.mp rebuilt
  obtain ⟨k', run⟩ := answer_eq_some answered
  exact ⟨s, bytes, mf, k', Run.of_exec reached, written, described, run, of_decide_eq_true different⟩

end Zen.Kernel
