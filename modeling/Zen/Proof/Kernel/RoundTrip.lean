import Zen.Proof.Kernel.Manifest

/-!
# The manifest round trip

A descriptor of a schema whose references the host can resolve decodes, and to what it describes.
Down the list the registry answers as `Resolves` says, so no entry fails; and the bytes themselves
pass the gate because a manifest is as deep as its meta-schema.
-/

namespace Zen.Kernel
open Lib Sb KernelM
open Raw (Cell)

variable {ν ς : Type}

theorem forall_references_cons {P : Raw.Schema → Prop} {f : Raw.Field} {fields : List Raw.Field} :
    (∀ n ∈ (f :: fields).filterMap fun f => f.type.reference, P n) ↔
      (∀ n, f.type.reference = some n → P n) ∧ ∀ n ∈ fields.filterMap fun f => f.type.reference, P n := by
  rw [List.filterMap_cons]
  cases f.type.reference with
  | none => simp
  | some n => simp

/-! ## Decoding succeeds -/

theorem resolve_of_known {deps : Registry} {t : Raw.TypeRef}
    (known : ∀ n, t.reference = some n → ∃ owner, deps.lookup n.name n.version = some owner) :
    ∃ type, resolve deps t = some type := by
  induction t with
  | int | float | text | bool | bytes => exact ⟨_, rfl⟩
  | message schema _ =>
      obtain ⟨owner, found⟩ := known schema rfl
      exact ⟨typeMessage owner, by rw [resolve, found, Option.map_some]⟩
  | list element ih =>
      obtain ⟨type, resolved⟩ := ih known
      exact ⟨typeList type, by rw [resolve, resolved, Option.map_some]⟩

theorem decodeField_of_resolved {deps : Registry} {f : Raw.Field} {type : TypeRef}
    (resolved : resolve deps f.type = some type) :
    decodeField deps (Raw.encodeField f) = .ok ⟨f.name, type, f.required⟩ := by
  have tokens : Cell.asList ((Raw.encodeField f).get "type") = Raw.encodeType f.type := rfl
  have decoded : decodeType deps (Raw.encodeType f.type) = .ok (type, []) := by
    rw [← toOption_eq_some, ← List.append_nil (Raw.encodeType f.type), decodeType_encodeType, resolved,
      Option.map_some]
  rw [decodeField, tokens, decoded]
  rfl

theorem decodeFields_of_known {deps : Registry} {fields : List Raw.Field}
    (known : ∀ n ∈ fields.filterMap fun f => f.type.reference, ∃ owner, deps.lookup n.name n.version = some owner) :
    ∃ rebuilt, (fields.map fun f => Cell.message (Raw.encodeField f)).mapM (fun c =>
      decodeField deps (Cell.asMessage (some c))) = .ok rebuilt := by
  induction fields with
  | nil => exact ⟨[], rfl⟩
  | cons f fields ih =>
      obtain ⟨here, later⟩ := forall_references_cons.mp known
      obtain ⟨type, resolved⟩ := resolve_of_known here
      obtain ⟨rebuilt, decoded⟩ := ih later
      refine ⟨⟨f.name, type, f.required⟩ :: rebuilt, ?_⟩
      rw [List.map_cons, List.mapM_cons, decoded]
      simp only [Cell.asMessage, decodeField_of_resolved resolved]
      rfl

theorem checkFields_of_distinct {seen : List ByteString} {fields : List Field}
    (names : ∀ f ∈ fields, f.name ≠ [] ∧ f.name ∉ seen) (nodup : (fields.map Field.name).Nodup) :
    Schema.checkFields seen fields = .ok () := by
  induction fields generalizing seen with
  | nil => rfl
  | cons f fields ih =>
      obtain ⟨filled, unseen⟩ := names f (by simp)
      rw [List.map_cons, List.nodup_cons] at nodup
      rw [Schema.checkFields, if_neg (by simpa using filled), if_neg unseen]
      refine ih ?_ nodup.2
      intro g hg
      obtain ⟨filled', unseen'⟩ := names g (List.mem_cons_of_mem f hg)
      refine ⟨filled', ?_⟩
      intro seen'
      rcases List.mem_cons.mp seen' with same | seen'
      · exact nodup.1 (same ▸ List.mem_map_of_mem hg)
      · exact unseen' seen'

theorem resolved_names {deps : Registry} {fields : List Raw.Field} {rebuilt : List Field}
    (h : List.Forall₂ (FieldResolved deps) fields rebuilt) :
    rebuilt.map Field.name = fields.map Raw.Field.name := by
  induction h with
  | nil => rfl
  | cons resolved _ ih => rw [List.map_cons, List.map_cons, resolved.name, ih]

theorem decodeSchema_of_known {deps : Registry} {s : Schema}
    (known : ∀ n ∈ s.raw.references, ∃ owner, deps.lookup n.name n.version = some owner) :
    ∃ s', decodeSchema (Raw.encodeSchema s.raw) deps = .ok s' := by
  have fields : Cell.asList ((Raw.encodeSchema s.raw).get "fields") =
      s.raw.fields.map fun f => .message (Raw.encodeField f) := rfl
  obtain ⟨rebuilt, decoded⟩ := decodeFields_of_known known
  have names := resolved_names (decodeFields_encoded decoded)
  obtain ⟨filled, nodup, _⟩ := Raw.Schema.wf_iff.mp s.wf
  have checked : Schema.checkFields [] rebuilt = .ok () := by
    apply checkFields_of_distinct
    · intro g hg
      obtain ⟨f, hf, same⟩ := List.mem_map.mp (names ▸ List.mem_map_of_mem (f := Field.name) hg)
      exact ⟨same ▸ filled f hf, List.not_mem_nil⟩
    · rw [names]
      exact nodup
  rw [decodeSchema, fields, decoded]
  simp only [bind, Except.bind]
  unfold Schema.make
  split
  · exact ⟨_, rfl⟩
  · rename_i e failed
    rw [checked] at failed
    cases failed

/-! ## What is decoded -/

theorem resolve_alike {deps : Registry} {t : Raw.TypeRef} {t' : TypeRef} (h : resolve deps t = some t')
    (meant : ∀ n, t.reference = some n → (deps.lookup n.name n.version).map Schema.contentId = some n.contentId) :
    t.Alike t'.raw := by
  induction t generalizing t' with
  | int | float | text | bool | bytes =>
      cases h
      rfl
  | message schema _ =>
      obtain ⟨owner, found, rfl⟩ := Option.map_eq_some_iff.mp h
      obtain ⟨name, version⟩ := Registry.lookup_some found
      have sameId := meant schema rfl
      rw [found] at sameId
      exact ⟨name, version, Option.some.inj sameId⟩
  | list element ih =>
      obtain ⟨element', resolved, rfl⟩ := Option.map_eq_some_iff.mp h
      exact ih resolved meant

theorem resolve_eq {deps : Registry} {t : Raw.TypeRef} {t' : TypeRef} (h : resolve deps t = some t')
    (meant : ∀ n, t.reference = some n → (deps.lookup n.name n.version).map Schema.raw = some n) :
    t'.raw = t := by
  induction t generalizing t' with
  | int | float | text | bool | bytes =>
      cases h
      rfl
  | message schema _ =>
      obtain ⟨owner, found, rfl⟩ := Option.map_eq_some_iff.mp h
      have same := meant schema rfl
      rw [found] at same
      exact congrArg Raw.TypeRef.message (Option.some.inj same)
  | list element ih =>
      obtain ⟨element', resolved, rfl⟩ := Option.map_eq_some_iff.mp h
      exact congrArg Raw.TypeRef.list (ih resolved meant)

theorem fields_alike {deps : Registry} {fields : List Raw.Field} {rebuilt : List Field}
    (h : List.Forall₂ (FieldResolved deps) fields rebuilt)
    (meant : ∀ n ∈ fields.filterMap fun f => f.type.reference,
      (deps.lookup n.name n.version).map Schema.contentId = some n.contentId) :
    List.Forall₂ Raw.Field.Alike fields (rebuilt.map Field.raw) := by
  induction h with
  | nil => exact .nil
  | @cons f g fields rebuilt resolved _ ih =>
      obtain ⟨here, later⟩ := forall_references_cons.mp meant
      exact .cons ⟨resolved.name, resolved.required, resolve_alike resolved.type here⟩ (ih later)

theorem fields_eq {deps : Registry} {fields : List Raw.Field} {rebuilt : List Field}
    (h : List.Forall₂ (FieldResolved deps) fields rebuilt)
    (meant : ∀ n ∈ fields.filterMap fun f => f.type.reference,
      (deps.lookup n.name n.version).map Schema.raw = some n) : rebuilt.map Field.raw = fields := by
  induction h with
  | nil => rfl
  | @cons f g fields rebuilt resolved _ ih =>
      obtain ⟨here, later⟩ := forall_references_cons.mp meant
      obtain ⟨name, type, required⟩ := f
      rw [List.map_cons, ih later, Field.raw, resolve_eq resolved.type here, resolved.name, resolved.required]

theorem decoded_alike {deps : Registry} {s s' : Schema}
    (h : decodeSchema (Raw.encodeSchema s.raw) deps = .ok s')
    (meant : ∀ n ∈ s.raw.references, (deps.lookup n.name n.version).map Schema.contentId = some n.contentId) :
    s.raw.Alike s'.raw := by
  obtain ⟨name, version⟩ := decoded_named h
  have sameId := decoded_contentId h ((decoded_nestedIds h).mpr meant)
  obtain ⟨rebuilt, resolved, same⟩ := decodeSchema_encodeSchema h
  refine ⟨⟨name, version, sameId⟩, ?_⟩
  rw [same]
  exact fields_alike resolved meant

theorem decoded_eq {deps : Registry} {s s' : Schema}
    (h : decodeSchema (Raw.encodeSchema s.raw) deps = .ok s')
    (meant : ∀ n ∈ s.raw.references, (deps.lookup n.name n.version).map Schema.raw = some n) : s' = s := by
  obtain ⟨⟨name, version, fields⟩, wf⟩ := s
  obtain ⟨rebuilt, resolved, same⟩ := decodeSchema_encodeSchema h
  apply Schema.ext
  rw [same, fields_eq resolved meant]

/-! ## The list succeeds -/

/-- Where content ids tell the schemas of `pool` from what is meant, it is found itself. -/
theorem lookup_meant {r : Registry} {pool : List Schema} {n : Raw.Schema} (within : ∀ o ∈ r.published, o ∈ pool)
    (distinct : ∀ o ∈ pool, n.contentId = o.raw.contentId → n = o.raw)
    (found : (r.lookup n.name n.version).map Schema.contentId = some n.contentId) :
    (r.lookup n.name n.version).map Schema.raw = some n := by
  obtain ⟨owner, lookup, sameId⟩ := Option.map_eq_some_iff.mp found
  have published : owner ∈ r.published := List.mem_of_find?_eq_some lookup
  rw [lookup, Option.map_some, distinct owner (within owner published) sameId.symm]

theorem registerSchema_succeeds {r : Registry} {s : Schema}
    (clear : ∀ id, (r.lookup s.name s.version).map Schema.contentId = some id → id = s.contentId) :
    ∃ r' owner inserted, r.registerSchema s = .ok (r', owner, inserted) ∧
      ∀ o ∈ r'.published, o ∈ r.published ∨ o = s := by
  unfold Registry.registerSchema
  cases found : r.lookup s.name s.version with
  | none =>
      refine ⟨_, _, _, rfl, ?_⟩
      intro o published
      simpa using published
  | some existing =>
      have sameId := clear existing.contentId (by rw [found, Option.map_some])
      simp only [sameId, ↓reduceIte]
      exact ⟨_, _, _, rfl, fun o published => .inl published⟩

def references (listed : List Schema) : List Raw.Schema := listed.flatMap fun s => s.raw.references

/-- What becomes of `listed` when all goes well. -/
structure Restored (pool listed : List Schema) (r : Registry) (rebuilt : List Schema) (r' : Registry) : Prop where
  alike : List.Forall₂ (fun s s' => s.raw.Alike s'.raw) listed rebuilt
  exact : (∀ o ∈ r.published, o ∈ pool) → (∀ s ∈ listed, s ∈ pool) →
    Raw.NoCollision (references listed) (pool.map Schema.raw) →
      rebuilt = listed ∧ ∀ o ∈ r'.published, o ∈ pool

theorem reconstructSchema_succeeds {known r : Registry} {earlier listed : List Schema} {s : Schema}
    (ids : KnownIds known earlier r) (resolves : Resolves known earlier (s :: listed))
    (unconflicting : Unconflicting known earlier (s :: listed)) (pool : List Schema) :
    wp (reconstructSchema (Raw.encodeSchema s.raw)) r fun result r' => ∃ s', result = .ok s' ∧
      KnownIds known (earlier ++ [s]) r' ∧ Restored pool [s] r [s'] r' := by
  have meant : ∀ n ∈ s.raw.references, (r.lookup n.name n.version).map Schema.contentId = some n.contentId := by
    intro n refers
    rw [ids]
    exact resolves.1 n refers
  obtain ⟨s', decoded⟩ := @decodeSchema_of_known r s fun n refers => by
    obtain ⟨owner, found, _⟩ := Option.map_eq_some_iff.mp (meant n refers)
    exact ⟨owner, found⟩
  have alike := decoded_alike decoded meant
  have sameName : s'.name = s.name := alike.same.1
  have sameVersion : s'.version = s.version := alike.same.2.1
  have sameId : s'.contentId = s.contentId := alike.same.2.2
  obtain ⟨r', owner, inserted, registered, grown⟩ := @registerSchema_succeeds r s' fun id found => by
    rw [sameName, sameVersion, ids] at found
    rw [sameId]
    exact unconflicting.1 id found
  simp only [wp, reconstructSchema, EStateM.run, decoded, registered]
  refine ⟨s', rfl, ids.register ?_ registered, .cons alike .nil, ?_⟩
  · rw [Schema.identity, Schema.identity, sameName, sameVersion, sameId]
  · intro within listed distinct
    have same : s' = s := by
      refine decoded_eq decoded fun n refers => lookup_meant within (fun o ho => ?_) (meant n refers)
      exact distinct n (by simpa [references] using refers) o.raw (List.mem_map_of_mem ho)
    subst same
    refine ⟨rfl, fun o published => ?_⟩
    rcases grown o published with old | rfl
    · exact within o old
    · exact listed o (by simp)

theorem Restored.append {pool first second rebuilt rebuilt' : List Schema} {r mid r' : Registry}
    (h : Restored pool first r rebuilt mid) (h' : Restored pool second mid rebuilt' r') :
    Restored pool (first ++ second) r (rebuilt ++ rebuilt') r' := by
  refine ⟨List.rel_append h.alike h'.alike, ?_⟩
  intro within listed distinct
  rw [references, List.flatMap_append] at distinct
  obtain ⟨rfl, within⟩ := h.exact within (fun s hs => listed s (by simp [hs])) fun n hn =>
    distinct n (List.mem_append_left _ hn)
  obtain ⟨rfl, within⟩ := h'.exact within (fun s hs => listed s (by simp [hs])) fun n hn =>
    distinct n (List.mem_append_right _ hn)
  exact ⟨rfl, within⟩

theorem reconstructAll_succeeds {known r : Registry} {earlier listed : List Schema}
    (ids : KnownIds known earlier r) (resolves : Resolves known earlier listed)
    (unconflicting : Unconflicting known earlier listed) (pool : List Schema) :
    wp (reconstructAll (listed.map encoded)) r fun result r' => ∃ rebuilt, result = .ok rebuilt ∧
      KnownIds known (earlier ++ listed) r' ∧ Restored pool listed r rebuilt r' := by
  induction listed generalizing earlier r with
  | nil =>
      rw [List.map_nil, reconstructAll, wp_pure, List.append_nil]
      exact ⟨[], rfl, ids, .nil, fun within _ _ => ⟨rfl, within⟩⟩
  | cons s listed ih =>
      rw [List.map_cons, reconstructAll, wp_bind]
      apply wp_mono (reconstructSchema_succeeds ids resolves unconflicting pool)
      rintro _ mid ⟨s', rfl, ids, first⟩
      rw [andThen_ok, wp_bind]
      apply wp_mono (ih ids resolves.2 unconflicting.2)
      rintro _ r' ⟨rebuilt, rfl, ids, rest⟩
      rw [List.append_assoc, List.singleton_append] at ids
      exact ⟨s' :: rebuilt, rfl, ids, first.append rest⟩

/-! ## Manifests pass the gate -/

/-- All that the wire asks of a cell at a position of the meta-schemas. -/
structure Sendable (t : Raw.TypeRef) (depth : Nat) (c : Cell) : Prop where
  conforms : Raw.Conforms t c
  fits : c.fits depth
  claims : ∀ s ∈ c.schemas, s ∈ t.schemas

theorem sendable_text {s : ByteString} (fits : Raw.textFits s) {depth : Nat} (deep : depth ≤ kMaxBinaryDepth) :
    Sendable .text depth (.text s) := by
  refine ⟨rfl, ?_, by simp [Cell.schemas]⟩
  simp only [Raw.textFits, Bool.and_eq_true] at fits
  simp only [Cell.fits, Bool.and_eq_true, fits, and_true, decide_eq_true_eq]
  exact deep

theorem sendable_list {element : Raw.TypeRef} {depth : Nat} {cells : List Cell}
    (each : ∀ c ∈ cells, Sendable element (depth + 1) c) (short : cells.length ≤ kMaxListCount)
    (deep : depth ≤ kMaxBinaryDepth) : Sendable (.list element) depth (.list cells) := by
  refine ⟨⟨cells, rfl, fun c hc => (each c hc).conforms⟩, ?_, ?_⟩
  · simp only [Cell.fits, Bool.and_eq_true, Raw.cellsFit_iff, decide_eq_true_eq]
    exact ⟨⟨deep, short⟩, fun c hc => (each c hc).fits⟩
  · intro s hs
    obtain ⟨c, hc, claimed⟩ := Raw.exists_of_mem_cellSchemas hs
    exact (each c hc).claims s claimed

/-- The slots of a value of a meta-schema. -/
def SlotSendable (depth : Nat) (f : Raw.Field) : Option Cell → Prop
  | none => f.required = false
  | some c => Sendable f.type depth c

theorem slots_conform {fields : List Raw.Field} {slots : List (Option Cell)} {depth : Nat}
    (h : List.Forall₂ (SlotSendable depth) fields slots) : Raw.SlotsConform fields slots := by
  induction h with
  | nil => trivial
  | @cons f slot fields slots here _ ih =>
      cases slot with
      | none => exact ⟨here, ih⟩
      | some c => exact ⟨here.conforms, ih⟩

theorem slots_fit {fields : List Raw.Field} {slots : List (Option Cell)} {depth : Nat}
    (h : List.Forall₂ (SlotSendable depth) fields slots) : Raw.slotsFit depth slots := by
  induction h with
  | nil => rfl
  | @cons f slot fields slots here _ ih =>
      cases slot with
      | none => exact ih
      | some c =>
          rw [Raw.slotsFit, here.fits, ih]
          rfl

theorem slots_claim {fields : List Raw.Field} {slots : List (Option Cell)} {depth : Nat}
    (h : List.Forall₂ (SlotSendable depth) fields slots) :
    ∀ s ∈ Raw.slotSchemas slots, s ∈ Raw.fieldSchemas fields := by
  induction h with
  | nil => simp [Raw.slotSchemas]
  | @cons f slot fields slots here _ ih =>
      obtain ⟨name, type, required⟩ := f
      intro s hs
      rw [Raw.fieldSchemas, List.mem_append]
      cases slot with
      | none => exact .inr (ih s hs)
      | some c =>
          rw [Raw.slotSchemas, List.mem_append] at hs
          rcases hs with hs | hs
          · exact .inl (here.claims s hs)
          · exact .inr (ih s hs)

/-- All that the wire asks of a value. -/
structure SendableValue (schema : Raw.Schema) (depth : Nat) (v : Raw.Value) : Prop where
  claims : v.schema = schema
  conforms : Raw.ValueConforms schema v
  fits : v.fits depth
  nested : ∀ s ∈ v.schemas, s ∈ schema.schemas

theorem sendable_value {schema : Raw.Schema} {v : Raw.Value} {depth : Nat} (wf : v.wf) (claims : v.schema = schema)
    (slots : List.Forall₂ (SlotSendable depth) schema.fields v.slots) (deep : depth ≤ kMaxBinaryDepth) :
    SendableValue schema depth v := by
  subst claims
  refine ⟨rfl, (Raw.valueConforms_iff wf).mpr (slots_conform slots), ?_, ?_⟩
  · obtain ⟨schema, cells⟩ := v
    simp only [Raw.Value.fits, Bool.and_eq_true, decide_eq_true_eq]
    exact ⟨deep, slots_fit slots⟩
  · intro s hs
    rw [Raw.Value.schemas_eq, List.mem_cons] at hs
    rw [Raw.Schema.schemas_eq, List.mem_cons]
    exact hs.imp id (slots_claim slots s)

theorem SendableValue.cell {schema : Raw.Schema} {v : Raw.Value} {depth : Nat}
    (h : SendableValue schema (depth + 1) v) (deep : depth ≤ kMaxBinaryDepth) :
    Sendable (.message schema) depth (.message v) := by
  refine ⟨⟨v, rfl, by rw [h.claims], h.conforms⟩, ?_, h.nested⟩
  simp only [Cell.fits, Bool.and_eq_true, decide_eq_true_eq]
  exact ⟨deep, h.fits⟩

theorem sendable_int (n : Int64) {depth : Nat} (deep : depth ≤ kMaxBinaryDepth) : Sendable .int depth (.int n) :=
  ⟨rfl, decide_eq_true deep, by simp [Cell.schemas]⟩

theorem sendable_bool (b : Bool) {depth : Nat} (deep : depth ≤ kMaxBinaryDepth) :
    Sendable .bool depth (.bool b) :=
  ⟨rfl, decide_eq_true deep, by simp [Cell.schemas]⟩

theorem sendable_token (k : Kind) {ref : Option Raw.Schema} (named : ref.all fun n => Raw.textFits n.name)
    {depth : Nat} (deep : depth + 1 ≤ kMaxBinaryDepth) :
    Sendable (.message typeTokenSchema.raw) depth (.message (Raw.makeTypeToken k ref)) := by
  refine (sendable_value (Raw.makeTypeToken_wf k ref) rfl ?_ deep).cell (by omega)
  cases ref with
  | none => exact .cons (sendable_int _ deep) (.cons rfl (.cons rfl .nil))
  | some n =>
      exact .cons (sendable_int _ deep) (.cons (sendable_text named deep) (.cons (sendable_int _ deep) .nil))

theorem sendable_type {t : Raw.TypeRef} (named : t.reference.all fun n => Raw.textFits n.name)
    {depth : Nat} (deep : depth + 1 ≤ kMaxBinaryDepth) :
    ∀ c ∈ Raw.encodeType t, Sendable (.message typeTokenSchema.raw) depth c := by
  induction t with
  | int | float | text | bool | bytes =>
      rw [Raw.encodeType, List.forall_mem_singleton]
      · exact sendable_token _ rfl deep
      all_goals simp
  | message schema _ =>
      rw [Raw.encodeType, List.forall_mem_singleton]
      exact sendable_token _ named deep
  | list element ih =>
      rw [Raw.encodeType, List.forall_mem_cons]
      exact ⟨sendable_token _ rfl deep, ih named⟩

theorem encodeType_length (t : Raw.TypeRef) : (Raw.encodeType t).length = t.tokens := by
  induction t with
  | int | float | text | bool | bytes => rfl
  | message schema _ => rfl
  | list element ih => rw [Raw.encodeType, List.length_cons, ih, Raw.TypeRef.tokens]

theorem sendable_field {f : Raw.Field} (describable : f.describable) {depth : Nat}
    (deep : depth + 3 ≤ kMaxBinaryDepth) :
    Sendable (.message fieldDescSchema.raw) depth (.message (Raw.encodeField f)) := by
  simp only [Raw.Field.describable, Bool.and_eq_true, decide_eq_true_eq] at describable
  obtain ⟨⟨name, tokens⟩, refers⟩ := describable
  have type := @sendable_list _ (depth + 1) _ (sendable_type refers (by omega))
    (by rwa [encodeType_length]) (by omega)
  refine (sendable_value (Raw.encodeField_wf f) rfl ?_ (by omega)).cell (by omega)
  exact .cons (sendable_text name (by omega)) (.cons (sendable_bool _ (by omega)) (.cons type .nil))

theorem sendable_schema {s : Raw.Schema} (describable : s.describable) {depth : Nat}
    (deep : depth + 6 ≤ kMaxBinaryDepth) :
    Sendable (.message schemaDescSchema.raw) depth (.message (Raw.encodeSchema s)) := by
  simp only [Raw.Schema.describable, Bool.and_eq_true, decide_eq_true_eq, List.all_eq_true] at describable
  obtain ⟨⟨name, count⟩, fields⟩ := describable
  have each : ∀ c ∈ s.fields.map fun f => Cell.message (Raw.encodeField f),
      Sendable (.message fieldDescSchema.raw) (depth + 2) c := by
    intro c hc
    obtain ⟨f, hf, rfl⟩ := List.mem_map.mp hc
    exact sendable_field (fields f hf) (by omega)
  have list := sendable_list each (by rwa [List.length_map]) (by omega)
  refine (sendable_value (Raw.encodeSchema_wf s) rfl ?_ (by omega)).cell (by omega)
  exact .cons (sendable_text name (by omega)) (.cons (sendable_int _ (by omega)) (.cons list .nil))

theorem sendable_manifest {accepted : List Schema} {state : Schema} (short : accepted.length ≤ kMaxListCount)
    (describable : ∀ s ∈ accepted ++ [state], s.raw.describable) :
    SendableValue manifestSchema.raw 0 (encodeManifest accepted state).raw := by
  have each : ∀ c ∈ (accepted.map Schema.raw).map fun s => Cell.message (Raw.encodeSchema s),
      Sendable (.message schemaDescSchema.raw) 1 c := by
    rw [List.map_map]
    intro c hc
    obtain ⟨s, hs, rfl⟩ := List.mem_map.mp hc
    exact sendable_schema (describable s (by simp [hs])) (by decide)
  have list := @sendable_list _ 0 _ each (by rwa [List.length_map, List.length_map]) (by decide)
  have last := @sendable_schema _ (describable state (by simp)) 0 (by decide)
  exact sendable_value (encodeManifest accepted state).wf rfl (.cons list (.cons last .nil)) (by decide)

theorem metaSchemas_apart : Raw.NoCollision manifestSchema.raw.schemas manifestSchema.raw.schemas := by
  have four : ∀ s ∈ manifestSchema.raw.schemas,
      s ∈ [manifestSchema, schemaDescSchema, fieldDescSchema, typeTokenSchema].map Schema.raw := by
    simp [manifestSchema, schemaDescSchema, fieldDescSchema, typeTokenSchema, Raw.Schema.schemas,
      Raw.fieldSchemas, Raw.TypeRef.schemas]
  have apart : (([manifestSchema, schemaDescSchema, fieldDescSchema, typeTokenSchema].map Schema.raw).map
      Raw.Schema.contentId).Nodup := by
    decide +kernel
  intro s hs s' hs' sameId
  exact List.inj_on_of_nodup_map apart (four s hs) (four s' hs') sameId

theorem manifest_admitted {accepted : List Schema} {state : Schema} (short : accepted.length ≤ kMaxListCount)
    (describable : ∀ s ∈ accepted ++ [state], s.raw.describable) : ∃ bytes,
      serialize (encodeManifest accepted state) = .ok bytes ∧
      admitUnverified (parse bytes) manifestSchema .firstError = .accept (encodeManifest accepted state) := by
  have sendable := sendable_manifest short describable
  have distinct : Raw.NoCollision (encodeManifest accepted state).raw.schemas manifestSchema.raw.schemas :=
    fun s hs => metaSchemas_apart s (sendable.nested s hs)
  have live : (admitLive (encodeManifest accepted state) manifestSchema .firstError).ok :=
    Proof.admitLive_ok.mpr ⟨rfl, sendable.conforms⟩
  have name : manifestSchema.name.length < 2 ^ 16 := by decide
  have utf8 : validUtf8 manifestSchema.name := by decide +kernel
  obtain ⟨_, ⟨body, code⟩, declared⟩ := Proof.live_encodes distinct live
  refine ⟨_, Proof.serialize_ok.mpr ⟨name, body, code, rfl⟩, ?_⟩
  refine (Proof.accepted_iff_fits code declared .firstError _).mpr ⟨name, utf8, sendable.fits, ?_, sendable.conforms⟩
  exact (plain_manifest accepted state).canon.symm

/-! ## The round trip -/

theorem reconstructManifest_succeeds {accepted : List Schema} {state : Schema} {bytes : ByteString}
    {known : Registry}
    (admitted : admitUnverified (parse bytes) manifestSchema .firstError = .accept (encodeManifest accepted state))
    (resolves : Resolves known [] (accepted ++ [state]))
    (unconflicting : Unconflicting known [] (accepted ++ [state])) (pool : List Schema) :
    wp (reconstructManifest bytes) known fun result r' => ∃ mf, result = .ok mf ∧
      Restored pool (accepted ++ [state]) known (mf.accepted ++ [mf.state]) r' := by
  have listed : Cell.asList ((encodeManifest accepted state).get "accepted") = accepted.map encoded :=
    List.map_map
  have last : Cell.asMessage ((encodeManifest accepted state).get "state") = Raw.encodeSchema state.raw := rfl
  have whole := reconstructAll_succeeds (.start known) resolves unconflicting pool
  unfold reconstructManifest
  simp only [admitted, listed, last]
  rw [List.map_append, List.map_singleton, reconstructAll_snoc, wp_bind] at whole
  rw [wp_bind]
  apply wp_mono whole
  rintro (e | rebuilt) mid first
  · obtain ⟨_, failed, _⟩ := first
    cases failed
  · rw [andThen_ok, wp_bind] at first ⊢
    apply wp_mono first
    rintro (e | rebuiltState) r' both
    · obtain ⟨_, failed, _⟩ := both
      cases failed
    · obtain ⟨_, answered, _, restored⟩ := both
      cases answered
      exact ⟨⟨rebuilt, rebuiltState⟩, rfl, restored⟩

theorem manifest_round_trip {accepted : List Schema} {state : Schema} {known : Registry}
    (short : accepted.length ≤ kMaxListCount) (describable : ∀ s ∈ accepted ++ [state], s.raw.describable)
    (resolves : Resolves known [] (accepted ++ [state]))
    (unconflicting : Unconflicting known [] (accepted ++ [state])) :
    ∃ bytes, serialize (encodeManifest accepted state) = .ok bytes ∧
      ∀ (seam : Seam ς) (abi inst : Pointer) (k : Kernel ν ς) (memory : ς), k.registry = known →
        seam.describe abi inst k.world.env.memory = ((zenOk, bytes), memory) →
        ∃ mf k', (reconstruct seam abi inst).run k = .ok mf k' ∧
          List.Forall₂ (fun s s' => s.raw.Alike s'.raw) (accepted ++ [state]) (mf.accepted ++ [mf.state]) ∧
          (Raw.NoCollision (references (accepted ++ [state]))
            ((known.published ++ (accepted ++ [state])).map Schema.raw) → mf = ⟨accepted, state⟩) := by
  obtain ⟨bytes, written, admitted⟩ := manifest_admitted short describable
  refine ⟨bytes, written, ?_⟩
  intro seam abi inst k memory registry described
  subst registry
  apply wp_succeeds
  rw [reconstruct, wp_bind, wp_onSeam, SeamM.describe, wp_perform, described, andThen_ok]
  simp only [ne_eq, not_true_eq_false, ↓reduceIte, wp_onRegistry]
  apply wp_mono (reconstructManifest_succeeds admitted resolves unconflicting
    (k.registry.published ++ (accepted ++ [state])))
  rintro _ r' ⟨mf, rfl, restored⟩
  refine ⟨mf, rfl, restored.alike, ?_⟩
  intro distinct
  obtain ⟨whole, _⟩ := restored.exact (fun o ho => List.mem_append_left _ ho)
    (fun s hs => List.mem_append_right _ hs) distinct
  obtain ⟨rebuilt, rebuiltState⟩ := mf
  obtain ⟨front, last⟩ := List.append_inj' whole rfl
  cases front
  cases last
  rfl

theorem manifest_round_trip_nested : ∃ k', (reconstruct nestingSeam 67 67).run
    (System.start () : System Unit Unit).kernel = .ok ⟨[OtherInner, Outer], Ping⟩ k' := by
  have meets : ∀ {found : Option UInt64} {id : UInt64}, found.all (· == id) = true → ∀ id', found = some id' → id' = id :=
    fun all id' here => eq_of_beq ((Option.all_eq_true _ _).mp all id' here)
  have trip := @manifest_round_trip Unit Unit [OtherInner, Outer] Ping {} (by decide)
    (by decide +kernel) ⟨by decide +kernel, by decide +kernel, by decide +kernel, trivial⟩
    ⟨meets (by decide +kernel), meets (by decide +kernel), meets (by decide +kernel), trivial⟩
  obtain ⟨bytes, written, reads⟩ := trip
  have accepts : nestingAccepts 67 = [OtherInner, Outer] := rfl
  have described : nestingSeam.describe 67 67 () = ((zenOk, bytes), ()) := by
    simp only [nestingSeam, toySeam, bytesOf, accepts, written]
    rfl
  obtain ⟨mf, k', run, _, same⟩ := reads nestingSeam 67 67 (System.start () : System Unit Unit).kernel () rfl described
  have apart : Raw.NoCollision (references ([OtherInner, Outer] ++ [Ping]))
      ((([] : List Schema) ++ ([OtherInner, Outer] ++ [Ping])).map Schema.raw) := by
    have one : references ([OtherInner, Outer] ++ [Ping]) = [OtherInner.raw] := rfl
    rw [one]
    intro n hn o ho sameId
    obtain rfl := List.mem_singleton.mp hn
    have outer : OtherInner.raw.contentId ≠ Outer.raw.contentId := by decide +kernel
    have ping : OtherInner.raw.contentId ≠ Ping.raw.contentId := by decide +kernel
    simp only [List.nil_append, List.cons_append, List.map_cons, List.map_nil, List.mem_cons, List.not_mem_nil,
      or_false] at ho
    rcases ho with rfl | rfl | rfl
    · rfl
    · exact absurd sameId outer
    · exact absurd sameId ping
  rw [run, same apart]
  exact ⟨k', rfl⟩

end Zen.Kernel
