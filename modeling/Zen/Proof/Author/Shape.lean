import Zen.Proof.Core.Wire
import Zen.Proof.Kernel.Consumers
import Zen.Spec.Shape

/-!
# Shapes convert without loss

What is written for a struct passes the gate and reads back as the struct. An accepted value and what is
written for its struct read alike, hence are the same at every member.
-/

namespace Zen.Author
open Lib Kernel
open Raw (Cell Conforms FieldsConform ValueConforms SlotsConform)

/-! ## Derived schemas -/

theorem checkFields_named {seen : List ByteString} {fields : List Field} (names : ∀ f ∈ fields, f.name ≠ [] ∧ f.name ∉ seen)
    (nodup : (fields.map Field.name).Nodup) : Schema.checkFields seen fields = .ok () := by
  induction fields generalizing seen with
  | nil => rfl
  | cons f fields ih =>
      obtain ⟨⟨filled, unseen⟩, later⟩ := List.forall_mem_cons.mp names
      rw [List.map_cons, List.nodup_cons] at nodup
      rw [Schema.checkFields, if_neg (by simpa using filled), if_neg unseen]
      apply ih
      · intro g hg
        refine ⟨(later g hg).1, ?_⟩
        intro among
        rcases List.mem_cons.mp among with same | before
        · exact nodup.1 (same ▸ List.mem_map_of_mem hg)
        · exact (later g hg).2 before
      · exact nodup.2

theorem make_named {fields : List Field} (name : ByteString) (version : UInt32) (names : ∀ f ∈ fields, f.name ≠ [])
    (nodup : (fields.map Field.name).Nodup) : ∃ schema, Schema.make name version fields = .ok schema := by
  have checked := @checkFields_named [] fields (fun f hf => ⟨names f hf, List.not_mem_nil⟩) nodup
  unfold Schema.make
  split
  · exact ⟨_, rfl⟩
  · rename_i refused
    rw [checked] at refused
    cases refused

mutual

theorem typeRef_named (member : Member) (named : member.Named) : ∃ type, member.typeRef = .ok type := by
  match member with
  | .int64 => exact ⟨_, rfl⟩
  | .double => exact ⟨_, rfl⟩
  | .string => exact ⟨_, rfl⟩
  | .bool => exact ⟨_, rfl⟩
  | .bytes => exact ⟨_, rfl⟩
  | .vector element =>
      rw [Member.Named] at named
      obtain ⟨type, known⟩ := typeRef_named element named
      rw [Member.typeRef, known]
      exact ⟨_, rfl⟩
  | .shape s =>
      rw [Member.Named] at named
      obtain ⟨schema, known⟩ := schemaOf_named s named
      rw [Member.typeRef, known]
      exact ⟨_, rfl⟩

theorem schemaOf_named (s : Shape) (named : s.Named) : ∃ schema, s.schemaOf = .ok schema := by
  match s with
  | ⟨zenName, zenVersion, entries⟩ =>
      rw [Shape.Named] at named
      obtain ⟨filled, nodup, below⟩ := named
      obtain ⟨fields, built, names⟩ := buildFields_named entries below
      rw [← names] at nodup
      have each : ∀ f ∈ fields, f.name ≠ [] := by
        intro f hf
        have listed : f.name ∈ entries.map FieldEntry.name := names ▸ List.mem_map_of_mem hf
        obtain ⟨e, he, same⟩ := List.mem_map.mp listed
        exact same ▸ filled e he
      rw [Shape.schemaOf, built]
      exact make_named zenName zenVersion each nodup

theorem buildFields_named (entries : List FieldEntry) (named : entriesNamed entries) :
    ∃ fields, buildFields entries = .ok fields ∧ fields.map Field.name = entries.map FieldEntry.name := by
  match entries with
  | [] => exact ⟨[], rfl, rfl⟩
  | ⟨name, member⟩ :: entries =>
      rw [entriesNamed] at named
      obtain ⟨type, known⟩ := typeRef_named member named.1
      obtain ⟨fields, built, names⟩ := buildFields_named entries named.2
      rw [buildFields, known, built]
      exact ⟨⟨name, type, true⟩ :: fields, rfl, by rw [List.map_cons, List.map_cons, names]⟩

end

/-! ## Writing -/

/-- A cell that the gate accepts and whose nested values claim what is declared. -/
structure Fits (type : Raw.TypeRef) (c : Cell) : Prop where
  wf : c.wf
  conforms : Conforms type c
  declared : c.ClaimsDeclared type

mutual

theorem toCell_writes (member : Member) {type : TypeRef} (deduced : member.typeRef = .ok type) (obj : member.Object) :
    ∃ c, toCell member obj = .ok c ∧ Fits type.raw c ∧ fromCell member c = .ok obj := by
  match member with
  | .int64 | .double | .string | .bool | .bytes =>
      cases deduced
      exact ⟨_, rfl, ⟨rfl, rfl, trivial⟩, rfl⟩
  | .vector element =>
      rw [Member.typeRef] at deduced
      obtain ⟨inner, known, built⟩ := except_bind_ok.mp deduced
      cases built
      obtain ⟨cells, written, fit, read⟩ := @mapM_inverts _ _ _ _ (toCell element) (fromCell element) (Fits inner.raw) obj
        fun x _ => toCell_writes element known x
      refine ⟨.list cells, ?_, ⟨?_, ?_, ?_⟩, read⟩
      · rw [toCell, written]
        rfl
      · exact Cell.wf_list.mpr fun c hc => (fit c hc).wf
      · exact ⟨cells, rfl, fun c hc => (fit c hc).conforms⟩
      · exact Raw.cellsClaimDeclared_iff.mpr fun c hc => (fit c hc).declared
  | .shape s =>
      rw [Member.typeRef] at deduced
      obtain ⟨schema, known, built⟩ := except_bind_ok.mp deduced
      cases built
      obtain ⟨v, written, wf, claims, conforms, declared, read⟩ := toValue_writes s known obj
      refine ⟨.message v, ?_, ⟨?_, ?_, ?_⟩, read⟩
      · rw [toCell, written]
        rfl
      · rw [Cell.wf_message, wf]
      · exact ⟨v, rfl, by rw [claims], conforms⟩
      · exact ⟨claims, declared⟩

theorem toValue_writes (s : Shape) {schema : Schema} (derived : s.schemaOf = .ok schema) (obj : s.Object) :
    ∃ v : Raw.Value, toValue s obj = .ok v ∧ v.wf ∧ v.schema = schema.raw ∧ ValueConforms schema.raw v ∧
      v.ClaimsDeclared ∧ fromValue s v = .ok obj := by
  match s with
  | ⟨zenName, zenVersion, entries⟩ =>
      have derived' := derived
      rw [Shape.schemaOf] at derived
      obtain ⟨fields, built, made⟩ := except_bind_ok.mp derived
      have raw := make_ok made
      have nodup := (Raw.Schema.wf_iff.mp schema.wf).2.1
      have split : schema.raw.fields = [] ++ fields.map Field.raw := by rw [raw]; rfl
      obtain ⟨cells, length, written, wf, conform, declared, read⟩ :=
        @setFields_writes entries fields built obj schema.raw nodup [] split [] rfl
      have size : schema.raw.fields.length = fields.length := by rw [split, List.nil_append, List.length_map]
      have aligned : (Raw.Value.mk schema.raw (cells.map some)).wf := by
        rw [Raw.Value.wf_iff]
        refine ⟨schema.wf, by simp [length, size], ?_⟩
        simpa using wf
      refine ⟨⟨schema.raw, cells.map some⟩, ?_, aligned, rfl, ?_, ?_, read⟩
      · rw [toValue, derived']
        change setFields entries obj (Raw.Value.empty schema.raw) = _
        rw [Raw.Value.empty, size]
        exact written
      · rw [Raw.valueConforms_iff aligned, split]
        exact conform
      · rw [Raw.Value.claimsDeclared_eq, split]
        exact declared

theorem setFields_writes (entries : List FieldEntry) {fields : List Field} (built : buildFields entries = .ok fields)
    (obj : Entries entries) {schema : Raw.Schema} (nodup : (schema.fields.map Raw.Field.name).Nodup)
    {before : List Raw.Field} (split : schema.fields = before ++ fields.map Field.raw) {done : List (Option Cell)}
    (aligned : done.length = before.length) : ∃ cells : List Cell, cells.length = fields.length ∧
      setFields entries obj ⟨schema, done ++ List.replicate fields.length none⟩ = .ok ⟨schema, done ++ cells.map some⟩ ∧
      (∀ c ∈ cells, c.wf) ∧ SlotsConform (fields.map Field.raw) (cells.map some) ∧
      Raw.slotsClaimDeclared (fields.map Field.raw) (cells.map some) ∧
      fromFields entries ⟨schema, done ++ cells.map some⟩ = .ok obj := by
  match entries with
  | [] =>
      cases built
      exact ⟨[], rfl, rfl, by simp, trivial, trivial, rfl⟩
  | ⟨name, member⟩ :: entries =>
      rw [buildFields] at built
      obtain ⟨type, deduced, built⟩ := except_bind_ok.mp built
      obtain ⟨others, later, built⟩ := except_bind_ok.mp built
      cases built
      obtain ⟨c, written, fits, read⟩ := toCell_writes member deduced obj.1
      have split' : schema.fields = (before ++ [⟨name, type.raw, true⟩]) ++ others.map Field.raw := by
        rw [split, List.append_assoc]
        rfl
      have aligned' : (done ++ [some c]).length = (before ++ [Raw.Field.mk name type.raw true]).length := by
        simp [aligned]
      obtain ⟨cells, length, rest, wf, conform, declared, reads⟩ :=
        setFields_writes entries later obj.2 nodup split' aligned'
      have found := @Raw.get_of_split schema nodup before (others.map Field.raw) ⟨name, type.raw, true⟩ split done
        (cells.map some) aligned (some c)
      have next := @Raw.set_next schema nodup before (others.map Field.raw) ⟨name, type.raw, true⟩ split done aligned c
        others.length
      refine ⟨c :: cells, congrArg (· + 1) length, ?_, List.forall_mem_cons.mpr ⟨fits.wf, wf⟩, ⟨fits.conforms, conform⟩,
        ⟨fits.declared, declared⟩, ?_⟩
      · rw [setFields, written]
        change setFields entries obj.2 (((Raw.Value.mk schema (done ++ List.replicate (others.length + 1) none)).set name c).getD _) = _
        rw [next, Option.getD_some, rest]
        simp
      · rw [List.append_assoc] at reads
        rw [List.map_cons, fromFields, get!_of_get found]
        change (fromCell member c >>= fun d => fromFields entries _ >>= fun ds => .ok (d, ds)) = _
        rw [read]
        change (fromFields entries _ >>= fun ds => .ok (obj.1, ds)) = _
        rw [show done ++ some c :: cells.map some = done ++ ([some c] ++ cells.map some) from rfl, reads]
        rfl

end

/-! ## Reading alike -/

theorem get_of_get! {v : Raw.Value} {name : ByteString} {c : Cell} (read : v.get! name = .ok c) : v.get name = some c := by
  unfold Raw.Value.get! at read
  split at read
  · rename_i found
    cases read
    exact found
  · cases read

theorem fromFields_ok {name : ByteString} {member : Member} {entries : List FieldEntry} {v : Raw.Value}
    {obj : Entries (⟨name, member⟩ :: entries)} (read : fromFields (⟨name, member⟩ :: entries) v = .ok obj) :
    ∃ c, v.get name = some c ∧ fromCell member c = .ok obj.1 ∧ fromFields entries v = .ok obj.2 := by
  rw [fromFields] at read
  obtain ⟨c, found, read⟩ := except_bind_ok.mp read
  obtain ⟨x, first, read⟩ := except_bind_ok.mp read
  obtain ⟨xs, later, ⟨⟩⟩ := except_bind_ok.mp read
  exact ⟨c, get_of_get! found, first, later⟩

mutual

theorem fromCell_same (member : Member) {c d : Cell} {obj : member.Object} (read : fromCell member c = .ok obj)
    (read' : fromCell member d = .ok obj) : member.Same c d := by
  match member with
  | .int64 | .double | .string | .bool | .bytes =>
      rw [Member.Same]
      cases c <;> cases read
      cases d <;> cases read'
      rfl
  | .vector element =>
      rw [fromCell] at read read'
      obtain ⟨cells, list, reads⟩ := except_bind_ok.mp read
      obtain ⟨cells', list', reads'⟩ := except_bind_ok.mp read'
      cases c <;> cases list
      cases d <;> cases list'
      exact ⟨_, _, rfl, rfl, mapM_alike (fun y _ y' _ x => fromCell_same element) reads reads'⟩
  | .shape s =>
      rw [fromCell] at read read'
      obtain ⟨v, message, reads⟩ := except_bind_ok.mp read
      obtain ⟨w, message', reads'⟩ := except_bind_ok.mp read'
      cases c <;> cases message
      cases d <;> cases message'
      exact ⟨_, _, rfl, rfl, fromValue_same s reads reads'⟩

theorem fromValue_same (s : Shape) {v w : Raw.Value} {obj : s.Object} (read : fromValue s v = .ok obj)
    (read' : fromValue s w = .ok obj) : s.Same v w := by
  match s with
  | ⟨zenName, zenVersion, entries⟩ =>
      rw [fromValue] at read read'
      exact fromFields_same entries read read'

theorem fromFields_same (entries : List FieldEntry) {v w : Raw.Value} {obj : Entries entries}
    (read : fromFields entries v = .ok obj) (read' : fromFields entries w = .ok obj) : entriesSame entries v w := by
  match entries with
  | [] => trivial
  | ⟨name, member⟩ :: entries =>
      obtain ⟨c, found, first, later⟩ := fromFields_ok read
      obtain ⟨d, found', first', later'⟩ := fromFields_ok read'
      exact ⟨⟨c, d, found, found', fromCell_same member first first'⟩, fromFields_same entries later later'⟩

end

/-! ## Claiming what is declared -/

/-- The slots of a value that the gate accepts, from some field on. -/
structure SlotsFit (fields : List Raw.Field) (slots : List (Option Cell)) : Prop where
  length : slots.length = fields.length
  wf : ∀ c, some c ∈ slots → c.wf
  conform : SlotsConform fields slots
  declared : Raw.slotsClaimDeclared fields slots

theorem slotsFit_cons {name : ByteString} {type : Raw.TypeRef} {fields : List Raw.Field} {slots : List (Option Cell)}
    (fit : SlotsFit (⟨name, type, true⟩ :: fields) slots) :
    ∃ c rest, slots = some c :: rest ∧ Fits type c ∧ SlotsFit fields rest := by
  obtain ⟨length, wf, conform, declared⟩ := fit
  match slots with
  | some c :: rest =>
      exact ⟨c, rest, rfl, ⟨wf c (by simp), conform.1, declared.1⟩,
        ⟨Nat.succ.inj length, fun d hd => wf d (List.mem_cons_of_mem _ hd), conform.2, declared.2⟩⟩
  | none :: rest => cases conform.1

mutual

theorem fromCell_unique (member : Member) {type : TypeRef} (deduced : member.typeRef = .ok type) {c d : Cell}
    {obj : member.Object} (fits : Fits type.raw c) (fits' : Fits type.raw d) (read : fromCell member c = .ok obj)
    (read' : fromCell member d = .ok obj) : c = d := by
  match member with
  | .int64 | .double | .string | .bool | .bytes => exact fromCell_same _ read read'
  | .vector element =>
      rw [Member.typeRef] at deduced
      obtain ⟨inner, known, built⟩ := except_bind_ok.mp deduced
      cases built
      rw [fromCell] at read read'
      obtain ⟨cells, list, reads⟩ := except_bind_ok.mp read
      obtain ⟨cells', list', reads'⟩ := except_bind_ok.mp read'
      cases c <;> cases list
      cases d <;> cases list'
      obtain ⟨_, ⟨⟩, conform⟩ := fits.conforms
      obtain ⟨_, ⟨⟩, conform'⟩ := fits'.conforms
      have each (e) (he : e ∈ cells) : Fits inner.raw e :=
        ⟨Cell.wf_list.mp fits.wf e he, conform e he, Raw.cellsClaimDeclared_iff.mp fits.declared e he⟩
      have each' (e) (he : e ∈ cells') : Fits inner.raw e :=
        ⟨Cell.wf_list.mp fits'.wf e he, conform' e he, Raw.cellsClaimDeclared_iff.mp fits'.declared e he⟩
      have alike := mapM_alike (fun y hy y' hy' x => fromCell_unique element known (each y hy) (each' y' hy')) reads reads'
      rw [List.forall₂_eq_eq_eq] at alike
      rw [alike]
  | .shape s =>
      rw [Member.typeRef] at deduced
      obtain ⟨schema, known, built⟩ := except_bind_ok.mp deduced
      cases built
      rw [fromCell] at read read'
      obtain ⟨v, message, reads⟩ := except_bind_ok.mp read
      obtain ⟨w, message', reads'⟩ := except_bind_ok.mp read'
      cases c <;> cases message
      cases d <;> cases message'
      obtain ⟨_, ⟨⟩, _, conforms⟩ := fits.conforms
      obtain ⟨_, ⟨⟩, _, conforms'⟩ := fits'.conforms
      have wf : v.wf := by simpa using fits.wf
      have wf' : w.wf := by simpa using fits'.wf
      rw [fromValue_unique s known wf wf' fits.declared.1 fits'.declared.1 conforms conforms' fits.declared.2
        fits'.declared.2 reads reads']

theorem fromValue_unique (s : Shape) {schema : Schema} (derived : s.schemaOf = .ok schema) {v w : Raw.Value} (wf : v.wf)
    (wf' : w.wf) (claims : v.schema = schema.raw) (claims' : w.schema = schema.raw) (conforms : ValueConforms schema.raw v)
    (conforms' : ValueConforms schema.raw w) (declared : v.ClaimsDeclared) (declared' : w.ClaimsDeclared) {obj : s.Object}
    (read : fromValue s v = .ok obj) (read' : fromValue s w = .ok obj) : v = w := by
  match s with
  | ⟨zenName, zenVersion, entries⟩ =>
      rw [Shape.schemaOf] at derived
      obtain ⟨fields, built, made⟩ := except_bind_ok.mp derived
      have raw := make_ok made
      have nodup := (Raw.Schema.wf_iff.mp schema.wf).2.1
      have split : schema.raw.fields = [] ++ fields.map Field.raw := by rw [raw]; rfl
      rw [← claims, Raw.valueConforms_iff wf, claims, split] at conforms
      rw [← claims', Raw.valueConforms_iff wf', claims', split] at conforms'
      rw [Raw.Value.claimsDeclared_eq, claims, split] at declared
      rw [Raw.Value.claimsDeclared_eq, claims', split] at declared'
      obtain ⟨_, length, cells⟩ := Raw.Value.wf_iff.mp wf
      obtain ⟨_, length', cells'⟩ := Raw.Value.wf_iff.mp wf'
      rw [claims, split] at length
      rw [claims', split] at length'
      rw [fromValue] at read read'
      obtain ⟨_, slots⟩ := v
      obtain ⟨_, slots'⟩ := w
      cases claims
      cases claims'
      exact congrArg (Raw.Value.mk schema.raw) (@fromFields_unique entries fields built schema.raw nodup [] split [] [] slots
        slots' rfl rfl ⟨length, cells, conforms, declared⟩ ⟨length', cells', conforms', declared'⟩ obj read read')

theorem fromFields_unique (entries : List FieldEntry) {fields : List Field} (built : buildFields entries = .ok fields)
    {schema : Raw.Schema} (nodup : (schema.fields.map Raw.Field.name).Nodup) {before : List Raw.Field}
    (split : schema.fields = before ++ fields.map Field.raw) {done done' slots slots' : List (Option Cell)}
    (aligned : done.length = before.length) (aligned' : done'.length = before.length) (fit : SlotsFit (fields.map Field.raw) slots)
    (fit' : SlotsFit (fields.map Field.raw) slots') {obj : Entries entries} (read : fromFields entries ⟨schema, done ++ slots⟩ = .ok obj)
    (read' : fromFields entries ⟨schema, done' ++ slots'⟩ = .ok obj) : slots = slots' := by
  match entries with
  | [] =>
      cases built
      rw [List.eq_nil_of_length_eq_zero fit.length, List.eq_nil_of_length_eq_zero fit'.length]
  | ⟨name, member⟩ :: entries =>
      rw [buildFields] at built
      obtain ⟨type, deduced, built⟩ := except_bind_ok.mp built
      obtain ⟨others, later, built⟩ := except_bind_ok.mp built
      cases built
      obtain ⟨c, rest, rfl, fits, fit⟩ := slotsFit_cons fit
      obtain ⟨c', rest', rfl, fits', fit'⟩ := slotsFit_cons fit'
      obtain ⟨_, found, first, reads⟩ := fromFields_ok read
      obtain ⟨_, found', first', reads'⟩ := fromFields_ok read'
      rw [@Raw.get_of_split schema nodup before (others.map Field.raw) ⟨name, type.raw, true⟩ split done rest aligned] at found
      rw [@Raw.get_of_split schema nodup before (others.map Field.raw) ⟨name, type.raw, true⟩ split done' rest' aligned'] at found'
      cases found
      cases found'
      have same := fromCell_unique member deduced fits fits' first first'
      have split' : schema.fields = (before ++ [⟨name, type.raw, true⟩]) ++ others.map Field.raw := by
        rw [split, List.append_assoc]
        rfl
      rw [← List.singleton_append, ← List.append_assoc] at reads reads'
      have tails := fromFields_unique entries later nodup split' (by simp [aligned]) (by simp [aligned']) fit fit' reads reads'
      rw [same, tails]

end

/-! ## There and back -/

theorem toValue_accepted {s : Shape} {schema : Schema} (derived : s.schemaOf = .ok schema) (obj : s.Object) :
    ∃ v : Value, toValue s obj = .ok v.raw ∧ (∀ report, admitLive v schema report = .accept v) ∧ fromValue s v.raw = .ok obj := by
  obtain ⟨v, written, wf, claims, conforms, _, read⟩ := toValue_writes s derived obj
  refine ⟨⟨v, wf⟩, written, ?_, read⟩
  intro report
  rw [Proof.admitLive_accept]
  exact ⟨Raw.validateInto_eq_nil.mpr ⟨congrArg Raw.Schema.contentId claims, conforms⟩, rfl⟩

theorem toValue_fromValue {s : Shape} {schema : Schema} (derived : s.schemaOf = .ok schema) {v : Value} {report : Report}
    (accepted : (admitLive v schema report).ok) : ∃ obj w, fromValue s v.raw = .ok obj ∧ toValue s obj = .ok w ∧
      s.Same v.raw w ∧ (Raw.NoCollision v.raw.schemas schema.raw.schemas → w = v.raw) := by
  have conforms := (Proof.admitLive_ok.mp accepted).2
  obtain ⟨obj, read⟩ := fromValue_reads s derived v.raw conforms
  obtain ⟨w, written, wf, claims, conforms', declared', read'⟩ := toValue_writes s derived obj
  refine ⟨obj, w, read, written, fromValue_same s read read', ?_⟩
  intro distinct
  obtain ⟨same, _, declared⟩ := Proof.live_encodes distinct accepted
  exact fromValue_unique s derived wf v.wf claims (congrArg Schema.raw same) conforms' conforms declared' declared read' read

/-- Every struct goes through the gate and comes back; every accepted value comes back the same at each member
of the shape, and entirely where no schema that it claims collides with one of the shape. -/
theorem shape_round_trip (s : Shape) (named : s.Named) : ∃ schema, s.schemaOf = .ok schema ∧
    (∀ obj : s.Object, ∃ v : Value, toValue s obj = .ok v.raw ∧ (∀ report, admitLive v schema report = .accept v) ∧
      fromValue s v.raw = .ok obj) ∧
    ∀ (v : Value) (report : Report), (admitLive v schema report).ok → ∃ obj w, fromValue s v.raw = .ok obj ∧
      toValue s obj = .ok w ∧ s.Same v.raw w ∧ (Raw.NoCollision v.raw.schemas schema.raw.schemas → w = v.raw) := by
  obtain ⟨schema, derived⟩ := schemaOf_named s named
  exact ⟨schema, derived, toValue_accepted derived, fun v report accepted => toValue_fromValue derived accepted⟩

theorem outerShape_named : outerShape.Named := by
  simp only [outerShape, innerShape, Shape.Named, Member.Named, entriesNamed]
  decide

theorem shape_round_trip_outer : ∃ v : Value, toValue outerShape (ascii "box", [((7 : Int64), ())], ()) = .ok v.raw ∧
    fromValue outerShape v.raw = .ok (ascii "box", [((7 : Int64), ())], ()) := by
  obtain ⟨schema, _, forth, _⟩ := shape_round_trip outerShape outerShape_named
  obtain ⟨v, written, _, read⟩ := forth (ascii "box", [((7 : Int64), ())], ())
  exact ⟨v, written, read⟩

/-! ## A collision -/

def pingShape : Shape := ⟨ascii "Ping", 1, [⟨ascii "seq", .int64⟩]⟩

def pingSchema : Schema := ⟨⟨ascii "Ping", 1, [⟨ascii "seq", .int, true⟩]⟩, by decide⟩

-- one field more, and the same content id
def collidingSchema : Schema :=
  ⟨⟨ascii "Ping", 1, [⟨ascii "seq", .int, true⟩, ⟨ascii "cytmCrBeBslDamCvrqywEoFrDt", .int, true⟩]⟩, by decide⟩

def collidingValue : Value := ⟨⟨collidingSchema.raw, [some (.int 1), some (.int 2)]⟩, by decide⟩

theorem colliding_value_loses_field : pingShape.Named ∧ pingShape.schemaOf = .ok pingSchema ∧
    (admitLive collidingValue pingSchema .full).ok ∧ ∃ obj w, fromValue pingShape collidingValue.raw = .ok obj ∧
      toValue pingShape obj = .ok w ∧ collidingValue.get "cytmCrBeBslDamCvrqywEoFrDt" = some (.int 2) ∧
      w.get "cytmCrBeBslDamCvrqywEoFrDt" = none := by
  refine ⟨?_, rfl, by decide +kernel, ((1 : Int64), ()), ⟨pingSchema.raw, [some (.int 1)]⟩, rfl, rfl, ?_, ?_⟩
  · simp only [pingShape, Shape.Named, Member.Named, entriesNamed]
    decide
  · rfl
  · rfl

end Zen.Author
