import Zen.Proof.Core.Encode
import Zen.Proof.Core.Gate

/-!
# Conforming values

A value that conforms to the schema it claims conforms slot by slot, so the encoder finds every
kind as declared. Making NaNs canonical changes no kind, hence no verdict.
-/

namespace Zen.Raw
open Lib

theorem mem_fieldSchemas {f : Field} {fields : List Field} (hf : f ∈ fields) {s : Schema}
    (hs : s ∈ f.type.schemas) : s ∈ fieldSchemas fields := by
  induction fields with
  | nil => cases hf
  | cons g fields ih =>
      obtain ⟨name, type, required⟩ := g
      rw [fieldSchemas, List.mem_append]
      rcases List.mem_cons.mp hf with rfl | hf
      · exact Or.inl hs
      · exact Or.inr (ih hf)

theorem mem_slotSchemas {c : Cell} {slots : List (Option Cell)} (hc : some c ∈ slots) {s : Schema}
    (hs : s ∈ c.schemas) : s ∈ slotSchemas slots := by
  induction slots with
  | nil => cases hc
  | cons slot slots ih =>
      rcases List.mem_cons.mp hc with rfl | later
      · rw [slotSchemas, List.mem_append]
        exact Or.inl hs
      · cases slot with
        | none => exact ih later
        | some c' =>
            rw [slotSchemas, List.mem_append]
            exact Or.inr (ih later)

theorem mem_cellSchemas {c : Cell} {cells : List Cell} (hc : c ∈ cells) {s : Schema}
    (hs : s ∈ c.schemas) : s ∈ cellSchemas cells := by
  induction cells with
  | nil => cases hc
  | cons c' cells ih =>
      rw [cellSchemas, List.mem_append]
      rcases List.mem_cons.mp hc with rfl | hc
      · exact Or.inl hs
      · exact Or.inr (ih hc)

theorem exists_of_mem_cellSchemas {cells : List Cell} {s : Schema} (hs : s ∈ cellSchemas cells) :
    ∃ c ∈ cells, s ∈ c.schemas := by
  induction cells with
  | nil => cases hs
  | cons c cells ih =>
      rw [cellSchemas, List.mem_append] at hs
      rcases hs with here | later
      · exact ⟨c, List.mem_cons_self, here⟩
      · obtain ⟨c', hc', claimed⟩ := ih later
        exact ⟨c', List.mem_cons_of_mem c hc', claimed⟩

/-! ## Slot by slot -/

def SlotsConform : List Field → List (Option Cell) → Prop
  | f :: fields, some c :: slots => Conforms f.type c ∧ SlotsConform fields slots
  | f :: fields, none :: slots => f.required = false ∧ SlotsConform fields slots
  | _, _ => True

theorem get_of_split {schema : Schema} (nodup : (schema.fields.map Field.name).Nodup)
    {before after : List Field} {f : Field} (split : schema.fields = before ++ f :: after)
    {done slots : List (Option Cell)} (aligned : done.length = before.length) (slot : Option Cell) :
    (Value.mk schema (done ++ slot :: slots)).get f.name = slot := by
  rw [Value.get, indexOf_of_split nodup split, ← aligned]
  simp [Value.slotAt]

theorem fieldsConform_iff {schema : Schema} (nodup : (schema.fields.map Field.name).Nodup)
    {before fields : List Field} (split : schema.fields = before ++ fields)
    {done slots : List (Option Cell)} (aligned : done.length = before.length)
    (length : slots.length = fields.length) :
    FieldsConform fields ⟨schema, done ++ slots⟩ ↔ SlotsConform fields slots := by
  induction fields generalizing before done slots with
  | nil => simp [FieldsConform, SlotsConform]
  | cons f fields ih =>
      cases slots with
      | nil => simp at length
      | cons slot slots =>
          have here := @get_of_split schema nodup before fields f split done slots aligned slot
          have rest := @ih (before ++ [f]) (by simp [split]) (done ++ [slot]) slots (by simp [aligned])
            (by simpa using length)
          rw [List.append_assoc, List.singleton_append] at rest
          obtain ⟨name, type, required⟩ := f
          rw [FieldsConform, rest, here]
          cases slot <;> rfl

theorem valueConforms_iff {v : Value} (wf : v.wf) :
    ValueConforms v.schema v ↔ SlotsConform v.schema.fields v.slots := by
  obtain ⟨schema, slots⟩ := v
  obtain ⟨schemaWf, length, _⟩ := Value.wf_iff.mp wf
  have nodup := (Schema.wf_iff.mp schemaWf).2.1
  have slotwise := @fieldsConform_iff schema nodup [] schema.fields rfl [] slots rfl length
  obtain ⟨name, version, fields⟩ := schema
  rw [ValueConforms]
  exact slotwise

/-! ## Conforming values encode -/

def Encodes (c : Cell) (t : TypeRef) : Prop := (∃ word, cellCode c t = .ok word) ∧ c.ClaimsDeclared t

theorem slots_encode {fields : List Field} {slots : List (Option Cell)}
    (conform : SlotsConform fields slots)
    (each : ∀ f ∈ fields, ∀ c, some c ∈ slots → Conforms f.type c → Encodes c f.type) :
    (∃ words, slotsCode fields slots = .ok words) ∧ slotsClaimDeclared fields slots := by
  induction slots generalizing fields with
  | nil => cases fields <;> exact ⟨⟨[], rfl⟩, trivial⟩
  | cons slot slots ih =>
      cases fields with
      | nil => exact ⟨⟨[], rfl⟩, trivial⟩
      | cons f fields =>
          have others : ∀ g ∈ fields, ∀ c, some c ∈ slots → Conforms g.type c → Encodes c g.type :=
            fun g hg c hc => each g (List.mem_cons_of_mem f hg) c (List.mem_cons_of_mem slot hc)
          cases slot with
          | none => exact ih conform.2 others
          | some c =>
              obtain ⟨⟨word, code⟩, declared⟩ := each f (by simp) c (by simp) conform.1
              obtain ⟨⟨words, codes⟩, rest⟩ := ih conform.2 others
              exact ⟨⟨word ++ words, slotsCode_some_ok.mpr ⟨word, words, code, codes, rfl⟩⟩,
                declared, rest⟩

theorem words_of_each {element : TypeRef} {cells : List Cell}
    (each : ∀ c ∈ cells, ∃ word, cellCode c element = .ok word) :
    ∃ words, Words (fun c word => cellCode c element = .ok word) cells words := by
  induction cells with
  | nil => exact ⟨[], .nil⟩
  | cons c cells ih =>
      obtain ⟨word, code⟩ := each c (by simp)
      obtain ⟨words, rest⟩ := ih fun c' hc' => each c' (List.mem_cons_of_mem c hc')
      exact ⟨word ++ words, .cons code rest⟩

theorem body_encodes {v : Value} (wf : v.wf) (conforms : ValueConforms v.schema v)
    (each : ∀ f ∈ v.schema.fields, ∀ c, some c ∈ v.slots → Conforms f.type c → Encodes c f.type) :
    (∃ word, bodyCode v = .ok word) ∧ v.ClaimsDeclared := by
  obtain ⟨⟨words, codes⟩, declared⟩ := slots_encode ((valueConforms_iff wf).mp conforms) each
  exact ⟨⟨_, bodyCode_ok.mpr ⟨words, codes, rfl⟩⟩, by rwa [Value.claimsDeclared_eq]⟩

theorem conforms_encodes {t : TypeRef} {c : Cell} (wf : c.wf) (distinct : NoCollision c.schemas t.schemas)
    (conforms : Conforms t c) : Encodes c t := by
  induction t generalizing c with
  | int | float | text | bool | bytes =>
      rw [Conforms] at conforms
      cases c <;> cases conforms
      exact ⟨⟨_, rfl⟩, trivial⟩
  | message schema ih =>
      rw [Conforms] at conforms
      obtain ⟨v, rfl, sameId, conforms⟩ := conforms
      rw [Cell.schemas, TypeRef.schemas] at distinct
      have same : v.schema = schema :=
        distinct v.schema (by simp [Value.schemas_eq]) schema (by simp [Schema.schemas_eq]) sameId
      subst same
      have slots := (Value.wf_iff.mp wf).2.2
      have body := body_encodes wf conforms fun f hf c hc => ih f hf (slots c hc) fun s hs s' hs' =>
        distinct s (by simp [Value.schemas_eq, mem_slotSchemas hc hs]) s'
          (by simp [Schema.schemas_eq, mem_fieldSchemas hf hs'])
      obtain ⟨⟨word, code⟩, declared⟩ := body
      exact ⟨⟨word, by rw [cellCode_message wf, code]⟩, rfl, declared⟩
  | list element ih =>
      rw [Conforms] at conforms
      obtain ⟨cells, rfl, conforms⟩ := conforms
      have elements := Cell.wf_list.mp wf
      have each : ∀ c ∈ cells, Encodes c element := by
        intro c hc
        refine ih (elements c hc) (fun s hs s' hs' => distinct s ?_ s' ?_) (conforms c hc)
        · exact mem_cellSchemas hc hs
        · exact hs'
      obtain ⟨words, codes⟩ := words_of_each fun c hc => (each c hc).1
      exact ⟨⟨_, (cellCode_list elements).mpr ⟨words, codes, rfl⟩⟩,
        cellsClaimDeclared_iff.mpr fun c hc => (each c hc).2⟩

/-! ## Canonical NaNs -/

@[simp] theorem Value.canon_schema (v : Value) : v.canon.schema = v.schema := by
  cases v
  rfl

@[simp] theorem Value.canon_slots (v : Value) : v.canon.slots = v.slots.map (Option.map Cell.canon) := by
  cases v
  exact canonSlots_eq _

@[simp] theorem Cell.canon_kind (c : Cell) : c.canon.kind = c.kind := by
  cases c <;> rfl

theorem slots_canon_wf {slots : List (Option Cell)} (each : ∀ c, some c ∈ slots → c.canon.wf) :
    ∀ c, some c ∈ slots.map (Option.map Cell.canon) → c.wf := by
  intro c hc
  obtain ⟨slot, hslot, same⟩ := List.mem_map.mp hc
  obtain ⟨c', rfl, rfl⟩ := Option.map_eq_some_iff.mp same
  exact each c' hslot

theorem Value.canon_wf_of {v : Value} (wf : v.wf) (each : ∀ c, some c ∈ v.slots → c.canon.wf) :
    v.canon.wf := by
  rw [Value.wf_iff] at wf ⊢
  rw [Value.canon_schema, Value.canon_slots, List.length_map]
  exact ⟨wf.1, wf.2.1, slots_canon_wf each⟩

theorem Cell.canon_wf {c : Cell} (wf : c.wf) : c.canon.wf := by
  induction c with
  | int | float | text | bool | bytes | nullMessage => rfl
  | message v ih =>
      rw [Cell.canon, Cell.wf_message]
      rw [Cell.wf_message] at wf
      exact Value.canon_wf_of wf fun c hc => ih c hc ((Value.wf_iff.mp wf).2.2 c hc)
  | list cells ih =>
      rw [Cell.canon, canonCells_eq, Cell.wf_list, List.forall_mem_map]
      exact fun c hc => ih c hc (Cell.wf_list.mp wf c hc)

theorem Value.canon_wf {v : Value} (wf : v.wf) : v.canon.wf :=
  Value.canon_wf_of wf fun c hc => Cell.canon_wf ((Value.wf_iff.mp wf).2.2 c hc)

theorem Value.get_canon (v : Value) (field : ByteString) :
    v.canon.get field = (v.get field).map Cell.canon := by
  rw [Value.get, Value.get, Value.canon_schema]
  cases v.schema.indexOf field with
  | none => rfl
  | some i =>
      simp only [Option.bind_some, Value.slotAt, Value.canon_slots, List.getElem?_map]
      cases v.slots[i]? <;> rfl

theorem fieldsConform_canon {fields : List Field} (v : Value)
    (each : ∀ f ∈ fields, ∀ c, Conforms f.type (Cell.canon c) ↔ Conforms f.type c) :
    FieldsConform fields v.canon ↔ FieldsConform fields v := by
  induction fields with
  | nil => rfl
  | cons f fields ih =>
      have others := ih fun g hg => each g (List.mem_cons_of_mem f hg)
      have here := each f (by simp)
      obtain ⟨name, type, required⟩ := f
      rw [FieldsConform, FieldsConform, others, Value.get_canon]
      cases v.get name with
      | none => rfl
      | some c => exact and_congr_left' (here c)

theorem conforms_canon {t : TypeRef} (c : Cell) : Conforms t c.canon ↔ Conforms t c := by
  induction t generalizing c with
  | int | float | text | bool | bytes => rw [Conforms, Conforms, Cell.canon_kind]
  | message schema ih =>
      rw [Conforms, Conforms]
      cases c with
      | message v =>
          obtain ⟨name, version, fields⟩ := schema
          simp only [Cell.canon, Cell.message.injEq, exists_eq_left', Value.canon_schema, ValueConforms,
            fieldsConform_canon v ih]
      | _ => simp [Cell.canon]
  | list element ih =>
      rw [Conforms, Conforms]
      cases c with
      | list cells => simp [Cell.canon, canonCells_eq, ih]
      | _ => simp [Cell.canon]

theorem valueConforms_canon (schema : Schema) (v : Value) :
    ValueConforms schema v.canon ↔ ValueConforms schema v := by
  obtain ⟨name, version, fields⟩ := schema
  exact fieldsConform_canon v fun f _ c => conforms_canon c

theorem slotsClaimDeclared_canon {fields : List Field} {slots : List (Option Cell)}
    (each : ∀ c, some c ∈ slots → ∀ t, c.canon.ClaimsDeclared t ↔ c.ClaimsDeclared t) :
    slotsClaimDeclared fields (canonSlots slots) ↔ slotsClaimDeclared fields slots := by
  induction slots generalizing fields with
  | nil => rfl
  | cons slot slots ih =>
      have others := @ih fields.tail fun c hc => each c (List.mem_cons_of_mem slot hc)
      cases fields with
      | nil => cases slot <;> rfl
      | cons f fields =>
          cases slot with
          | none => exact others
          | some c => exact and_congr (each c (by simp) f.type) others

theorem claimsDeclared_canon {c : Cell} (t : TypeRef) :
    c.canon.ClaimsDeclared t ↔ c.ClaimsDeclared t := by
  induction c generalizing t with
  | int | text | bool | bytes | nullMessage => rfl
  | float bits => cases t <;> rfl
  | message v ih =>
      obtain ⟨schema, slots⟩ := v
      cases t with
      | message declared => exact and_congr_right fun _ => slotsClaimDeclared_canon ih
      | _ => rfl
  | list cells ih =>
      cases t with
      | list element =>
          simp only [Cell.canon, Cell.ClaimsDeclared, canonCells_eq, cellsClaimDeclared_iff,
            List.forall_mem_map]
          exact forall₂_congr fun c hc => ih c hc element
      | _ => rfl

theorem valueClaimsDeclared_canon (v : Value) : v.canon.ClaimsDeclared ↔ v.ClaimsDeclared := by
  obtain ⟨schema, slots⟩ := v
  exact slotsClaimDeclared_canon fun c _ t => claimsDeclared_canon t

end Zen.Raw
