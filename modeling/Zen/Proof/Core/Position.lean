import Zen.Proof.Core.CompatTexts
import Zen.Spec.Position

/-!
# Where the full report points

The gate judges the candidate, in which the items that could not be decoded are left out. A gap is a
required field the candidate lacks: its position in the document, and the one the gate gives it.
-/

namespace Zen.Raw
open JsonDecoder

variable {chars : FloatChars}

/-! ## Faults of the decoder -/

theorem taken_isNone (t : TypeRef) (node : JsonValue) : (taken chars t node).isNone = undecodable chars t node := by
  cases t <;> cases node <;> rw [taken.eq_def] <;> rfl

theorem scalar_error {t : TypeRef} {node : JsonValue} {path : ByteString} {e : Error}
    (h : scalar chars t node path = .error e) : e.path = path ∧ e.kind ≠ .missingField := by
  unfold scalar at h
  split at h <;> repeat' split at h
  all_goals cases h
  all_goals exact ⟨rfl, nofun⟩

theorem render_fields (base : ByteString) (name : ByteString) (ps : List Position) :
    (ps.map (.field name :: ·)).map (render base) = ps.map (render (fieldPath base name)) := by
  rw [List.map_map]
  rfl

theorem render_items (base : ByteString) (i : Nat) (ps : List Position) :
    (ps.map (.item i :: ·)).map (render base) = ps.map (render (indexPath base i)) := by
  rw [List.map_map]
  rfl

theorem scalarFaults_paths (t : TypeRef) (node : JsonValue) (base : ByteString)
    (plain : undecodable chars t node = (scalar chars t node []).toOption.isNone) :
    (scalarFaults chars t node base).map Error.path =
      (if undecodable chars t node then [[]] else []).map (render base) := by
  rw [scalarFaults, plain, ← scalar_path t node base]
  cases read : scalar chars t node base with
  | ok c => rfl
  | error e => exact congrArg (fun path => [path]) (scalar_error read).1

theorem memberFaults_paths {fields : List Field} {members : List (ByteString × JsonValue)} {base : ByteString}
    (cells : ∀ f ∈ fields, ∀ node base,
      (faults chars f.type node base).map Error.path = (wrong chars f.type node).map (render base)) :
    (memberFaults chars fields members base).map Error.path = (wrongFields chars fields members).map (render base) := by
  induction fields with
  | nil => rfl
  | cons f fields ih =>
      obtain ⟨name, type, required⟩ := f
      rw [memberFaults, wrongFields, List.map_append, List.map_append,
        ih fun g hg => cells g (List.mem_cons_of_mem _ hg)]
      congr 1
      cases (JsonValue.object members).find name with
      | none => rfl
      | some node =>
          simp only
          rw [render_fields]
          exact cells ⟨name, type, required⟩ (by simp) node _

theorem objectFaults_paths {schema : Schema} {members : List (ByteString × JsonValue)} {base : ByteString}
    (cells : ∀ f ∈ schema.fields, ∀ node base,
      (faults chars f.type node base).map Error.path = (wrong chars f.type node).map (render base)) :
    (objectFaults chars schema members base).map Error.path =
      (wrongMembers chars schema members).map (render base) := by
  obtain ⟨name, version, fields⟩ := schema
  rw [objectFaults, wrongMembers, List.map_append, List.map_append, memberFaults_paths cells, unknownFaults,
    List.map_map, List.map_map]
  rfl

theorem faults_paths (t : TypeRef) (node : JsonValue) (base : ByteString) :
    (faults chars t node base).map Error.path = (wrong chars t node).map (render base) := by
  induction t generalizing node base with
  | int | float | text | bool | bytes =>
      rw [faults, wrong]
      exact scalarFaults_paths _ node base (by cases node <;> rfl)
  | message schema ih =>
      rw [faults.eq_def, wrong.eq_def]
      cases node with
      | object members => exact objectFaults_paths fun f hf => ih f hf
      | _ => rfl
  | list element ih =>
      rw [faults.eq_def, wrong.eq_def]
      cases node with
      | array nodes =>
          simp only [List.map_flatMap]
          congr 1
          funext x
          rw [render_items]
          exact ih x.1 _
      | _ => rfl

theorem memberFaults_kind {fields : List Field} {members : List (ByteString × JsonValue)} {base : ByteString}
    (cells : ∀ f ∈ fields, ∀ node base, ∀ e ∈ faults chars f.type node base, e.kind ≠ .missingField) :
    ∀ e ∈ memberFaults chars fields members base, e.kind ≠ .missingField := by
  induction fields with
  | nil =>
      intro e he
      cases he
  | cons f fields ih =>
      obtain ⟨name, type, required⟩ := f
      intro e he
      rw [memberFaults] at he
      rcases List.mem_append.mp he with he | he
      · cases found : (JsonValue.object members).find name with
        | none =>
            rw [found] at he
            cases he
        | some node =>
            rw [found] at he
            exact cells ⟨name, type, required⟩ (by simp) node _ e he
      · exact ih (fun g hg => cells g (List.mem_cons_of_mem _ hg)) e he

theorem objectFaults_kind {schema : Schema} {members : List (ByteString × JsonValue)} {base : ByteString}
    (cells : ∀ f ∈ schema.fields, ∀ node base, ∀ e ∈ faults chars f.type node base, e.kind ≠ .missingField) :
    ∀ e ∈ objectFaults chars schema members base, e.kind ≠ .missingField := by
  obtain ⟨name, version, fields⟩ := schema
  intro e he
  rw [objectFaults] at he
  rcases List.mem_append.mp he with he | he
  · obtain ⟨member, _, rfl⟩ := List.mem_map.mp he
    intro missing
    cases missing
  · exact memberFaults_kind cells e he

theorem faults_kind (t : TypeRef) (node : JsonValue) (base : ByteString) :
    ∀ e ∈ faults chars t node base, e.kind ≠ .missingField := by
  induction t generalizing node base with
  | int | float | text | bool | bytes =>
      intro e he
      rw [faults, scalarFaults] at he
      split at he
      · cases he
      · rename_i read
        obtain rfl := List.mem_singleton.mp he
        exact (scalar_error read).2
  | message schema ih =>
      rw [faults.eq_def]
      cases node with
      | object members => exact objectFaults_kind fun f hf => ih f hf
      | _ =>
          intro e he
          obtain rfl := List.mem_singleton.mp he
          intro missing
          cases missing
  | list element ih =>
      rw [faults.eq_def]
      cases node with
      | array nodes =>
          intro e he
          obtain ⟨x, _, he⟩ := List.mem_flatMap.mp he
          exact ih x.1 _ e he
      | _ =>
          intro e he
          obtain rfl := List.mem_singleton.mp he
          intro missing
          cases missing

/-! ## Gaps of the candidate -/

abbrev Gap := Position × Position

def Gap.under (s s' : Step) (g : Gap) : Gap := (s :: g.1, s' :: g.2)

-- `j` counts the items the candidate has
def itemGaps (skip : JsonValue → Bool) (inner : JsonValue → List Gap) : List JsonValue → (i j : Nat) → List Gap
  | [], _, _ => []
  | node :: nodes, i, j =>
      if skip node then itemGaps skip inner nodes (i + 1) j
      else (inner node).map (Gap.under (.item i) (.item j)) ++ itemGaps skip inner nodes (i + 1) (j + 1)

mutual
def gaps (chars : FloatChars) : TypeRef → JsonValue → List Gap
  | .message schema, node =>
      match node with
      | .object members => memberGaps chars schema members
      | _ => []
  | .list element, node =>
      match node with
      | .array nodes => itemGaps (undecodable chars element) (fun node => gaps chars element node) nodes 0 0
      | _ => []
  | _, _ => []

def memberGaps (chars : FloatChars) : Schema → List (ByteString × JsonValue) → List Gap
  | ⟨_, _, fields⟩, members => fieldGaps chars fields members

def fieldGaps (chars : FloatChars) : List Field → List (ByteString × JsonValue) → List Gap
  | [], _ => []
  | ⟨name, type, required⟩ :: fields, members =>
      (match (JsonValue.object members).find name with
        | none => if required then [([.field name], [.field name])] else []
        | some node =>
            if undecodable chars type node then
              if required then [([.field name], [.field name])] else []
            else (gaps chars type node).map (Gap.under (.field name) (.field name))) ++
        fieldGaps chars fields members
end

/-- Errors that report missing fields at these positions. -/
structure Missing (base : ByteString) (errs : List Error) (gaps : List Gap) : Prop where
  paths : errs.map Error.path = gaps.map fun g => render base g.2
  kind : ∀ e ∈ errs, e.kind = .missingField

namespace Missing

theorem none (base : ByteString) : Missing base [] [] := ⟨rfl, nofun⟩

theorem append {base : ByteString} {errs errs' : List Error} {gs gs' : List Gap} (h : Missing base errs gs)
    (h' : Missing base errs' gs') : Missing base (errs ++ errs') (gs ++ gs') := by
  refine ⟨by rw [List.map_append, List.map_append, h.paths, h'.paths], fun e he => ?_⟩
  rcases List.mem_append.mp he with he | he
  · exact h.kind e he
  · exact h'.kind e he

theorem field {base name : ByteString} {errs : List Error} {gs : List Gap}
    (h : Missing (fieldPath base name) errs gs) :
    Missing base errs (gs.map (Gap.under (.field name) (.field name))) :=
  ⟨by rw [h.paths, List.map_map]; rfl, h.kind⟩

theorem item {base : ByteString} {errs : List Error} {gs : List Gap} (i : Nat) {j : Nat}
    (h : Missing (indexPath base j) errs gs) : Missing base errs (gs.map (Gap.under (.item i) (.item j))) :=
  ⟨by rw [h.paths, List.map_map]; rfl, h.kind⟩

end Missing

theorem fieldGaps_missing {fields : List Field} {members : List (ByteString × JsonValue)} {v : Value}
    {base : ByteString} (get : ∀ f ∈ fields, v.get f.name = takenSlot chars f members)
    (cells : ∀ f ∈ fields, ∀ node c base, taken chars f.type node = some c →
      Missing base (gateFaults f.type c base) (gaps chars f.type node)) :
    Missing base (gateFieldFaults fields v base) (fieldGaps chars fields members) := by
  induction fields with
  | nil => exact .none base
  | cons f fields ih =>
      have rest := ih (fun g hg => get g (List.mem_cons_of_mem _ hg)) (fun g hg => cells g (List.mem_cons_of_mem _ hg))
      have slot := get f (by simp)
      have here := cells f (by simp)
      obtain ⟨name, type, required⟩ := f
      have absentField : Missing base
          (if required = true then [⟨.missingField, fieldPath base name, type.label, "absent", []⟩] else [])
          (if required = true then [([.field name], [.field name])] else []) := by
        cases required with
        | true =>
            refine ⟨rfl, fun e he => ?_⟩
            obtain rfl := List.mem_singleton.mp he
            rfl
        | false => exact .none base
      rw [gateFieldFaults, fieldGaps]
      refine Missing.append ?_ rest
      cases found : (JsonValue.object members).find name with
      | none =>
          rw [slot, takenSlot, found]
          exact absentField
      | some node =>
          rw [slot, takenSlot, found, Option.bind_some]
          have none := @taken_isNone chars type node
          cases took : taken chars type node with
          | none =>
              rw [took] at none
              simp only [← none, Option.isNone_none, if_true]
              exact absentField
          | some c =>
              rw [took] at none
              simp only [← none, Option.isNone_some, Bool.false_eq_true, if_false]
              exact (here node c _ took).field

theorem memberGaps_missing {schema : Schema} (wf : schema.wf) (members : List (ByteString × JsonValue))
    (base : ByteString) (cells : ∀ f ∈ schema.fields, ∀ node c base, taken chars f.type node = some c →
      Missing base (gateFaults f.type c base) (gaps chars f.type node)) :
    Missing base (gateValueFaults schema (takenValue chars schema members) base) (memberGaps chars schema members) := by
  have get : ∀ f ∈ schema.fields, (takenValue chars schema members).get f.name = takenSlot chars f members :=
    fun f hf => takenValue_get wf hf members
  obtain ⟨name, version, fields⟩ := schema
  rw [gateValueFaults, memberGaps]
  exact fieldGaps_missing get cells

theorem itemGaps_missing {element : TypeRef} {base : ByteString}
    (cells : ∀ node c base, taken chars element node = some c →
      Missing base (gateFaults element c base) (gaps chars element node)) (nodes : List JsonValue) (i j : Nat) :
    Missing base (((nodes.filterMap fun node => taken chars element node).zipIdx j).flatMap fun x =>
        gateFaults element x.1 (indexPath base x.2))
      (itemGaps (undecodable chars element) (fun node => gaps chars element node) nodes i j) := by
  induction nodes generalizing i j with
  | nil => exact .none base
  | cons node nodes ih =>
      have none := @taken_isNone chars element node
      rw [itemGaps]
      cases took : taken chars element node with
      | none =>
          rw [took] at none
          rw [List.filterMap_cons_none took, ← none, Option.isNone_none, if_pos rfl]
          exact ih (i + 1) j
      | some c =>
          rw [took] at none
          rw [List.filterMap_cons_some took, ← none, Option.isNone_some, if_neg (by simp), List.zipIdx_cons,
            List.flatMap_cons]
          exact ((cells node c _ took).item i).append (ih (i + 1) (j + 1))

theorem takenValue_schema (schema : Schema) (members : List (ByteString × JsonValue)) :
    (takenValue chars schema members).schema = schema := by
  obtain ⟨name, version, fields⟩ := schema
  rfl

theorem scalar_kind {t : TypeRef} {node : JsonValue} {path : ByteString} {c : Cell}
    (h : scalar chars t node path = .ok c) : c.kind = t.kind := by
  unfold scalar at h
  split at h <;> repeat' split at h
  all_goals cases h
  all_goals rfl

theorem scalar_primitive {t : TypeRef} {node : JsonValue} {c : Cell}
    (took : (scalar chars t node []).toOption = some c) (base : ByteString) : primitiveFaults t c base = [] := by
  cases read : scalar chars t node [] with
  | error e =>
      rw [read] at took
      cases took
  | ok c' =>
      rw [read] at took
      cases took
      rw [primitiveFaults, if_neg (not_not.mpr (scalar_kind read))]

theorem gaps_missing {t : TypeRef} (wf : t.wf) {node : JsonValue} {c : Cell} (took : taken chars t node = some c)
    (base : ByteString) : Missing base (gateFaults t c base) (gaps chars t node) := by
  induction t generalizing node c base with
  | int | float | text | bool | bytes =>
      rw [taken] at took
      rw [gateFaults, scalar_primitive took]
      exact .none base
  | message schema ih =>
      rw [TypeRef.wf_message] at wf
      have declared := (Schema.wf_iff.mp wf).2.2
      rw [taken.eq_def] at took
      rw [gateFaults.eq_def, gaps.eq_def]
      cases node with
      | object members =>
          cases took
          simp only [takenValue_schema, ne_eq, not_true_eq_false, if_false]
          exact memberGaps_missing wf members base fun f hf node c base took => ih f hf (declared f hf) took base
      | _ => cases took
  | list element ih =>
      rw [TypeRef.wf_list] at wf
      rw [taken.eq_def] at took
      rw [gateFaults.eq_def, gaps.eq_def]
      cases node with
      | array nodes =>
          cases took
          exact itemGaps_missing (fun node c base took => ih wf took base) nodes 0 0
      | _ => cases took

/-! ## Members of the lists -/

def single (name : ByteString) : Gap := ([.field name], [.field name])

/-- The candidate has nothing for the field. -/
def Unfilled (chars : FloatChars) (f : Field) (members : List (ByteString × JsonValue)) : Prop :=
  ∀ node, (JsonValue.object members).find f.name = some node → undecodable chars f.type node = true

theorem mem_fieldGaps {fields : List Field} {members : List (ByteString × JsonValue)} {g : Gap} :
    g ∈ fieldGaps chars fields members ↔ ∃ f ∈ fields,
      (f.required = true ∧ Unfilled chars f members ∧ g = single f.name) ∨
      ∃ node g', (JsonValue.object members).find f.name = some node ∧ undecodable chars f.type node = false ∧
        g' ∈ gaps chars f.type node ∧ g'.under (.field f.name) (.field f.name) = g := by
  induction fields with
  | nil => simp [fieldGaps]
  | cons f fields ih =>
      obtain ⟨name, type, required⟩ := f
      rw [fieldGaps, List.mem_append, ih, List.exists_mem_cons_iff]
      refine or_congr_left ?_
      unfold Unfilled
      cases (JsonValue.object members).find name with
      | none => cases required <;> simp [single]
      | some node =>
          cases skipped : undecodable chars type node with
          | true => cases required <;> simp [single, skipped]
          | false => simp [skipped]

theorem mem_absentFields {fields : List Field} {members : List (ByteString × JsonValue)} {p : Position} :
    p ∈ absentFields fields members ↔ ∃ f ∈ fields,
      (f.required = true ∧ (JsonValue.object members).find f.name = none ∧ p = [.field f.name]) ∨
      ∃ node p', (JsonValue.object members).find f.name = some node ∧ p' ∈ absent f.type node ∧
        .field f.name :: p' = p := by
  induction fields with
  | nil => simp [absentFields]
  | cons f fields ih =>
      obtain ⟨name, type, required⟩ := f
      rw [absentFields, List.mem_append, ih, List.exists_mem_cons_iff]
      refine or_congr_left ?_
      cases (JsonValue.object members).find name with
      | none => cases required <;> simp
      | some node => simp

theorem mem_wrongFields {fields : List Field} {members : List (ByteString × JsonValue)} {p : Position} :
    p ∈ wrongFields chars fields members ↔ ∃ f ∈ fields, ∃ node p',
      (JsonValue.object members).find f.name = some node ∧ p' ∈ wrong chars f.type node ∧
        .field f.name :: p' = p := by
  induction fields with
  | nil => simp [wrongFields]
  | cons f fields ih =>
      obtain ⟨name, type, required⟩ := f
      rw [wrongFields, List.mem_append, ih, List.exists_mem_cons_iff]
      refine or_congr_left ?_
      cases (JsonValue.object members).find name with
      | none => simp
      | some node => simp

theorem mem_items {inner : JsonValue → List Position} {nodes : List JsonValue} {i : Nat} {p : Position} :
    p ∈ (nodes.zipIdx i).flatMap (fun x => (inner x.1).map (.item x.2 :: ·)) ↔
      ∃ before node after p', nodes = before ++ node :: after ∧ p' ∈ inner node ∧
        .item (i + before.length) :: p' = p := by
  constructor
  · intro hp
    obtain ⟨⟨node, k⟩, mem, hp⟩ := List.mem_flatMap.mp hp
    obtain ⟨p', hp', rfl⟩ := List.mem_map.mp hp
    obtain ⟨least, found⟩ := List.mem_zipIdx_iff_le_and_getElem?_sub.mp mem
    obtain ⟨inside, same⟩ : ∃ inside : k - i < nodes.length, nodes[k - i] = node := List.getElem?_eq_some_iff.mp found
    refine ⟨nodes.take (k - i), node, nodes.drop (k - i + 1), p', ?_, hp', ?_⟩
    · rw [← same, List.getElem_cons_drop, List.take_append_drop]
    · rw [List.length_take, Nat.min_eq_left (by omega), Nat.add_sub_cancel' least]
  · rintro ⟨before, node, after, p', rfl, hp', rfl⟩
    refine List.mem_flatMap.mpr ⟨(node, i + before.length), ?_, List.mem_map.mpr ⟨p', hp', rfl⟩⟩
    rw [List.zipIdx_append, List.zipIdx_cons]
    simp

theorem mem_itemGaps {skip : JsonValue → Bool} {inner : JsonValue → List Gap} {nodes : List JsonValue} {i j : Nat}
    {g : Gap} : g ∈ itemGaps skip inner nodes i j ↔ ∃ before node after g', nodes = before ++ node :: after ∧
      skip node = false ∧ g' ∈ inner node ∧
        g'.under (.item (i + before.length)) (.item (j + before.countP fun node => !skip node)) = g := by
  induction nodes generalizing i j with
  | nil => simp [itemGaps]
  | cons head nodes ih =>
      have index : ∀ before : List JsonValue, i + 1 + before.length = i + (head :: before).length := by
        intro before
        rw [List.length_cons]
        omega
      rw [itemGaps]
      cases skipped : skip head with
      | true =>
          have count : ∀ before : List JsonValue, j + before.countP (fun node => !skip node) =
              j + (head :: before).countP fun node => !skip node := fun before => by
            rw [List.countP_cons_of_neg (by simp [skipped])]
          rw [if_pos rfl, ih]
          constructor
          · rintro ⟨before, node, after, g', rfl, taken, mem, rfl⟩
            exact ⟨head :: before, node, after, g', rfl, taken, mem, by rw [← index, ← count]⟩
          · rintro ⟨before, node, after, g', split, taken, mem, rfl⟩
            cases before with
            | nil =>
                cases split
                rw [taken] at skipped
                cases skipped
            | cons b before =>
                cases split
                exact ⟨before, node, after, g', rfl, taken, mem, by rw [index, count]⟩
      | false =>
          have count : ∀ before : List JsonValue, j + 1 + before.countP (fun node => !skip node) =
              j + (head :: before).countP fun node => !skip node := fun before => by
            rw [List.countP_cons_of_pos (by simp [skipped])]
            omega
          rw [if_neg (by simp), List.mem_append, ih, List.mem_map]
          constructor
          · rintro (⟨g', mem, rfl⟩ | ⟨before, node, after, g', rfl, taken, mem, rfl⟩)
            · exact ⟨[], head, nodes, g', rfl, skipped, mem, rfl⟩
            · exact ⟨head :: before, node, after, g', rfl, taken, mem, by rw [← index, ← count]⟩
          · rintro ⟨before, node, after, g', split, taken, mem, rfl⟩
            cases before with
            | nil =>
                cases split
                exact .inl ⟨g', mem, rfl⟩
            | cons b before =>
                cases split
                exact .inr ⟨before, node, after, g', rfl, taken, mem, by rw [index, count]⟩

/-! ## Gaps, absences and wrong nodes -/

theorem undecodable_absent {t : TypeRef} {node : JsonValue} (h : undecodable chars t node = true) :
    absent t node = [] ∧ gaps chars t node = [] ∧ lacks chars t node = false := by
  cases t <;> cases node <;> first | exact ⟨rfl, rfl, rfl⟩ | cases h

theorem nil_mem_wrong {t : TypeRef} {node : JsonValue} : [] ∈ wrong chars t node ↔ undecodable chars t node = true := by
  cases t with
  | message schema =>
      cases node with
      | object members =>
          obtain ⟨name, version, fields⟩ := schema
          simp [wrong, wrongMembers, mem_wrongFields, undecodable]
      | _ => simp [wrong, undecodable]
  | list element => cases node <;> simp [wrong, undecodable]
  | _ => rw [wrong]; split <;> simp_all

theorem gap_step {t : TypeRef} {node : JsonValue} {g : Gap} (h : g ∈ gaps chars t node) :
    undecodable chars t node = false := by
  cases failed : undecodable chars t node with
  | false => rfl
  | true =>
      rw [(undecodable_absent failed).2.1] at h
      cases h

theorem memberGaps_eq (schema : Schema) (members : List (ByteString × JsonValue)) :
    memberGaps chars schema members = fieldGaps chars schema.fields members := by
  obtain ⟨name, version, fields⟩ := schema
  rfl

theorem absentMembers_eq (schema : Schema) (members : List (ByteString × JsonValue)) :
    absentMembers schema members = absentFields schema.fields members := by
  obtain ⟨name, version, fields⟩ := schema
  rfl

theorem absent_gap {t : TypeRef} {node : JsonValue} {p : Position} (h : p ∈ absent t node) :
    ∃ g ∈ gaps chars t node, g.1 = p := by
  induction t generalizing node p with
  | message schema ih =>
      cases node with
      | object members =>
          rw [absent, absentMembers_eq] at h
          rw [gaps, memberGaps_eq]
          obtain ⟨f, hf, h⟩ := mem_absentFields.mp h
          rcases h with ⟨required, none, rfl⟩ | ⟨node, p', found, hp', rfl⟩
          · have unfilled : Unfilled chars f members := fun node found => by
              rw [none] at found
              cases found
            exact ⟨single f.name, mem_fieldGaps.mpr ⟨f, hf, .inl ⟨required, unfilled, rfl⟩⟩, rfl⟩
          · obtain ⟨g, hg, rfl⟩ := ih f hf hp'
            exact ⟨_, mem_fieldGaps.mpr ⟨f, hf, .inr ⟨node, g, found, gap_step hg, hg, rfl⟩⟩, rfl⟩
      | _ => simp [absent] at h
  | list element ih =>
      cases node with
      | array nodes =>
          rw [absent] at h
          obtain ⟨before, node, after, p', rfl, hp', rfl⟩ := mem_items.mp h
          obtain ⟨g, hg, rfl⟩ := ih hp'
          rw [gaps]
          exact ⟨_, mem_itemGaps.mpr ⟨before, node, after, g, rfl, gap_step hg, hg, rfl⟩, rfl⟩
      | _ => simp [absent] at h
  | _ => simp [absent] at h

theorem gap_absent_or_wrong {t : TypeRef} {node : JsonValue} {g : Gap} (h : g ∈ gaps chars t node) :
    g.1 ∈ absent t node ∨ g.1 ∈ wrong chars t node := by
  induction t generalizing node g with
  | message schema ih =>
      cases node with
      | object members =>
          rw [absent, absentMembers_eq]
          rw [gaps, memberGaps_eq] at h
          obtain ⟨name, version, fields⟩ := schema
          rw [wrong, wrongMembers, List.mem_append]
          obtain ⟨f, hf, h⟩ := mem_fieldGaps.mp h
          rcases h with ⟨required, unfilled, rfl⟩ | ⟨node, g', found, _, hg', rfl⟩
          · cases found : (JsonValue.object members).find f.name with
            | none => exact .inl (mem_absentFields.mpr ⟨f, hf, .inl ⟨required, found, rfl⟩⟩)
            | some node => exact .inr (.inr (mem_wrongFields.mpr
                ⟨f, hf, node, [], found, nil_mem_wrong.mpr (unfilled node found), rfl⟩))
          · rcases ih f hf hg' with gone | bad
            · exact .inl (mem_absentFields.mpr ⟨f, hf, .inr ⟨node, g'.1, found, gone, rfl⟩⟩)
            · exact .inr (.inr (mem_wrongFields.mpr ⟨f, hf, node, g'.1, found, bad, rfl⟩))
      | _ => simp [gaps] at h
  | list element ih =>
      cases node with
      | array nodes =>
          rw [gaps] at h
          rw [absent, wrong]
          obtain ⟨before, node, after, g', rfl, _, hg', rfl⟩ := mem_itemGaps.mp h
          rcases ih hg' with gone | bad
          · exact .inl (mem_items.mpr ⟨before, node, after, g'.1, rfl, gone, rfl⟩)
          · exact .inr (mem_items.mpr ⟨before, node, after, g'.1, rfl, bad, rfl⟩)
      | _ => simp [gaps] at h
  | _ => simp [gaps] at h

/-! ## Order of the items -/

theorem lacksField_iff {fields : List Field} {members : List (ByteString × JsonValue)}
    (cells : ∀ f ∈ fields, ∀ node, lacks chars f.type node = true ↔ ∃ g, g ∈ gaps chars f.type node) :
    lacksField chars fields members = true ↔ ∃ g, g ∈ fieldGaps chars fields members := by
  induction fields with
  | nil => simp [lacksField, fieldGaps]
  | cons f fields ih =>
      have here := cells f (by simp)
      obtain ⟨name, type, required⟩ := f
      rw [lacksField, fieldGaps, Bool.or_eq_true, ih fun g hg => cells g (List.mem_cons_of_mem _ hg)]
      simp only [List.mem_append, exists_or]
      refine or_congr_left ?_
      cases (JsonValue.object members).find name with
      | none => cases required <;> simp
      | some node =>
          cases skipped : undecodable chars type node with
          | true => cases required <;> simp [skipped]
          | false =>
              simp only [skipped, Bool.false_eq_true, if_false]
              rw [here node]
              constructor
              · rintro ⟨g, hg⟩
                exact ⟨_, List.mem_map_of_mem hg⟩
              · rintro ⟨g, hg⟩
                obtain ⟨g', hg', _⟩ := List.mem_map.mp hg
                exact ⟨g', hg'⟩

theorem lacks_iff {t : TypeRef} {node : JsonValue} : lacks chars t node = true ↔ ∃ g, g ∈ gaps chars t node := by
  induction t generalizing node with
  | message schema ih =>
      cases node with
      | object members =>
          obtain ⟨name, version, fields⟩ := schema
          rw [lacks, gaps, lacksMember, memberGaps]
          exact lacksField_iff fun f hf node => ih f hf
      | _ => simp [lacks, gaps]
  | list element ih =>
      cases node with
      | array nodes =>
          rw [lacks, gaps, List.any_eq_true]
          constructor
          · rintro ⟨node, hn, lacking⟩
            obtain ⟨g, hg⟩ := ih.mp lacking
            obtain ⟨before, after, split⟩ := List.append_of_mem hn
            exact ⟨_, mem_itemGaps.mpr ⟨before, node, after, g, split, gap_step hg, hg, rfl⟩⟩
          · rintro ⟨g, hg⟩
            obtain ⟨before, node, after, g', rfl, _, hg', _⟩ := mem_itemGaps.mp hg
            exact ⟨node, by simp, ih.mpr ⟨g', hg'⟩⟩
      | _ => simp [lacks, gaps]
  | _ => simp [lacks, gaps]

theorem orderlyFields_iff {fields : List Field} {members : List (ByteString × JsonValue)} :
    orderlyFields chars fields members ↔ ∀ f ∈ fields, ∀ node, (JsonValue.object members).find f.name = some node →
      orderly chars f.type node := by
  induction fields with
  | nil => simp [orderlyFields]
  | cons f fields ih =>
      obtain ⟨name, type, required⟩ := f
      rw [orderlyFields, ih, List.forall_mem_cons]
      cases (JsonValue.object members).find name <;> simp

theorem orderlyMembers_eq (schema : Schema) (members : List (ByteString × JsonValue)) :
    orderlyMembers chars schema members = orderlyFields chars schema.fields members := by
  obtain ⟨name, version, fields⟩ := schema
  rfl

theorem count_decoded {skip : JsonValue → Bool} {before : List JsonValue} (none : ∀ b ∈ before, skip b = false) :
    before.countP (fun node => !skip node) = before.length :=
  List.countP_eq_length.mpr fun b hb => by simp [none b hb]

theorem decoded_before {element : TypeRef} {before after : List JsonValue} {node : JsonValue} {g : Gap}
    (inOrder : (before ++ node :: after).Pairwise fun a b =>
      undecodable chars element a = true → lacks chars element b = false)
    (hg : g ∈ gaps chars element node) : ∀ b ∈ before, undecodable chars element b = false := by
  intro b hb
  cases failed : undecodable chars element b with
  | false => rfl
  | true =>
      have none := (List.pairwise_append.mp inOrder).2.2 b hb node (by simp) failed
      rw [lacks_iff.mpr ⟨g, hg⟩] at none
      cases none

theorem orderly_gaps {t : TypeRef} {node : JsonValue} (tidy : orderly chars t node) {g : Gap}
    (h : g ∈ gaps chars t node) : g.1 = g.2 := by
  induction t generalizing node g with
  | message schema ih =>
      cases node with
      | object members =>
          rw [orderly, orderlyMembers_eq, orderlyFields_iff] at tidy
          rw [gaps, memberGaps_eq] at h
          obtain ⟨f, hf, h⟩ := mem_fieldGaps.mp h
          rcases h with ⟨_, _, rfl⟩ | ⟨node, g', found, _, hg', rfl⟩
          · rfl
          · exact congrArg (Step.field f.name :: ·) (ih f hf (tidy f hf node found) hg')
      | _ => simp [gaps] at h
  | list element ih =>
      cases node with
      | array nodes =>
          rw [orderly] at tidy
          rw [gaps] at h
          obtain ⟨before, node, after, g', rfl, _, hg', rfl⟩ := mem_itemGaps.mp h
          rw [count_decoded (decoded_before tidy.2 hg')]
          exact congrArg (Step.item _ :: ·) (ih (tidy.1 node (by simp)) hg')
      | _ => simp [gaps] at h
  | _ => simp [gaps] at h

/-- The gate gives a gap a position at which there is none. -/
def Misplaced (gs : List Gap) : Prop := ∃ g ∈ gs, ∀ g' ∈ gs, g'.1 ≠ g.2

theorem gap_ne_nil {t : TypeRef} {node : JsonValue} {g : Gap} (h : g ∈ gaps chars t node) : g.1 ≠ [] ∧ g.2 ≠ [] := by
  cases t with
  | message schema =>
      cases node with
      | object members =>
          rw [gaps, memberGaps_eq] at h
          obtain ⟨f, hf, h⟩ := mem_fieldGaps.mp h
          rcases h with ⟨_, _, rfl⟩ | ⟨node, g', _, _, _, rfl⟩ <;> exact ⟨nofun, nofun⟩
      | _ => simp [gaps] at h
  | list element =>
      cases node with
      | array nodes =>
          rw [gaps] at h
          obtain ⟨before, node, after, g', rfl, _, _, rfl⟩ := mem_itemGaps.mp h
          exact ⟨nofun, nofun⟩
      | _ => simp [gaps] at h
  | _ => simp [gaps] at h

theorem field_unique {schema : Schema} (wf : schema.wf) {f f' : Field} (hf : f ∈ schema.fields)
    (hf' : f' ∈ schema.fields) (same : f.name = f'.name) : f = f' :=
  List.inj_on_of_nodup_map (Schema.wf_iff.mp wf).2.1 hf hf' same

theorem split_unique {before before' after after' : List JsonValue} {node node' : JsonValue}
    (split : before ++ node :: after = before' ++ node' :: after') (length : before.length = before'.length) :
    before = before' ∧ node = node' := by
  obtain ⟨same, rest⟩ := List.append_inj split length
  exact ⟨same, (List.cons.inj rest).1⟩

theorem items_misplaced {element : TypeRef} {nodes : List JsonValue}
    (disorder : ¬ nodes.Pairwise fun a b => undecodable chars element a = true → lacks chars element b = false) :
    Misplaced (itemGaps (undecodable chars element) (fun node => gaps chars element node) nodes 0 0) := by
  classical
  let Late (n : Nat) : Prop := ∃ before node after, nodes = before ++ node :: after ∧ before.length = n ∧
    (∃ b ∈ before, undecodable chars element b = true) ∧ ∃ g, g ∈ gaps chars element node
  have exists_late : ∃ n, Late n := by
    by_contra none
    refine disorder (List.pairwise_iff_getElem.mpr fun i j hi hj less failed => ?_)
    cases lacking : lacks chars element nodes[j] with
    | false => rfl
    | true =>
        refine absurd ⟨j, nodes.take j, nodes[j], nodes.drop (j + 1), ?_, ?_, ⟨nodes[i], ?_, failed⟩,
          lacks_iff.mp lacking⟩ none
        · rw [List.getElem_cons_drop, List.take_append_drop]
        · rw [List.length_take]
          omega
        · exact List.mem_take_iff_getElem.mpr ⟨i, by omega, rfl⟩
  -- the first item that lacks a field behind a failed one lands on an item without gaps
  obtain ⟨before, node, after, split, length, ⟨b, hb, failed⟩, g, hg⟩ := Nat.find_spec exists_late
  refine ⟨_, mem_itemGaps.mpr ⟨before, node, after, g, split, gap_step hg, hg, rfl⟩, ?_⟩
  rintro g' hg' same
  obtain ⟨before', node', after', g'', split', taken, hg'', rfl⟩ := mem_itemGaps.mp hg'
  have place : 0 + before'.length = 0 + before.countP (fun node => !undecodable chars element node) :=
    Step.item.inj (List.cons.inj same).1
  have fewer : before.countP (fun node => !undecodable chars element node) < before.length := by
    refine lt_of_le_of_ne List.countP_le_length fun whole => ?_
    have := List.countP_eq_length.mp whole b hb
    simp [failed] at this
  have earlier : before'.length < Nat.find exists_late := by omega
  have clear : ∀ b ∈ before', undecodable chars element b = false := by
    intro b hb
    cases failed : undecodable chars element b with
    | false => rfl
    | true => exact absurd ⟨before', node', after', split', rfl, ⟨b, hb, failed⟩, g'', hg''⟩ (Nat.find_min exists_late earlier)
  obtain ⟨rest, extends_⟩ : ∃ rest, before = before' ++ node' :: rest := by
    rw [split] at split'
    have shorter : before'.length < before.length := by omega
    have prefix' := List.append_eq_append_iff.mp split'
    rcases prefix' with ⟨extra, left, right⟩ | ⟨extra, left, right⟩
    · rw [left, List.length_append] at shorter
      omega
    · cases extra with
      | nil =>
          rw [left, List.append_nil] at shorter
          omega
      | cons e extra =>
          cases right
          exact ⟨extra, left⟩
  rw [extends_, List.countP_append, List.countP_cons_of_pos (by simp [taken]), count_decoded clear] at place
  omega

theorem disorder_misplaced {t : TypeRef} (wf : t.wf) {node : JsonValue} (disorder : ¬ orderly chars t node) :
    Misplaced (gaps chars t node) := by
  induction t generalizing node with
  | message schema ih =>
      rw [TypeRef.wf_message] at wf
      cases node with
      | object members =>
          rw [orderly, orderlyMembers_eq, orderlyFields_iff] at disorder
          simp only [not_forall] at disorder
          obtain ⟨f, hf, node, found, disorder⟩ := disorder
          obtain ⟨g, hg, none⟩ := ih f hf ((Schema.wf_iff.mp wf).2.2 f hf) disorder
          rw [gaps, memberGaps_eq]
          refine ⟨_, mem_fieldGaps.mpr ⟨f, hf, .inr ⟨node, g, found, gap_step hg, hg, rfl⟩⟩, ?_⟩
          intro g' hg' same
          obtain ⟨f', hf', hg'⟩ := mem_fieldGaps.mp hg'
          rcases hg' with ⟨_, _, rfl⟩ | ⟨node', g'', found', _, hg'', rfl⟩
          · exact (gap_ne_nil hg).2 (List.cons.inj same).2.symm
          · obtain ⟨name, rest⟩ := List.cons.inj same
            obtain rfl := field_unique wf hf' hf (Step.field.inj name)
            rw [found] at found'
            cases found'
            exact none g'' hg'' rest
      | _ => simp [orderly] at disorder
  | list element ih =>
      rw [TypeRef.wf_list] at wf
      cases node with
      | array nodes =>
          rw [orderly] at disorder
          rw [gaps]
          by_cases inOrder : nodes.Pairwise fun a b => undecodable chars element a = true → lacks chars element b = false
          · obtain ⟨node, hn, disorder⟩ : ∃ node ∈ nodes, ¬ orderly chars element node := by
              by_contra none
              exact disorder ⟨fun node hn => not_not.mp fun bad => none ⟨node, hn, bad⟩, inOrder⟩
            obtain ⟨g, hg, none⟩ := ih wf disorder
            obtain ⟨before, after, rfl⟩ := List.append_of_mem hn
            refine ⟨_, mem_itemGaps.mpr ⟨before, node, after, g, rfl, gap_step hg, hg, rfl⟩, ?_⟩
            rw [count_decoded (decoded_before inOrder hg)]
            intro g' hg' same
            obtain ⟨before', node', after', g'', split', _, hg'', rfl⟩ := mem_itemGaps.mp hg'
            obtain ⟨place, rest⟩ := List.cons.inj same
            have length := Step.item.inj place
            obtain ⟨_, rfl⟩ := split_unique split' (by omega)
            exact none g'' hg'' rest
          · exact items_misplaced inOrder
      | _ => simp [orderly] at disorder
  | _ => simp [orderly] at disorder

/-! ## Positions of required fields -/

inductive RequiredAt : TypeRef → Position → Prop where
  | here {schema : Schema} {f : Field} (hf : f ∈ schema.fields) (required : f.required = true) :
      RequiredAt (.message schema) [.field f.name]
  | field {schema : Schema} {f : Field} {q : Position} (hf : f ∈ schema.fields) (h : RequiredAt f.type q) :
      RequiredAt (.message schema) (.field f.name :: q)
  | item {element : TypeRef} {q : Position} (i : Nat) (h : RequiredAt element q) :
      RequiredAt (.list element) (.item i :: q)

theorem gap_requiredAt {t : TypeRef} {node : JsonValue} {g : Gap} (h : g ∈ gaps chars t node) :
    RequiredAt t g.1 ∧ RequiredAt t g.2 := by
  induction t generalizing node g with
  | message schema ih =>
      cases node with
      | object members =>
          rw [gaps, memberGaps_eq] at h
          obtain ⟨f, hf, h⟩ := mem_fieldGaps.mp h
          rcases h with ⟨required, _, rfl⟩ | ⟨node, g', found, _, hg', rfl⟩
          · exact ⟨.here hf required, .here hf required⟩
          · obtain ⟨left, right⟩ := ih f hf hg'
            exact ⟨.field hf left, .field hf right⟩
      | _ => simp [gaps] at h
  | list element ih =>
      cases node with
      | array nodes =>
          rw [gaps] at h
          obtain ⟨before, node, after, g', rfl, _, hg', rfl⟩ := mem_itemGaps.mp h
          obtain ⟨left, right⟩ := ih hg'
          exact ⟨.item _ left, .item _ right⟩
      | _ => simp [gaps] at h
  | _ => simp [gaps] at h

theorem wrong_field {schema : Schema} (wf : schema.wf) {members : List (ByteString × JsonValue)} {f : Field}
    (hf : f ∈ schema.fields) {q : Position} (h : .field f.name :: q ∈ wrongMembers chars schema members) :
    ∃ node, (JsonValue.object members).find f.name = some node ∧ q ∈ wrong chars f.type node := by
  have unique := fun f' hf' => @field_unique schema wf f' f hf' hf
  obtain ⟨name, version, fields⟩ := schema
  rw [wrongMembers, List.mem_append] at h
  rcases h with undeclared | h
  · obtain ⟨member, mem, same⟩ := List.mem_map.mp undeclared
    have named : member.1 = f.name := Step.field.inj (List.cons.inj same).1
    have known := (List.mem_filter.mp mem).2
    have any : (fields.any fun f => f.name == member.1) = true := List.any_eq_true.mpr ⟨f, hf, by simp [named]⟩
    rw [any] at known
    cases known
  · obtain ⟨f', hf', node, q', found, bad, same⟩ := mem_wrongFields.mp h
    obtain ⟨named, rfl⟩ := List.cons.inj same
    obtain rfl := unique f' hf' (Step.field.inj named)
    exact ⟨node, found, bad⟩

theorem wrong_required {t : TypeRef} (wf : t.wf) {q : Position} (required : RequiredAt t q) {node : JsonValue}
    (h : q ∈ wrong chars t node) : ∃ g ∈ gaps chars t node, g.1 = q := by
  induction required generalizing node with
  | @here schema f hf required =>
      rw [TypeRef.wf_message] at wf
      cases node with
      | object members =>
          rw [wrong] at h
          obtain ⟨node, found, bad⟩ := wrong_field wf hf h
          have unfilled : Unfilled chars f members := fun node' found' => by
            rw [found] at found'
            cases found'
            exact nil_mem_wrong.mp bad
          rw [gaps, memberGaps_eq]
          exact ⟨single f.name, mem_fieldGaps.mpr ⟨f, hf, .inl ⟨required, unfilled, rfl⟩⟩, rfl⟩
      | _ => simp [wrong] at h
  | @field schema f q hf deeper ih =>
      rw [TypeRef.wf_message] at wf
      cases node with
      | object members =>
          rw [wrong] at h
          obtain ⟨node, found, bad⟩ := wrong_field wf hf h
          obtain ⟨g, hg, rfl⟩ := ih ((Schema.wf_iff.mp wf).2.2 f hf) bad
          rw [gaps, memberGaps_eq]
          exact ⟨_, mem_fieldGaps.mpr ⟨f, hf, .inr ⟨node, g, found, gap_step hg, hg, rfl⟩⟩, rfl⟩
      | _ => simp [wrong] at h
  | @item element q i deeper ih =>
      rw [TypeRef.wf_list] at wf
      cases node with
      | array nodes =>
          rw [wrong] at h
          obtain ⟨before, node, after, q', rfl, bad, same⟩ := mem_items.mp h
          obtain ⟨place, rfl⟩ := List.cons.inj same
          obtain ⟨g, hg, rfl⟩ := ih wf bad
          rw [gaps, ← place]
          exact ⟨_, mem_itemGaps.mpr ⟨before, node, after, g, rfl, gap_step hg, hg, rfl⟩, rfl⟩
      | _ => simp [wrong] at h

/-! ## Texts tell positions apart -/

theorem fieldsLegible_iff {fields : List Field} : fieldsLegible fields ↔ ∀ f ∈ fields,
    ((0x2E : UInt8) ∉ f.name ∧ (0x5B : UInt8) ∉ f.name) ∧ f.type.legible := by
  induction fields with
  | nil => simp [fieldsLegible]
  | cons f fields ih =>
      obtain ⟨name, type, required⟩ := f
      rw [fieldsLegible, ih, List.forall_mem_cons]
      exact and_assoc.symm

theorem Schema.legible_iff {schema : Schema} : schema.legible ↔ ∀ f ∈ schema.fields,
    ((0x2E : UInt8) ∉ f.name ∧ (0x5B : UInt8) ∉ f.name) ∧ f.type.legible := by
  obtain ⟨name, version, fields⟩ := schema
  rw [Schema.legible, fieldsLegible_iff]

theorem RequiredAt.legible {t : TypeRef} (wf : t.wf) (plain : t.legible) {q : Position} (h : RequiredAt t q) :
    Legible q := by
  induction h with
  | @here schema f hf required =>
      rw [TypeRef.wf_message] at wf
      rw [TypeRef.legible, Schema.legible_iff] at plain
      intro name hn
      obtain rfl := Step.field.inj (List.mem_singleton.mp hn)
      exact ⟨(Schema.wf_iff.mp wf).1 f hf, (plain f hf).1⟩
  | @field schema f q hf deeper ih =>
      rw [TypeRef.wf_message] at wf
      rw [TypeRef.legible, Schema.legible_iff] at plain
      intro name hn
      rcases List.mem_cons.mp hn with same | hn
      · obtain rfl := Step.field.inj same
        exact ⟨(Schema.wf_iff.mp wf).1 f hf, (plain f hf).1⟩
      · exact ih ((Schema.wf_iff.mp wf).2.2 f hf) (plain f hf).2 name hn
  | @item element q i deeper ih =>
      rw [TypeRef.wf_list] at wf
      rw [TypeRef.legible] at plain
      intro name hn
      rcases List.mem_cons.mp hn with same | hn
      · cases same
      · exact ih wf plain name hn

def suffix : Position → ByteString
  | [] => []
  | .field name :: p => 0x2E :: (name ++ suffix p)
  | .item i :: p => 0x5B :: (decimal i ++ 0x5D :: suffix p)

theorem render_suffix {base : ByteString} (filled : base ≠ []) (p : Position) : render base p = base ++ suffix p := by
  induction p generalizing base with
  | nil => simp [render, suffix]
  | cons s p ih =>
      cases s with
      | field name =>
          have path : fieldPath base name = base ++ 0x2E :: name := by
            rw [fieldPath, if_neg (by simpa using filled), List.append_assoc]
            rfl
          rw [render, ih (by simp [path, filled]), path, suffix]
          simp
      | item i =>
          have path : indexPath base i = base ++ 0x5B :: (decimal i ++ [0x5D]) := by
            rw [indexPath, List.append_assoc, List.append_assoc]
            rfl
          rw [render, ih (by simp [path, filled]), path, suffix]
          simp

theorem append_cancel {s s' r r' : ByteString} (stops : UInt8 → Prop) (plain : ∀ b ∈ s, ¬ stops b)
    (plain' : ∀ b ∈ s', ¬ stops b) (stop : ∀ b ∈ r.head?, stops b) (stop' : ∀ b ∈ r'.head?, stops b)
    (same : s ++ r = s' ++ r') : s = s' ∧ r = r' := by
  induction s generalizing s' with
  | nil =>
      cases s' with
      | nil => exact ⟨rfl, same⟩
      | cons b s' =>
          rw [List.nil_append] at same
          exact absurd (stop b (by rw [same]; rfl)) (plain' b (by simp))
  | cons b s ih =>
      cases s' with
      | nil =>
          rw [List.nil_append] at same
          exact absurd (stop' b (by rw [← same]; rfl)) (plain b (by simp))
      | cons b' s' =>
          obtain ⟨rfl, tails⟩ := List.cons.inj same
          obtain ⟨rfl, rest⟩ := ih (fun c hc => plain c (List.mem_cons_of_mem _ hc))
            (fun c hc => plain' c (List.mem_cons_of_mem _ hc)) tails
          exact ⟨rfl, rest⟩

theorem suffix_stops (p : Position) : ∀ b ∈ (suffix p).head?, b = 0x2E ∨ b = 0x5B := by
  intro b hb
  cases p with
  | nil => cases hb
  | cons s p =>
      cases s with
      | field name =>
          cases hb
          exact .inl rfl
      | item i =>
          cases hb
          exact .inr rfl

theorem Legible.tail {s : Step} {p : Position} (h : Legible (s :: p)) : Legible p :=
  fun name hn => h name (List.mem_cons_of_mem _ hn)

theorem Legible.name_stops {name : ByteString} {p : Position} (h : Legible (.field name :: p)) :
    ∀ b ∈ name, ¬ (b = 0x2E ∨ b = 0x5B) := by
  obtain ⟨_, dot, bracket⟩ := h name (by simp)
  rintro b hb (rfl | rfl)
  · exact dot hb
  · exact bracket hb

theorem decimal_stops (n : Nat) : ∀ b ∈ decimal n, ¬ b = 0x5D := by
  intro b hb
  obtain ⟨c, hc, rfl⟩ := List.mem_map.mp hb
  have digit := Nat.isDigit_of_mem_toDigits (by decide) (by decide) hc
  intro same
  have value := congrArg UInt8.toNat same
  have most : c.toNat ≤ 57 := by
    simp only [Char.isDigit, Bool.and_eq_true, decide_eq_true_eq] at digit
    exact digit.2
  rw [UInt8.toNat_ofNat', Nat.mod_eq_of_lt (by omega)] at value
  change c.toNat = 93 at value
  omega

theorem decimal_injective {i j : Nat} (same : decimal i = decimal j) : i = j := by
  obtain ⟨ds, spelled, rfl⟩ := Zen.Proof.decimal_digits i
  obtain ⟨ds', spelled', rfl⟩ := Zen.Proof.decimal_digits j
  rw [spelled, spelled'] at same
  have read := Zen.Proof.digitsValue_spell ds
  rw [same, Zen.Proof.digitsValue_spell] at read
  exact (Option.some.inj read).symm

theorem suffix_injective {p q : Position} (hp : Legible p) (hq : Legible q) (same : suffix p = suffix q) : p = q := by
  induction p generalizing q with
  | nil =>
      cases q with
      | nil => rfl
      | cons s q => cases s <;> cases same
  | cons s p ih =>
      cases q with
      | nil => cases s <;> cases same
      | cons s' q =>
          cases s with
          | field name =>
              cases s' with
              | field name' =>
                  obtain ⟨rfl, rest⟩ := append_cancel _ hp.name_stops hq.name_stops (suffix_stops p) (suffix_stops q)
                    (List.cons.inj same).2
                  rw [ih hp.tail hq.tail rest]
              | item j => cases (List.cons.inj same).1
          | item i =>
              cases s' with
              | field name' => cases (List.cons.inj same).1
              | item j =>
                  obtain ⟨number, rest⟩ := append_cancel (· = 0x5D) (decimal_stops i) (decimal_stops j)
                    (by simp) (by simp) (List.cons.inj same).2
                  rw [decimal_injective number, ih hp.tail hq.tail (List.cons.inj rest).2]

theorem render_field {name : ByteString} (filled : name ≠ []) (p : Position) :
    render [] (.field name :: p) = name ++ suffix p :=
  render_suffix filled p

theorem render_injective {name name' : ByteString} {p q : Position} (hp : Legible (.field name :: p))
    (hq : Legible (.field name' :: q)) (same : render [] (.field name :: p) = render [] (.field name' :: q)) :
    Step.field name :: p = .field name' :: q := by
  rw [render_field (hp name (by simp)).1, render_field (hq name' (by simp)).1] at same
  obtain ⟨rfl, rest⟩ := append_cancel _ hp.name_stops hq.name_stops (suffix_stops p) (suffix_stops q) same
  rw [suffix_injective hp.tail hq.tail rest]

end Zen.Raw

namespace Zen.Proof
open Raw

/-! ## The report -/

theorem full_errors {chars : FloatChars} {claim : Claim (List (ByteString × JsonValue))} {door : Schema}
    (named : claim.name = door.name ∧ claim.version = door.version ∧
      ∀ id, claim.contentId = some id → id = door.contentId) :
    (Compat.admitUnverified chars (.ok claim) door .full).errors =
      JsonDecoder.objectFaults chars door.raw claim.body [] ++
        (gateValueFaults door.raw (JsonDecoder.takenValue chars door.raw claim.body) []).filter fun e =>
          e.path ∉ (JsonDecoder.objectFaults chars door.raw claim.body []).map Error.path := by
  obtain ⟨name, version, id⟩ := named
  have run := decodeJson_reports chars door claim.body
  have errs : (decodeJson chars door true claim.body).errs = JsonDecoder.objectFaults chars door.raw claim.body [] :=
    (congrArg Prod.snd (run.full [])).trans (List.nil_append _)
  have value : (decodeJson chars door true claim.body).candidate.raw =
      JsonDecoder.takenValue chars door.raw claim.body := congrArg Prod.fst (run.full [])
  have fatal : (decodeJson chars door true claim.body).fatal = false := rfl
  have verrs : validateInto (decodeJson chars door true claim.body).candidate.raw door.raw true =
      gateValueFaults door.raw (JsonDecoder.takenValue chars door.raw claim.body) [] := by
    rw [value, validateInto_full (by rw [takenValue_schema])]
  have reached : Compat.admitUnverified chars (.ok claim) door .full =
      finish (decodeJson chars door true claim.body) door true := by
    rw [Compat.admitUnverified, admitAgainst, if_neg (by simp [name, version])]
    split
    · rename_i id' claimed
      rw [if_neg (not_not.mpr (id id' claimed))]
      rfl
    · rfl
  rw [reached, finish, fatal, verrs, errs]
  simp only [Bool.false_eq_true, if_false, Bool.not_true]
  generalize JsonDecoder.objectFaults chars door.raw claim.body [] ++ _ = merged
  cases merged <;> rfl

theorem mem_full_missing {chars : FloatChars} {door : Schema} {members : List (ByteString × JsonValue)} {e : Error} :
    (e ∈ JsonDecoder.objectFaults chars door.raw members [] ++
      (gateValueFaults door.raw (JsonDecoder.takenValue chars door.raw members) []).filter (fun e =>
        e.path ∉ (JsonDecoder.objectFaults chars door.raw members []).map Error.path) ∧ e.kind = .missingField) ↔
      e ∈ gateValueFaults door.raw (JsonDecoder.takenValue chars door.raw members) [] ∧
        e.path ∉ (JsonDecoder.objectFaults chars door.raw members []).map Error.path ∧ e.kind = .missingField := by
  have decoder := @objectFaults_kind chars door.raw members [] fun f _ node base => faults_kind f.type node base
  rw [List.mem_append, List.mem_filter, decide_eq_true_eq]
  constructor
  · rintro ⟨fault | ⟨mem, uncovered⟩, kind⟩
    · exact absurd kind (decoder e fault)
    · exact ⟨mem, uncovered, kind⟩
  · rintro ⟨mem, uncovered, kind⟩
    exact ⟨.inr ⟨mem, uncovered⟩, kind⟩

theorem points_iff {chars : FloatChars} {claim : Claim (List (ByteString × JsonValue))} {door : Schema}
    (named : claim.name = door.name ∧ claim.version = door.version ∧
      ∀ id, claim.contentId = some id → id = door.contentId) :
    PointsAtFaults door claim.body (Compat.admitUnverified chars (.ok claim) door .full).errors ↔
      (∀ g ∈ memberGaps chars door.raw claim.body,
        render [] g.2 ∉ (wrongMembers chars door.raw claim.body).map (render []) →
          ∃ p ∈ absentMembers door.raw claim.body, render [] g.2 = render [] p) ∧
      ∀ p ∈ absentMembers door.raw claim.body, (∃ g ∈ memberGaps chars door.raw claim.body,
        render [] g.2 = render [] p) ∧ render [] p ∉ (wrongMembers chars door.raw claim.body).map (render []) := by
  have declared := (Schema.wf_iff.mp door.wf).2.2
  have missing := memberGaps_missing door.wf claim.body [] fun f hf node c base took =>
    @gaps_missing chars f.type (declared f hf) node c took base
  have paths := @objectFaults_paths chars door.raw claim.body [] fun f _ node base => faults_paths f.type node base
  have errors : ∀ e, (e ∈ (Compat.admitUnverified chars (.ok claim) door .full).errors ∧ e.kind = .missingField) ↔
      e ∈ gateValueFaults door.raw (JsonDecoder.takenValue chars door.raw claim.body) [] ∧
        e.path ∉ (wrongMembers chars door.raw claim.body).map (render []) := by
    intro e
    rw [full_errors named, mem_full_missing, paths]
    refine and_congr_right fun mem => ?_
    exact and_iff_left (missing.kind e mem)
  have texts : ∀ x, (∃ e ∈ gateValueFaults door.raw (JsonDecoder.takenValue chars door.raw claim.body) [], e.path = x) ↔
      ∃ g ∈ memberGaps chars door.raw claim.body, render [] g.2 = x := by
    intro x
    rw [← List.mem_map, missing.paths, List.mem_map]
  constructor
  · rintro ⟨real, reported⟩
    constructor
    · intro g hg uncovered
      obtain ⟨e, he, path⟩ := (texts _).mpr ⟨g, hg, rfl⟩
      obtain ⟨mem, kind⟩ := (errors e).mpr ⟨he, by rwa [path]⟩
      obtain ⟨p, hp, same⟩ := real e mem kind
      exact ⟨p, hp, path ▸ same⟩
    · intro p hp
      obtain ⟨e, mem, kind, path⟩ := reported p hp
      obtain ⟨he, uncovered⟩ := (errors e).mp ⟨mem, kind⟩
      exact ⟨(texts _).mp ⟨e, he, path⟩, path ▸ uncovered⟩
  · rintro ⟨real, reported⟩
    constructor
    · intro e mem kind
      obtain ⟨he, uncovered⟩ := (errors e).mp ⟨mem, kind⟩
      obtain ⟨g, hg, path⟩ := (texts _).mp ⟨e, he, rfl⟩
      obtain ⟨p, hp, same⟩ := real g hg (by rwa [path])
      exact ⟨p, hp, path.symm.trans same⟩
    · intro p hp
      obtain ⟨reach, uncovered⟩ := reported p hp
      obtain ⟨e, he, path⟩ := (texts _).mpr reach
      obtain ⟨mem, kind⟩ := (errors e).mpr ⟨he, by rwa [path]⟩
      exact ⟨e, mem, kind, path⟩

theorem requiredAt_field {schema : Raw.Schema} {q : Position} (h : RequiredAt (.message schema) q) :
    ∃ name p, q = .field name :: p := by
  cases h with
  | here hf required => exact ⟨_, _, rfl⟩
  | field hf deeper => exact ⟨_, _, rfl⟩

theorem wrongMembers_field {chars : FloatChars} {schema : Raw.Schema} {members : List (ByteString × JsonValue)}
    {q : Position} (h : q ∈ wrongMembers chars schema members) : ∃ name p, q = .field name :: p := by
  obtain ⟨name, version, fields⟩ := schema
  rw [wrongMembers, List.mem_append] at h
  rcases h with undeclared | h
  · obtain ⟨member, _, rfl⟩ := List.mem_map.mp undeclared
    exact ⟨_, _, rfl⟩
  · obtain ⟨f, _, node, q', _, _, rfl⟩ := mem_wrongFields.mp h
    exact ⟨_, _, rfl⟩

theorem orderly_of_points {chars : FloatChars} {claim : Claim (List (ByteString × JsonValue))} {door : Schema}
    (named : claim.name = door.name ∧ claim.version = door.version ∧
      ∀ id, claim.contentId = some id → id = door.contentId) (plain : PlainNames chars door claim.body)
    (points : PointsAtFaults door claim.body (Compat.admitUnverified chars (.ok claim) door .full).errors) :
    orderlyMembers chars door.raw claim.body := by
  have wf : (Raw.TypeRef.message door.raw).wf := by
    rw [Raw.TypeRef.wf_message]
    exact door.wf
  have legible : (Raw.TypeRef.message door.raw).legible := by
    rw [Raw.TypeRef.legible]
    exact plain.1
  by_contra disorder
  obtain ⟨g, hg, none⟩ := @disorder_misplaced chars (.message door.raw) wf (.object claim.body) (by rwa [orderly])
  have required := (gap_requiredAt hg).2
  have same_text : ∀ {q : Position}, Legible q → (∃ name p, q = .field name :: p) →
      render [] g.2 = render [] q → g.2 = q := by
    rintro q legible' ⟨name, p, rfl⟩ same
    obtain ⟨name', p', shape⟩ := requiredAt_field required
    rw [shape] at same ⊢
    exact render_injective (shape ▸ required.legible wf legible) legible' same
  obtain ⟨real, _⟩ := (points_iff named).mp points
  rw [gaps] at hg none
  by_cases covered : render [] g.2 ∈ (wrongMembers chars door.raw claim.body).map (render [])
  · obtain ⟨q, hq, same⟩ := List.mem_map.mp covered
    obtain rfl := same_text (plain.2 q hq) (wrongMembers_field hq) same.symm
    obtain ⟨g', hg', first⟩ := @wrong_required chars (.message door.raw) wf g.2 required (.object claim.body) (by rwa [wrong])
    rw [gaps] at hg'
    exact none g' hg' first
  · obtain ⟨p, hp, same⟩ := real g hg covered
    obtain ⟨g', hg', rfl⟩ := @absent_gap chars (.message door.raw) (.object claim.body) p (by rwa [absent])
    have required' := (gap_requiredAt hg').1
    have first := same_text (required'.legible wf legible) (requiredAt_field required') same
    rw [gaps] at hg'
    exact none g' hg' first.symm

theorem full_report_points_at_faults {chars : FloatChars} {claim : Claim (List (ByteString × JsonValue))}
    {door : Schema} (named : claim.name = door.name ∧ claim.version = door.version ∧
      ∀ id, claim.contentId = some id → id = door.contentId) :
    (orderlyMembers chars door.raw claim.body ∧ NoClash chars door claim.body →
      PointsAtFaults door claim.body (Compat.admitUnverified chars (.ok claim) door .full).errors) ∧
    (PointsAtFaults door claim.body (Compat.admitUnverified chars (.ok claim) door .full).errors →
      NoClash chars door claim.body) ∧
    (PlainNames chars door claim.body →
      PointsAtFaults door claim.body (Compat.admitUnverified chars (.ok claim) door .full).errors →
        orderlyMembers chars door.raw claim.body) := by
  refine ⟨?_, ?_, orderly_of_points named⟩
  · rintro ⟨tidy, apart⟩
    have tidy : orderly chars (.message door.raw) (.object claim.body) := by rwa [orderly]
    have uncovered : ∀ p ∈ absentMembers door.raw claim.body,
        render [] p ∉ (wrongMembers chars door.raw claim.body).map (render []) := by
      intro p hp covered
      obtain ⟨q, hq, same⟩ := List.mem_map.mp covered
      exact apart p hp q hq same.symm
    have placed : ∀ g ∈ memberGaps chars door.raw claim.body, g.1 = g.2 ∧
        (g.1 ∈ absentMembers door.raw claim.body ∨ g.1 ∈ wrongMembers chars door.raw claim.body) := by
      intro g hg
      have hg : g ∈ gaps chars (.message door.raw) (.object claim.body) := by rwa [gaps]
      refine ⟨orderly_gaps tidy hg, ?_⟩
      have kinds := gap_absent_or_wrong hg
      rwa [absent, wrong] at kinds
    rw [points_iff named]
    constructor
    · intro g hg open'
      obtain ⟨same, gone | bad⟩ := placed g hg
      · exact ⟨g.1, gone, by rw [same]⟩
      · exact absurd (List.mem_map_of_mem bad) (same ▸ open')
    · intro p hp
      refine ⟨?_, uncovered p hp⟩
      obtain ⟨g, hg, rfl⟩ := @absent_gap chars (.message door.raw) (.object claim.body) p (by rwa [absent])
      rw [gaps] at hg
      exact ⟨g, hg, by rw [(placed g hg).1]⟩
  · intro points p hp q hq same
    exact ((points_iff named).mp points).2 p hp |>.2 (List.mem_map.mpr ⟨q, hq, same.symm⟩)

def Squad : Schema :=
  ⟨⟨ascii "Squad", 1, [⟨ascii "members", .list (.message Tag.raw), true⟩]⟩, by decide⟩

def squadClaim (items : List JsonValue) : Claim (List (ByteString × JsonValue)) :=
  ⟨ascii "Squad", 1, none, [(ascii "members", .array items)]⟩

-- no double stands in the documents, so the library's part is never asked
def noChars : FloatChars := ⟨fun _ => [], fun _ => none⟩

theorem full_report_points_at_faults_squad : PointsAtFaults Squad (squadClaim [.object [], .number "5"]).body
    (Compat.admitUnverified noChars (.ok (squadClaim [.object [], .number "5"])) Squad .full).errors := by
  have tidy : orderlyMembers noChars Squad.raw (squadClaim [.object [], .number "5"]).body := by
    refine ⟨⟨?_, ?_⟩, trivial⟩
    · intro node hn
      simp only [List.mem_cons, List.not_mem_nil, or_false] at hn
      rcases hn with rfl | rfl
      · exact ⟨trivial, trivial, trivial⟩
      · trivial
    · exact .cons (fun b hb failed => by cases failed) (.cons nofun .nil)
  have apart : NoClash noChars Squad (squadClaim [.object [], .number "5"]).body := by
    unfold NoClash
    decide +kernel
  exact (full_report_points_at_faults ⟨rfl, rfl, fun _ claimed => by cases claimed⟩).1 ⟨tidy, apart⟩

theorem skipped_item_misplaces_report : ¬ PointsAtFaults Squad (squadClaim [.number "5", .object []]).body
    (Compat.admitUnverified noChars (.ok (squadClaim [.number "5", .object []])) Squad .full).errors := by
  intro points
  have stray : ∃ e ∈ (Compat.admitUnverified noChars (.ok (squadClaim [.number "5", .object []])) Squad .full).errors,
      e.kind = .missingField ∧
        ∀ p ∈ absentMembers Squad.raw (squadClaim [.number "5", .object []]).body, e.path ≠ render [] p := by
    decide +kernel
  obtain ⟨e, mem, kind, none⟩ := stray
  obtain ⟨p, hp, same⟩ := points.real e mem kind
  exact none p hp same

end Zen.Proof
