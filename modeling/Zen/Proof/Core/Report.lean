import Zen.Lib.Reports
import Zen.Proof.Core.Decode
import Zen.Proof.Core.Gate
import Zen.Spec.Report

/-!
# The fast and the full report
-/

namespace Zen.Raw
open Lib

/-! ## The gate -/

def Ctx.emitAll (ctx : Ctx) (errs : List Error) : Ctx :=
  errs.foldl (fun ctx e => if ctx.stopped then ctx else ctx.emit e) ctx

theorem emitAll_append (ctx : Ctx) (errs later : List Error) :
    ctx.emitAll (errs ++ later) = (ctx.emitAll errs).emitAll later :=
  List.foldl_append

theorem emitAll_stopped {ctx : Ctx} (stopped : ctx.stopped = true) (errs : List Error) : ctx.emitAll errs = ctx := by
  induction errs with
  | nil => rfl
  | cons e errs ih =>
      rw [Ctx.emitAll, List.foldl_cons, if_pos stopped]
      exact ih

theorem emitAll_one {ctx : Ctx} (running : ¬ ctx.stopped = true) (e : Error) : ctx.emitAll [e] = ctx.emit e := by
  rw [Ctx.emitAll, List.foldl_cons, if_neg running, List.foldl_nil]

theorem emitAll_full (errs before : List Error) :
    Ctx.emitAll ⟨before, true, false⟩ errs = ⟨before ++ errs, true, false⟩ := by
  induction errs generalizing before with
  | nil => rw [List.append_nil]; rfl
  | cons e errs ih =>
      rw [Ctx.emitAll, List.foldl_cons, if_neg (by simp)]
      refine (ih (before ++ [e])).trans ?_
      rw [List.append_assoc]
      rfl

theorem emitAll_first (errs : List Error) : (Ctx.emitAll ⟨[], false, false⟩ errs).errs = errs.take 1 := by
  cases errs with
  | nil => rfl
  | cons e errs =>
      rw [Ctx.emitAll, List.foldl_cons, if_neg (by simp)]
      have stopped : (Ctx.emit ⟨[], false, false⟩ e).stopped = true := rfl
      exact congrArg Ctx.errs (emitAll_stopped stopped errs)

theorem validatePrimitive_emits (c : Cell) (t : TypeRef) (ctx : Ctx) (path : ByteString) :
    (if ctx.stopped then ctx else validatePrimitive c t ctx path) = ctx.emitAll (primitiveFaults t c path) := by
  split
  · rename_i stopped
    exact (emitAll_stopped stopped _).symm
  · rename_i running
    unfold validatePrimitive primitiveFaults
    split
    · exact (emitAll_one running _).symm
    · rfl

theorem validateFields_emits {v : Value} {fields : List Field} {base : ByteString}
    (cells : ∀ f ∈ fields, ∀ c ctx path, validateCell c f.type ctx path = ctx.emitAll (gateFaults f.type c path))
    (ctx : Ctx) : validateFields v fields ctx base = ctx.emitAll (gateFieldFaults fields v base) := by
  induction fields generalizing ctx with
  | nil => rfl
  | cons f fields ih =>
      have others := fun g hg => cells g (List.mem_cons_of_mem _ hg)
      obtain ⟨name, type, required⟩ := f
      rw [validateFields, gateFieldFaults, emitAll_append]
      split
      · rename_i stopped
        rw [emitAll_stopped stopped, emitAll_stopped stopped]
      · rename_i running
        cases slot : v.get name with
        | none =>
            cases required with
            | false => exact ih others ctx
            | true =>
                simp only [if_true]
                rw [emitAll_one running]
                exact ih others _
        | some c =>
            simp only
            rw [← cells ⟨name, type, required⟩ (by simp) c]
            exact ih others _

theorem validateElements_emits {element : TypeRef} {path : ByteString}
    (cells : ∀ c ctx path, validateCell c element ctx path = ctx.emitAll (gateFaults element c path))
    (elements : List (Cell × Nat)) (ctx : Ctx) :
    elements.foldl (fun ctx x => if ctx.stopped then ctx else validateCell x.1 element ctx (indexPath path x.2)) ctx =
      ctx.emitAll (elements.flatMap fun x => gateFaults element x.1 (indexPath path x.2)) := by
  induction elements generalizing ctx with
  | nil => rfl
  | cons x elements ih =>
      rw [List.foldl_cons, List.flatMap_cons, emitAll_append, ih]
      split
      · rename_i stopped
        rw [emitAll_stopped stopped (gateFaults _ _ _)]
      · rw [cells]

theorem validateCell_emits {t : TypeRef} (c : Cell) (ctx : Ctx) (path : ByteString) :
    validateCell c t ctx path = ctx.emitAll (gateFaults t c path) := by
  induction t generalizing c ctx path with
  | int | float | text | bool | bytes =>
      rw [validateCell, gateFaults]
      exact validatePrimitive_emits c _ ctx path
  | message schema ih =>
      rw [validateCell.eq_def, gateFaults.eq_def]
      simp only
      split
      · rename_i stopped
        exact (emitAll_stopped stopped _).symm
      · rename_i running
        cases c with
        | message nested =>
            simp only
            split
            · exact (emitAll_one running _).symm
            · obtain ⟨name, version, fields⟩ := schema
              rw [validateValue, gateValueFaults]
              exact validateFields_emits ih ctx
        | _ => exact (emitAll_one running _).symm
  | list element ih =>
      rw [validateCell.eq_def, gateFaults.eq_def]
      simp only
      split
      · rename_i stopped
        exact (emitAll_stopped stopped _).symm
      · rename_i running
        cases c with
        | list cells => exact validateElements_emits ih cells.zipIdx ctx
        | _ => exact (emitAll_one running _).symm

theorem validateValue_emits (v : Value) (schema : Schema) (ctx : Ctx) (base : ByteString) :
    validateValue v schema ctx base = ctx.emitAll (gateValueFaults schema v base) := by
  obtain ⟨name, version, fields⟩ := schema
  rw [validateValue, gateValueFaults]
  exact validateFields_emits (fun _ _ _ _ _ => validateCell_emits _ _ _) ctx

theorem validateInto_full {claimant : Value} {door : Schema} (same : claimant.schema.contentId = door.contentId) :
    validateInto claimant door true = gateValueFaults door claimant [] := by
  rw [validateInto, if_neg (not_not.mpr same), validateValue_emits, emitAll_full, List.nil_append]

theorem validateInto_first (claimant : Value) (door : Schema) :
    validateInto claimant door false = (validateInto claimant door true).take 1 := by
  by_cases same : claimant.schema.contentId = door.contentId
  · rw [validateInto_full same, validateInto, if_neg (not_not.mpr same), validateValue_emits, emitAll_first]
  · rw [validateInto, validateInto, if_pos same, if_pos same]
    rfl

/-! ## The decoder -/

namespace JsonDecoder

variable {chars : FloatChars}

theorem checkMembers_stops (declared : List Field) (base : ByteString) (members : List (ByteString × JsonValue))
    (e : Error) : checkMembers false declared base members [e] = [e] := by
  cases members <;> rfl

theorem checkMembers_reports (declared : List Field) (base : ByteString)
    (members : List (ByteString × JsonValue)) :
    Reports (fun all errs => ((), checkMembers all declared base members errs)) ()
      (unknownFaults declared base members) := by
  induction members with
  | nil => exact Reports.done ()
  | cons member members ih =>
      cases known : declared.any fun f => f.name == member.1 with
      | true =>
          rw [unknownFaults, List.filter_cons_of_neg (by rw [known]; simp)]
          apply ih.congr
          · intro errs
            rw [checkMembers, known]
            rfl
          · rw [checkMembers, known]
            rfl
      | false =>
          rw [unknownFaults, List.filter_cons_of_pos (by rw [known]; rfl), List.map_cons]
          have stops : ∀ e, ((), checkMembers false declared base members [e]).2 = [e] :=
            checkMembers_stops declared base members
          apply (ih.after stops (Reports.fault () _)).congr
          · intro errs
            rw [checkMembers, known]
            rfl
          · rw [checkMembers, known]
            rfl

theorem declaredFields_stops (members : List (ByteString × JsonValue)) (declared : List Field) (out : Value)
    (base : ByteString) (e : Error) : (declaredFields chars false members declared out base [e]).2 = [e] := by
  cases declared with
  | nil => rfl
  | cons f declared =>
      obtain ⟨name, type, required⟩ := f
      rw [declaredFields]
      rfl

theorem declaredFields_reports {schema : Schema} (nodup : (schema.fields.map Field.name).Nodup)
    {members : List (ByteString × JsonValue)} {base : ByteString} {before declared : List Field}
    (split : schema.fields = before ++ declared) (cells : ∀ f ∈ declared, ∀ node path,
      Reports (fun all errs => cell chars all f.type node path errs) (taken chars f.type node)
        (faults chars f.type node path))
    (done : List (Option Cell)) (aligned : done.length = before.length) :
    Reports (fun all errs => declaredFields chars all members declared
        ⟨schema, done ++ List.replicate declared.length none⟩ base errs)
      ⟨schema, done ++ takenSlots chars declared members⟩ (memberFaults chars declared members base) := by
  induction declared generalizing before done with
  | nil =>
      rw [List.length_nil, List.replicate_zero, takenSlots]
      exact Reports.done _
  | cons f declared ih =>
      have split' : schema.fields = (before ++ [f]) ++ declared := by simp [split]
      have others := fun g hg => cells g (List.mem_cons_of_mem _ hg)
      have rest := fun slot => ih split' others (done ++ [slot]) (by simp [aligned])
      obtain ⟨name, type, required⟩ := f
      rw [takenSlots, memberFaults, List.length_cons]
      cases found : (JsonValue.object members).find name with
      | none =>
          have skipped := rest none
          rw [List.append_assoc, List.append_assoc, List.singleton_append, List.singleton_append,
            ← List.replicate_succ] at skipped
          apply skipped.congr
          · intro errs
            rw [declaredFields, found]
            rfl
          · rw [declaredFields, found]
            rfl
      | some node =>
          have this := cells ⟨name, type, required⟩ (by simp) node (fieldPath base name)
          let empty : Value := ⟨schema, done ++ List.replicate (declared.length + 1) none⟩
          let next (c : Option Cell) (all : Bool) (errs : List Error) :=
            declaredFields chars all members declared (c.elim empty fun c => (empty.set name c).getD empty) base errs
          have later : Reports (next (taken chars type node))
              ⟨schema, done ++ taken chars type node :: takenSlots chars declared members⟩
              (memberFaults chars declared members base) := by
            have filled := rest (taken chars type node)
            rw [List.append_assoc done [_] (takenSlots _ _ _), List.singleton_append] at filled
            cases result : taken chars type node with
            | none =>
                rw [result, List.append_assoc, List.singleton_append, ← List.replicate_succ] at filled
                exact filled
            | some c =>
                rw [result] at filled
                simp only [next, empty, Option.elim]
                rw [set_next nodup split aligned, Option.getD_some]
                exact filled
          have stops : ∀ c e, (next c false [e]).2 = [e] := fun c e => declaredFields_stops members declared _ base e
          have unfolded : ∀ all errs, stop all errs = false → declaredFields chars all members
              (⟨name, type, required⟩ :: declared) ⟨schema, done ++ List.replicate (declared.length + 1) none⟩ base errs =
              next (cell chars all type node (fieldPath base name) errs).1 all
                (cell chars all type node (fieldPath base name) errs).2 := by
            intro all errs running
            rw [declaredFields, running, found]
            simp only [Bool.false_eq_true, if_false]
            split
            · rename_i c errs' run
              rw [run]
              rfl
            · rename_i errs' run
              rw [run]
              rfl
          exact (this.seq stops later).congr (fun errs => unfolded true errs rfl) (unfolded false [] rfl)

theorem fields_reports {schema : Schema} (wf : schema.wf) (members : List (ByteString × JsonValue))
    (base : ByteString) (cells : ∀ f ∈ schema.fields, ∀ node path,
      Reports (fun all errs => cell chars all f.type node path errs) (taken chars f.type node)
        (faults chars f.type node path)) :
    Reports (fun all errs => fields chars all members schema (.empty schema) base errs)
      (takenValue chars schema members) (objectFaults chars schema members base) := by
  have nodup := (Schema.wf_iff.mp wf).2.1
  obtain ⟨name, version, declared⟩ := schema
  have second := @declaredFields_reports chars ⟨name, version, declared⟩ nodup members base [] declared rfl cells [] rfl
  exact second.after (fun e => declaredFields_stops members declared _ base e)
    (checkMembers_reports declared base members)

theorem items_stops (element : JsonValue → ByteString → List Error → Option Cell × List Error) (path : ByteString)
    (nodes : List JsonValue) (i : Nat) (arr : List Cell) (e : Error) :
    (items false element path nodes i arr [e]).2 = [e] := by
  cases nodes <;> rfl

theorem items_reports {element : TypeRef} (cells : ∀ node path,
      Reports (fun all errs => cell chars all element node path errs) (taken chars element node)
        (faults chars element node path)) (path : ByteString) (nodes : List JsonValue) (i : Nat) (arr : List Cell) :
    Reports (fun all errs => items all (cell chars all element) path nodes i arr errs)
      (arr ++ nodes.filterMap fun node => taken chars element node)
      ((nodes.zipIdx i).flatMap fun x => faults chars element x.1 (indexPath path x.2)) := by
  induction nodes generalizing i arr with
  | nil =>
      rw [List.filterMap_nil, List.append_nil]
      exact Reports.done arr
  | cons node nodes ih =>
      let next (c : Option Cell) (all : Bool) (errs : List Error) :=
        items all (cell chars all element) path nodes (i + 1) (arr ++ c.toList) errs
      have collected : arr ++ (node :: nodes).filterMap (fun node => taken chars element node) =
          arr ++ (taken chars element node).toList ++ nodes.filterMap fun node => taken chars element node := by
        rw [List.append_assoc, List.filterMap_cons]
        cases taken chars element node <;> rfl
      have unfolded : ∀ all errs, stop all errs = false →
          items all (cell chars all element) path (node :: nodes) i arr errs =
            next (cell chars all element node (indexPath path i) errs).1 all
              (cell chars all element node (indexPath path i) errs).2 := by
        intro all errs running
        rw [items, running]
        simp only [Bool.false_eq_true, if_false]
        split
        · rename_i c errs' run
          rw [run]
          rfl
        · rename_i errs' run
          rw [run]
          simp only [next, Option.toList_none, List.append_nil]
      rw [collected, List.zipIdx_cons, List.flatMap_cons]
      exact ((cells node (indexPath path i)).seq (fun c e => items_stops _ path nodes (i + 1) _ e)
        (ih (i + 1) (arr ++ (taken chars element node).toList))).congr
          (fun errs => unfolded true errs rfl) (unfolded false [] rfl)

theorem scalar_path (t : TypeRef) (node : JsonValue) (path : ByteString) :
    (scalar chars t node path).toOption = (scalar chars t node []).toOption := by
  unfold scalar
  cases t <;> cases node <;> simp only <;> repeat' split
  all_goals rfl

theorem record_reports (t : TypeRef) (node : JsonValue) (path : ByteString) :
    Reports (fun _ errs => record errs (scalar chars t node path)) (scalar chars t node []).toOption
      (scalarFaults chars t node path) := by
  rw [← scalar_path t node path, scalarFaults]
  cases scalar chars t node path with
  | ok c => exact Reports.done _
  | error e => exact Reports.fault _ e

theorem cell_reports {t : TypeRef} (wf : t.wf) (node : JsonValue) (path : ByteString) :
    Reports (fun all errs => cell chars all t node path errs) (taken chars t node) (faults chars t node path) := by
  induction t generalizing node path with
  | int | float | text | bool | bytes =>
      simp only [cell, taken, faults]
      exact record_reports _ node path
  | message schema ih =>
      rw [TypeRef.wf_message] at wf
      have declared := (Schema.wf_iff.mp wf).2.2
      rw [taken.eq_def, faults.eq_def]
      simp only [cell]
      cases node with
      | object members =>
          have run := fields_reports wf members path fun f hf => ih f hf (declared f hf)
          exact run.map fun v => some (Cell.message v)
      | _ => exact Reports.fault _ _
  | list element ih =>
      rw [TypeRef.wf_list] at wf
      rw [taken.eq_def, faults.eq_def]
      simp only [cell]
      cases node with
      | array nodes =>
          have run := items_reports (fun node path => ih wf node path) path nodes 0 []
          exact run.map fun arr => some (Cell.list arr)
      | _ => exact Reports.fault _ _

end JsonDecoder
end Zen.Raw

namespace Zen.Proof
open Lib

/-! ## Admission -/

theorem decodeJson_reports (chars : FloatChars) (door : Schema) (members : List (ByteString × JsonValue)) :
    Reports (fun all errs =>
        Raw.JsonDecoder.fields chars all members door.raw (.empty door.raw) [] errs)
      (Raw.JsonDecoder.takenValue chars door.raw members)
      (Raw.JsonDecoder.objectFaults chars door.raw members []) :=
  Raw.JsonDecoder.fields_reports door.wf members [] fun f hf node path =>
    Raw.JsonDecoder.cell_reports ((Raw.Schema.wf_iff.mp door.wf).2.2 f hf) node path

theorem finish_agree {full first : Decoded} {door : Schema} (fatal : full.fatal = false) (fatal' : first.fatal = false)
    (errs : first.errs = full.errs.take 1) (candidate : full.errs = [] → first.candidate = full.candidate) :
    FirstOf (finish full door true) (finish first door false) := by
  unfold finish
  simp only [fatal, fatal', Bool.false_eq_true, if_false, if_true, Bool.not_true, Bool.not_false]
  cases decoded : full.errs with
  | nil =>
      rw [decoded, List.take_nil] at errs
      rw [candidate decoded, errs, Raw.validateInto_first]
      generalize Raw.validateInto full.candidate.raw door.raw true = verrs
      cases verrs with
      | nil => rfl
      | cons e verrs => rfl
  | cons e more =>
      rw [decoded] at errs
      rw [errs]
      rfl

theorem admitLive_agree (v : Value) (door : Schema) : ReportsAgree (admitLive v door) := by
  unfold ReportsAgree admitLive
  simp only [Report.collectAll, Raw.validateInto_first]
  rcases List.eq_nil_or_concat (Raw.validateInto v.raw door.raw true) with none | ⟨errs, e, some⟩
  · simp only [none]
    rfl
  · cases errs <;> simp only [some] <;> rfl

theorem decodeNative_agree (door : Schema) (body : ByteString) :
    FirstOf (finish (decodeNative door true body) door true) (finish (decodeNative door false body) door false) := by
  rw [show decodeNative door false body = decodeNative door true body from rfl]
  cases fatal : (decodeNative door true body).fatal with
  | false =>
      have none : (decodeNative door true body).errs = [] := by
        revert fatal
        unfold decodeNative
        split <;> simp
      exact finish_agree fatal fatal (by rw [none]; rfl) (fun _ => rfl)
  | true =>
      obtain ⟨e, one⟩ : ∃ e, (decodeNative door true body).errs = [e] := by
        revert fatal
        unfold decodeNative
        split <;> simp
      simp only [finish, fatal, if_true, one]
      rfl

theorem decodeJson_agree (chars : FloatChars) (door : Schema) (members : List (ByteString × JsonValue)) :
    FirstOf (finish (decodeJson chars door true members) door true)
      (finish (decodeJson chars door false members) door false) := by
  have run := decodeJson_reports chars door members
  have full : (decodeJson chars door true members).errs = Raw.JsonDecoder.objectFaults chars door.raw members [] :=
    (congrArg Prod.snd (run.full [])).trans (List.nil_append _)
  have value : (decodeJson chars door true members).candidate.raw =
      Raw.JsonDecoder.takenValue chars door.raw members := congrArg Prod.fst (run.full [])
  apply finish_agree rfl rfl
  · rw [full]
    exact run.first
  · intro none
    rw [full] at none
    exact Value.ext ((run.clean none).trans value.symm)

theorem admitAgainst_agree {β : Type} {decode : Schema → Bool → β → Decoded} {claim : Claim β} {door : Schema}
    (decoded : FirstOf (finish (decode door true claim.body) door true)
      (finish (decode door false claim.body) door false)) :
    FirstOf (admitAgainst decode claim door true) (admitAgainst decode claim door false) := by
  unfold admitAgainst
  split
  · rfl
  · split
    · split
      · rfl
      · exact decoded
    · exact decoded

theorem admitUnverified_agree (unverified : Unverified ByteString) (door : Schema) :
    ReportsAgree (admitUnverified unverified door) := by
  cases unverified with
  | error e => rfl
  | ok claim => exact admitAgainst_agree (decodeNative_agree door claim.body)

theorem admitRegistry_agree (unverified : Unverified ByteString) (registry : Registry) :
    ReportsAgree (admitRegistry unverified registry) := by
  cases unverified with
  | error e => rfl
  | ok claim =>
      unfold ReportsAgree admitRegistry
      simp only
      cases registry.lookup claim.name claim.version with
      | none => rfl
      | some door => exact admitAgainst_agree (decodeNative_agree door claim.body)

theorem compat_admitUnverified_agree (chars : FloatChars) (unverified : Unverified (List (ByteString × JsonValue)))
    (door : Schema) : ReportsAgree (Compat.admitUnverified chars unverified door) := by
  cases unverified with
  | error e => rfl
  | ok claim => exact admitAgainst_agree (decodeJson_agree chars door claim.body)

theorem compat_admitRegistry_agree (chars : FloatChars) (unverified : Unverified (List (ByteString × JsonValue)))
    (registry : Registry) : ReportsAgree (Compat.admitRegistry chars unverified registry) := by
  cases unverified with
  | error e => rfl
  | ok claim =>
      unfold ReportsAgree Compat.admitRegistry
      simp only
      cases registry.lookup claim.name claim.version with
      | none => rfl
      | some door => exact admitAgainst_agree (decodeJson_agree chars door claim.body)

theorem fast_report_is_first_of_full :
    (∀ (v : Value) (door : Schema), ReportsAgree (admitLive v door)) ∧
    (∀ (unverified : Unverified ByteString) (door : Schema) (registry : Registry),
      ReportsAgree (admitUnverified unverified door) ∧ ReportsAgree (admitRegistry unverified registry)) ∧
    (∀ (chars : FloatChars) (unverified : Unverified (List (ByteString × JsonValue))) (door : Schema)
      (registry : Registry), ReportsAgree (Compat.admitUnverified chars unverified door) ∧
        ReportsAgree (Compat.admitRegistry chars unverified registry)) :=
  ⟨admitLive_agree, fun unverified door registry =>
    ⟨admitUnverified_agree unverified door, admitRegistry_agree unverified registry⟩,
    fun chars unverified door registry => ⟨compat_admitUnverified_agree chars unverified door,
      compat_admitRegistry_agree chars unverified registry⟩⟩

end Zen.Proof
