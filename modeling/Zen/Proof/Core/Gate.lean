import Zen.Spec.Native

/-!
# The validator decides conformance

One judgement either leaves the context as it found it, when the cell conforms, or adds an error.
Judgements in sequence compose, also when the context stops after the first error.
-/

namespace Zen.Raw

structure Judged (P : Prop) (ctx ctx' : Ctx) : Prop where
  clean : P → ctx' = ctx
  grows : ¬ P → ctx.errs.length < ctx'.errs.length

namespace Judged

variable {P Q : Prop} {ctx ctx' ctx'' : Ctx}

theorem length_le (h : Judged P ctx ctx') : ctx.errs.length ≤ ctx'.errs.length := by
  by_cases p : P
  · rw [h.clean p]
  · exact Nat.le_of_lt (h.grows p)

theorem holds (p : P) : Judged P ctx ctx := ⟨fun _ => rfl, fun np => absurd p np⟩

theorem emitted (np : ¬ P) (e : Error) : Judged P ctx (ctx.emit e) :=
  ⟨fun p => absurd p np, fun _ => by simp [Ctx.emit]⟩

theorem iff (same : P ↔ Q) (h : Judged P ctx ctx') : Judged Q ctx ctx' :=
  ⟨fun q => h.clean (same.mpr q), fun nq => h.grows fun p => nq (same.mp p)⟩

theorem seq (running : ctx.stopped = false) (first : Judged P ctx ctx')
    (stops : ctx'.stopped = true → ctx'' = ctx')
    (second : ctx'.stopped = false → Judged Q ctx' ctx'') : Judged (P ∧ Q) ctx ctx'' := by
  constructor
  · rintro ⟨p, q⟩
    have same := first.clean p
    rw [(second (by rw [same, running])).clean q, same]
  · intro both
    by_cases p : P
    · have same := first.clean p
      have later := (second (by rw [same, running])).grows fun q => both ⟨p, q⟩
      rwa [same] at later
    · have earlier := first.grows p
      cases halted : ctx'.stopped with
      | true => rwa [stops halted]
      | false => exact Nat.lt_of_lt_of_le earlier (second halted).length_le

theorem no_errors (h : Judged P ctx ctx') (empty : ctx.errs = []) : ctx'.errs = [] ↔ P := by
  constructor
  · intro none
    by_contra np
    have := h.grows np
    simp [none] at this
  · intro p
    rw [h.clean p, empty]

end Judged

theorem validateFields_stopped {v : Value} {fields : List Field} {ctx : Ctx} {base : ByteString}
    (stopped : ctx.stopped = true) : validateFields v fields ctx base = ctx := by
  cases fields with
  | nil => rw [validateFields]
  | cons f fields =>
      obtain ⟨name, type, required⟩ := f
      rw [validateFields, if_pos stopped]

theorem validatePrimitive_judged (c : Cell) (t : TypeRef) (ctx : Ctx) (path : ByteString) :
    Judged (c.kind = t.kind) ctx (validatePrimitive c t ctx path) := by
  unfold validatePrimitive
  split
  · rename_i different
    exact .emitted different _
  · rename_i same
    exact .holds (Decidable.not_not.mp same)

theorem validateFields_judged {v : Value} {fields : List Field}
    (each : ∀ f ∈ fields, ∀ c ctx path, ctx.stopped = false →
      Judged (Conforms f.type c) ctx (validateCell c f.type ctx path))
    {ctx : Ctx} (base : ByteString) (running : ctx.stopped = false) :
    Judged (FieldsConform fields v) ctx (validateFields v fields ctx base) := by
  induction fields generalizing ctx with
  | nil =>
      rw [validateFields, FieldsConform]
      exact .holds trivial
  | cons f fields ih =>
      obtain ⟨name, type, required⟩ := f
      have others {ctx : Ctx} := @ih (fun g hg => each g (List.mem_cons_of_mem _ hg)) ctx
      rw [validateFields, FieldsConform, if_neg (by simp [running])]
      cases v.get name with
      | some c =>
          have first := each ⟨name, type, required⟩ (by simp) c ctx (fieldPath base name) running
          exact Judged.seq running first validateFields_stopped others
      | none =>
          have present : Judged (required = false) ctx (if required then ctx.emit
              ⟨.missingField, fieldPath base name, type.label, "absent", []⟩ else ctx) := by
            cases required with
            | true => exact .emitted (by simp) _
            | false => exact .holds rfl
          exact Judged.seq running present validateFields_stopped others

theorem validateElements_judged {element : TypeRef}
    (each : ∀ c ctx path, ctx.stopped = false →
      Judged (Conforms element c) ctx (validateCell c element ctx path))
    (path : ByteString) {cells : List Cell} (k : Nat) {ctx : Ctx} (running : ctx.stopped = false) :
    Judged (∀ c ∈ cells, Conforms element c) ctx ((cells.zipIdx k).foldl (fun ctx x =>
      if ctx.stopped then ctx else validateCell x.1 element ctx (indexPath path x.2)) ctx) := by
  induction cells generalizing k ctx with
  | nil => exact .holds (by simp)
  | cons c cells ih =>
      rw [List.zipIdx_cons, List.foldl_cons, if_neg (by simp [running])]
      refine (Judged.seq running (each c ctx _ running) ?_ (ih (k + 1))).iff (by simp)
      intro stopped
      generalize validateCell c element ctx (indexPath path (c, k).2) = ctx' at stopped
      generalize cells.zipIdx (k + 1) = rest
      induction rest with
      | nil => rfl
      | cons x rest skip => rw [List.foldl_cons, if_pos stopped, skip]

theorem validateCell_judged {t : TypeRef} (c : Cell) {ctx : Ctx} (path : ByteString)
    (running : ctx.stopped = false) : Judged (Conforms t c) ctx (validateCell c t ctx path) := by
  induction t generalizing c ctx path with
  | int | float | text | bool | bytes =>
      rw [validateCell, if_neg (by simp [running]), Conforms]
      refine Judged.iff ?_ (validatePrimitive_judged c _ ctx path)
      rfl
  | message schema ih =>
      rw [validateCell, if_neg (by simp [running]), Conforms]
      cases c with
      | message nested =>
          obtain ⟨name, version, fields⟩ := schema
          simp only [Cell.message.injEq, exists_eq_left', ValueConforms, validateValue]
          split
          · rename_i different
            exact .emitted (fun both => different both.1) _
          · rename_i same
            refine Judged.iff (by simp [Decidable.not_not.mp same])
              (validateFields_judged (fun f hf c ctx path => ih f hf c path) path running)
      | _ => exact .emitted (by simp) _
  | list element ih =>
      rw [Conforms]
      cases c with
      | list cells =>
          simp only [Cell.list.injEq, exists_eq_left', validateCell]
          rw [if_neg (by simp [running])]
          exact validateElements_judged (fun c ctx path => ih c path) path 0 running
      | _ =>
          rw [validateCell, if_neg (by simp [running])]
          · exact .emitted (by simp) _
          · simp

theorem validateValue_judged (schema : Schema) (v : Value) {ctx : Ctx} (base : ByteString)
    (running : ctx.stopped = false) :
    Judged (ValueConforms schema v) ctx (validateValue v schema ctx base) := by
  obtain ⟨name, version, fields⟩ := schema
  rw [validateValue, ValueConforms]
  exact validateFields_judged (fun f _ c ctx path => validateCell_judged c path) base running

theorem validateInto_eq_nil {claimant : Value} {door : Schema} {collectAll : Bool} :
    validateInto claimant door collectAll = [] ↔
      claimant.schema.contentId = door.contentId ∧ ValueConforms door claimant := by
  unfold validateInto
  split
  · rename_i different
    simp [different]
  · rename_i same
    rw [(validateValue_judged door claimant [] rfl).no_errors rfl]
    simp [Decidable.not_not.mp same]

end Zen.Raw
