import Zen.Proof.Core.Unique

/-!
# Values up to the payloads of their NaNs

No verdict of the gate and no byte of the wire depends on the payload of a NaN, so a value can stand
for its canonical form wherever only these are asked.
-/

namespace Zen

/-! ## The gate -/

namespace Raw

theorem validatePrimitive_canon (c : Cell) (t : TypeRef) (ctx : Ctx) (path : ByteString) :
    validatePrimitive c.canon t ctx path = validatePrimitive c t ctx path := by
  rw [validatePrimitive, validatePrimitive, Cell.canon_kind]

theorem validateFields_canon (v : Value) {fields : List Field}
    (each : ∀ f ∈ fields, ∀ c ctx path, validateCell (Cell.canon c) f.type ctx path = validateCell c f.type ctx path)
    (ctx : Ctx) (base : ByteString) : validateFields v.canon fields ctx base = validateFields v fields ctx base := by
  induction fields generalizing ctx with
  | nil => rw [validateFields, validateFields]
  | cons f fields ih =>
      have others := ih fun g hg => each g (List.mem_cons_of_mem f hg)
      have here := each f (by simp)
      obtain ⟨name, type, required⟩ := f
      rw [validateFields, validateFields, Value.get_canon]
      split
      · rfl
      · cases v.get name with
        | none => exact others _
        | some c =>
            simp only [Option.map_some, here, others]

theorem validateElements_canon {element : TypeRef}
    (each : ∀ c ctx path, validateCell (Cell.canon c) element ctx path = validateCell c element ctx path)
    (path : ByteString) (cells : List Cell) (k : Nat) (ctx : Ctx) :
    ((cells.map Cell.canon).zipIdx k).foldl (fun ctx x =>
        if ctx.stopped then ctx else validateCell x.1 element ctx (indexPath path x.2)) ctx =
      (cells.zipIdx k).foldl (fun ctx x =>
        if ctx.stopped then ctx else validateCell x.1 element ctx (indexPath path x.2)) ctx := by
  induction cells generalizing k ctx with
  | nil => rfl
  | cons c cells ih => rw [List.map_cons, List.zipIdx_cons, List.zipIdx_cons, List.foldl_cons, List.foldl_cons, each, ih]

theorem validateCell_canon {t : TypeRef} (c : Cell) (ctx : Ctx) (path : ByteString) :
    validateCell c.canon t ctx path = validateCell c t ctx path := by
  induction t generalizing c ctx path with
  | int | float | text | bool | bytes => rw [validateCell, validateCell, validatePrimitive_canon]
  | message schema ih =>
      rw [validateCell, validateCell]
      cases c with
      | message nested =>
          obtain ⟨name, version, fields⟩ := schema
          simp only [Cell.canon, Value.canon_schema, validateValue, validateFields_canon nested ih]
      | _ => rfl
  | list element ih =>
      cases c with
      | list cells =>
          simp only [Cell.canon, canonCells_eq, validateCell, validateElements_canon ih]
      | _ => rfl

theorem validateInto_canon (v : Value) (door : Schema) (collectAll : Bool) :
    validateInto v.canon door collectAll = validateInto v door collectAll := by
  obtain ⟨name, version, fields⟩ := door
  simp only [validateInto, Value.canon_schema, validateValue,
    validateFields_canon v fun _ _ c => validateCell_canon c]

theorem Cell.canon_canon (c : Cell) : c.canon.canon = c.canon := by
  induction c with
  | int | text | bool | bytes | nullMessage => rfl
  | float bits => rw [Cell.canon, Cell.canon, Proof.canonicalBits_idem]
  | message v ih =>
      obtain ⟨schema, slots⟩ := v
      simp only [Cell.canon, Value.canon, canonSlots_eq, List.map_map, Cell.message.injEq, Value.mk.injEq, true_and]
      apply List.map_congr_left
      intro slot hslot
      cases slot with
      | none => rfl
      | some c => exact congrArg some (ih c hslot)
  | list cells ih =>
      simp only [Cell.canon, canonCells_eq, List.map_map, Cell.list.injEq]
      exact List.map_congr_left ih

theorem Value.canon_canon (v : Value) : v.canon.canon = v.canon :=
  Cell.message.inj (Cell.canon_canon (.message v))

end Raw

def Value.canon (v : Value) : Value := ⟨v.raw.canon, Raw.Value.canon_wf v.wf⟩

@[simp] theorem Value.schema_canon (v : Value) : v.canon.schema = v.schema := by
  apply Schema.ext
  exact Raw.Value.canon_schema v.raw

theorem Value.get_canon (v : Value) (field : ByteString) : v.canon.get field = (v.get field).map Raw.Cell.canon :=
  Raw.Value.get_canon v.raw field

/-- The same value, but for the payloads of NaNs. -/
def Value.Alike (v w : Value) : Prop := v.canon = w.canon

theorem Value.Alike.raw {v w : Value} (h : v.Alike w) : v.raw.canon = w.raw.canon := congrArg Value.raw h

theorem Value.Alike.schema {v w : Value} (h : v.Alike w) : v.schema = w.schema := by
  rw [← v.schema_canon, ← w.schema_canon]
  exact congrArg Value.schema h

theorem Value.Alike.symm {v w : Value} (h : v.Alike w) : w.Alike v := Eq.symm h

theorem Value.Alike.trans {u v w : Value} (h : u.Alike v) (h' : v.Alike w) : u.Alike w := Eq.trans h h'

@[simp] theorem Value.canon_canon (v : Value) : v.canon.canon = v.canon := Value.ext (Raw.Value.canon_canon v.raw)

theorem Value.Alike.trans_canon {v w : Value} (h : v.Alike w) : v.Alike w.canon := by
  rw [Value.Alike, show v.canon = w.canon from h, Value.canon_canon]

def Admission.canon : Admission → Admission
  | accept v => accept v.canon
  | reject errors => reject errors

@[simp] theorem Admission.ok_canon (a : Admission) : a.canon.ok = a.ok := by
  cases a <;> rfl

theorem admitLive_canon (v : Value) (door : Schema) (report : Report) :
    admitLive v.canon door report = (admitLive v door report).canon := by
  unfold admitLive
  rw [show Raw.validateInto v.canon.raw door.raw report.collectAll = _ from Raw.validateInto_canon ..]
  simp only
  split <;> rfl

end Zen
