import Zen.Core.Schema

/-!
# Values

A value claims a schema and holds one slot for each field the schema declares. Doubles are taken
as their 64-bit patterns. A `Value` is a tree whose slots are aligned with the claimed schema at
every depth; a Message cell may still hold a null pointer or a value of some other schema.
-/

namespace Zen
namespace Raw

mutual
inductive Cell where
  | int (v : Int64)
  | float (bits : UInt64)
  | text (s : ByteString)
  | bool (b : Bool)
  | bytes (b : ByteString)
  | message (v : Value)
  | nullMessage
  | list (cells : List Cell)

structure Value where
  schema : Schema
  slots : List (Option Cell)
end

@[induction_eliminator]
theorem Cell.induct {motive : Cell → Prop} (int : ∀ v, motive (.int v))
    (float : ∀ bits, motive (.float bits)) (text : ∀ s, motive (.text s))
    (bool : ∀ b, motive (.bool b)) (bytes : ∀ b, motive (.bytes b))
    (message : ∀ v : Value, (∀ c, some c ∈ v.slots → motive c) → motive (.message v))
    (nullMessage : motive .nullMessage)
    (list : ∀ cells, (∀ c ∈ cells, motive c) → motive (.list cells)) (c : Cell) : motive c := by
  refine @Cell.rec motive (fun v => ∀ c, some c ∈ v.slots → motive c) (fun cs => ∀ c ∈ cs, motive c)
    (fun slots => ∀ c, some c ∈ slots → motive c) (fun slot => ∀ c, slot = some c → motive c)
    int float text bool bytes message nullMessage list ?_ ?_ ?_ ?_ ?_ ?_ ?_ c
  · intro schema slots h
    exact h
  · simp
  · intro c cs hc hcs
    simpa using ⟨hc, hcs⟩
  · simp
  · intro slot slots hslot hslots c hc
    rcases List.mem_cons.mp hc with same | hc
    · exact hslot c same.symm
    · exact hslots c hc
  · simp
  · intro c hc
    simpa using hc

def Cell.kind : Cell → Kind
  | int _ => .int | float _ => .float | text _ => .text | bool _ => .bool | bytes _ => .bytes
  | message _ => .message | nullMessage => .message | list _ => .list

/-! ## Slots by name -/

namespace Schema

def indexOf (s : Schema) (field : ByteString) : Option Nat :=
  s.fields.findIdx? fun f => f.name == field

end Schema

namespace Value

def empty (schema : Schema) : Value := ⟨schema, List.replicate schema.fields.length none⟩

-- `at` in the source
def slotAt (v : Value) (i : Nat) : Option Cell := (v.slots[i]?).join

def get (v : Value) (field : ByteString) : Option Cell := (v.schema.indexOf field).bind v.slotAt

/-- Sets a declared field; `none` where the source throws `std::out_of_range`. -/
def set (v : Value) (field : ByteString) (c : Cell) : Option Value :=
  (v.schema.indexOf field).map fun i => ⟨v.schema, v.slots.set i (some c)⟩

end Value

mutual
def Cell.wf : Cell → Bool
  | .message v => v.wf
  | .list cells => cellsWf cells
  | _ => true

def Value.wf : Value → Bool
  | ⟨schema, slots⟩ => schema.wf && slots.length == schema.fields.length && slotsWf slots

def slotsWf : List (Option Cell) → Bool
  | [] => true
  | none :: slots => slotsWf slots
  | some c :: slots => c.wf && slotsWf slots

def cellsWf : List Cell → Bool
  | [] => true
  | c :: cells => c.wf && cellsWf cells
end

theorem slotsWf_iff {slots : List (Option Cell)} : slotsWf slots ↔ ∀ c, some c ∈ slots → c.wf := by
  induction slots with
  | nil => simp [slotsWf]
  | cons slot slots ih => cases slot <;> simp [slotsWf, ih]

theorem cellsWf_iff {cells : List Cell} : cellsWf cells ↔ ∀ c ∈ cells, c.wf := by
  induction cells with
  | nil => simp [cellsWf]
  | cons c cells ih => simp [cellsWf, ih]

theorem Value.wf_iff {v : Value} : v.wf ↔ v.schema.wf ∧ v.slots.length = v.schema.fields.length ∧
    ∀ c, some c ∈ v.slots → c.wf := by
  obtain ⟨schema, slots⟩ := v
  simp [Value.wf, slotsWf_iff, and_assoc]

@[simp] theorem Cell.wf_message {v : Value} : (Cell.message v).wf = v.wf := by
  rw [Cell.wf]

theorem Cell.wf_list {cells : List Cell} : (Cell.list cells).wf ↔ ∀ c ∈ cells, c.wf := by
  rw [Cell.wf, cellsWf_iff]

theorem Value.empty_wf {schema : Schema} (h : schema.wf) : (Value.empty schema).wf := by
  rw [Value.wf_iff]
  refine ⟨h, by simp [Value.empty], ?_⟩
  intro c hc
  simp [Value.empty, List.mem_replicate] at hc

theorem indexOf_of_split {schema : Schema} (nodup : (schema.fields.map Field.name).Nodup)
    {before after : List Field} {f : Field} (split : schema.fields = before ++ f :: after) :
    schema.indexOf f.name = some before.length := by
  rw [split, List.map_append, List.map_cons] at nodup
  have fresh : ∀ g ∈ before, (g.name == f.name) = false := by
    intro g hg
    have disjoint := (List.nodup_append.mp nodup).2.2 g.name (List.mem_map_of_mem hg) f.name (by simp)
    simpa using disjoint
  rw [Schema.indexOf, split, List.findIdx?_append, List.findIdx?_eq_none_iff.mpr fresh]
  simp [List.findIdx?_cons]

theorem Value.set_wf {v w : Value} {field : ByteString} {c : Cell} (wf : v.wf) (hc : c.wf)
    (h : v.set field c = some w) : w.wf ∧ w.schema = v.schema := by
  obtain ⟨i, _, rfl⟩ := Option.map_eq_some_iff.mp h
  rw [Value.wf_iff] at wf
  refine ⟨Value.wf_iff.mpr ⟨wf.1, by simpa using wf.2.1, ?_⟩, rfl⟩
  intro c' hc'
  rcases List.mem_or_eq_of_mem_set hc' with old | new
  · exact wf.2.2 c' old
  · cases new
    exact hc

end Raw

@[ext] structure Value where
  raw : Raw.Value
  wf : raw.wf

namespace Value

def schema (v : Value) : Schema := ⟨v.raw.schema, (Raw.Value.wf_iff.mp v.wf).1⟩

def get (v : Value) (field : ByteString) : Option Raw.Cell := v.raw.get field

end Value
end Zen
