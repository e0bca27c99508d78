import Zen.Core.Serialize

/-!
# What the gate and the wire promise

`Conforms` is the meaning of the validator. The rest says what a trip over the wire can change or
refuse: NaN payloads (`canon`), sizes, texts and depths the decoder caps (`fits`), and whether each
nested value claims the very schema its position declares (`ClaimsDeclared`).
-/

namespace Zen.Raw

mutual
def Conforms : TypeRef → Cell → Prop
  | .message schema, c => ∃ nested, c = .message nested ∧
      nested.schema.contentId = schema.contentId ∧ ValueConforms schema nested
  | .list element, c => ∃ cells, c = .list cells ∧ ∀ c ∈ cells, Conforms element c
  | .int, c => c.kind = .int
  | .float, c => c.kind = .float
  | .text, c => c.kind = .text
  | .bool, c => c.kind = .bool
  | .bytes, c => c.kind = .bytes

def ValueConforms : Schema → Value → Prop
  | ⟨_, _, fields⟩, v => FieldsConform fields v

def FieldsConform : List Field → Value → Prop
  | [], _ => True
  | ⟨name, type, required⟩ :: fields, v =>
      (match v.get name with
      | none => required = false
      | some c => Conforms type c) ∧ FieldsConform fields v
end

mutual
def Cell.canon : Cell → Cell
  | .float bits => .float (canonicalBits bits)
  | .message v => .message v.canon
  | .list cells => .list (canonCells cells)
  | c => c

def Value.canon : Value → Value
  | ⟨schema, slots⟩ => ⟨schema, canonSlots slots⟩

def canonSlots : List (Option Cell) → List (Option Cell)
  | [] => []
  | none :: slots => none :: canonSlots slots
  | some c :: slots => some c.canon :: canonSlots slots

def canonCells : List Cell → List Cell
  | [] => []
  | c :: cells => c.canon :: canonCells cells
end

mutual
def Cell.fits (depth : Nat) : Cell → Bool
  | .text s => depth ≤ kMaxBinaryDepth && s.length ≤ kMaxFieldBytes && validUtf8 s
  | .bytes b => depth ≤ kMaxBinaryDepth && b.length ≤ kMaxFieldBytes
  | .message v => depth ≤ kMaxBinaryDepth && v.fits (depth + 1)
  | .list cells => depth ≤ kMaxBinaryDepth && cells.length ≤ kMaxListCount && cellsFit (depth + 1) cells
  | _ => depth ≤ kMaxBinaryDepth

def Value.fits (depth : Nat) : Value → Bool
  | ⟨_, slots⟩ => depth ≤ kMaxBinaryDepth && slotsFit depth slots

def slotsFit (depth : Nat) : List (Option Cell) → Bool
  | [] => true
  | none :: slots => slotsFit depth slots
  | some c :: slots => c.fits depth && slotsFit depth slots

def cellsFit (depth : Nat) : List Cell → Bool
  | [] => true
  | c :: cells => c.fits depth && cellsFit depth cells
end

mutual
def Cell.ClaimsDeclared : Cell → TypeRef → Prop
  | .message v, .message schema => v.schema = schema ∧ v.ClaimsDeclared
  | .list cells, .list element => cellsClaimDeclared element cells
  | _, _ => True

def Value.ClaimsDeclared : Value → Prop
  | ⟨schema, slots⟩ => slotsClaimDeclared schema.fields slots

def slotsClaimDeclared : List Field → List (Option Cell) → Prop
  | f :: fields, some c :: slots => c.ClaimsDeclared f.type ∧ slotsClaimDeclared fields slots
  | _ :: fields, none :: slots => slotsClaimDeclared fields slots
  | _, _ => True

def cellsClaimDeclared (element : TypeRef) : List Cell → Prop
  | [] => True
  | c :: cells => c.ClaimsDeclared element ∧ cellsClaimDeclared element cells
end

mutual
def TypeRef.schemas : TypeRef → List Schema
  | .message schema => schema.schemas
  | .list element => element.schemas
  | _ => []

def Schema.schemas : Schema → List Schema
  | ⟨name, version, fields⟩ => ⟨name, version, fields⟩ :: fieldSchemas fields

def fieldSchemas : List Field → List Schema
  | [] => []
  | ⟨_, type, _⟩ :: fields => type.schemas ++ fieldSchemas fields
end

mutual
def Cell.schemas : Cell → List Schema
  | .message v => v.schemas
  | .list cells => cellSchemas cells
  | _ => []

def Value.schemas : Value → List Schema
  | ⟨schema, slots⟩ => schema :: slotSchemas slots

def slotSchemas : List (Option Cell) → List Schema
  | [] => []
  | none :: slots => slotSchemas slots
  | some c :: slots => c.schemas ++ slotSchemas slots

def cellSchemas : List Cell → List Schema
  | [] => []
  | c :: cells => c.schemas ++ cellSchemas cells
end

/-- No schema that `claimed` names shares its content id with a different one of `declared`. -/
def NoCollision (claimed declared : List Schema) : Prop :=
  ∀ s ∈ claimed, ∀ s' ∈ declared, s.contentId = s'.contentId → s = s'

theorem Value.claimsDeclared_eq (v : Value) :
    v.ClaimsDeclared = slotsClaimDeclared v.schema.fields v.slots := by
  cases v
  rfl

theorem Value.schemas_eq (v : Value) : v.schemas = v.schema :: slotSchemas v.slots := by
  cases v
  rfl

theorem Schema.schemas_eq (s : Schema) : s.schemas = s :: fieldSchemas s.fields := by
  cases s
  rfl

theorem canonCells_eq (cells : List Cell) : canonCells cells = cells.map Cell.canon := by
  induction cells with
  | nil => rfl
  | cons c cells ih => rw [canonCells, ih, List.map_cons]

theorem canonSlots_eq (slots : List (Option Cell)) :
    canonSlots slots = slots.map (Option.map Cell.canon) := by
  induction slots with
  | nil => rfl
  | cons slot slots ih => cases slot <;> simp [canonSlots, ih]

theorem cellsFit_iff {depth : Nat} {cells : List Cell} :
    cellsFit depth cells ↔ ∀ c ∈ cells, c.fits depth := by
  induction cells with
  | nil => simp [cellsFit]
  | cons c cells ih => simp [cellsFit, ih]

theorem cellsClaimDeclared_iff {element : TypeRef} {cells : List Cell} :
    cellsClaimDeclared element cells ↔ ∀ c ∈ cells, c.ClaimsDeclared element := by
  induction cells with
  | nil => simp [cellsClaimDeclared]
  | cons c cells ih => simp [cellsClaimDeclared, ih]

end Zen.Raw
