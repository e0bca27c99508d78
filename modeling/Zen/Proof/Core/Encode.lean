import Zen.Core.Serialize
import Zen.Proof.Core.Binary

/-!
# What the encoder writes

The encoder appends to its output and sets mask bits behind itself. What it appends does not
depend on what is already there, so each cell has a code, and a body is its presence mask
followed by the codes of the slots that are set.
-/

namespace Zen.Raw
open Lib Zen.Proof

def cellCode (c : Cell) (t : TypeRef) : Except Exn ByteString := binEncodeValue c t []

def slotsCode : List Field → List (Option Cell) → Except Exn ByteString
  | f :: fields, some c :: slots => do
      let word ← cellCode c f.type
      let words ← slotsCode fields slots
      return word ++ words
  | _ :: fields, none :: slots => slotsCode fields slots
  | _, _ => .ok []

def bodyCode (v : Value) : Except Exn ByteString :=
  (slotsCode v.schema.fields v.slots).map (packBits (v.slots.map Option.isSome) ++ ·)

def Appends (encode : ByteString → Except Exn ByteString) : Prop :=
  ∀ out, encode out = (encode []).map (out ++ ·)

theorem modify_after (out tail : ByteString) {mask : ByteString} {i : Nat} (hi : i < mask.length)
    (f : UInt8 → UInt8) :
    (out ++ mask ++ tail).modify (out.length + i) f = out ++ mask.modify i f ++ tail := by
  apply List.ext_getElem?
  intro j
  simp only [List.getElem?_modify, List.getElem?_append, List.length_append, List.length_modify]
  by_cases before : j < out.length
  · simp [before, Nat.lt_add_right, show out.length + i ≠ j by omega]
  · by_cases inside : j < out.length + mask.length
    · simp only [before, inside, ↓reduceIte]
      by_cases here : out.length + i = j
      · subst here
        simp
      · simp [here, show i ≠ j - out.length by omega]
    · simp [inside, show out.length + i ≠ j by omega]

theorem binEncodeSlots_eq {fields : List Field} {slots : List (Option Cell)}
    (appends : ∀ c, some c ∈ slots → ∀ t, Appends (binEncodeValue c t)) (i : Nat)
    (declared : i + slots.length ≤ fields.length) (out mask tail : ByteString)
    (room : i + slots.length ≤ 8 * mask.length) :
    binEncodeSlots fields out.length i slots (out ++ mask ++ tail) =
      (slotsCode (fields.drop i) slots).map fun words =>
        out ++ markBits mask i (slots.map Option.isSome) ++ (tail ++ words) := by
  induction slots generalizing i mask tail with
  | nil =>
      rw [binEncodeSlots]
      cases fields.drop i <;> simp [slotsCode, Except.map, markBits]
  | cons slot slots ih =>
      have others : ∀ c, some c ∈ slots → ∀ t, Appends (binEncodeValue c t) :=
        fun c hc => appends c (List.mem_cons_of_mem slot hc)
      rw [List.length_cons] at declared room
      have next : fields.drop i = fields[i] :: fields.drop (i + 1) :=
        List.drop_eq_getElem_cons (by omega)
      cases slot with
      | none =>
          rw [binEncodeSlots, ih others (i + 1) (by omega) mask tail (by omega), next]
          simp [slotsCode, markBits]
      | some c =>
          have field : fields[i]? = some fields[i] := List.getElem?_eq_getElem (by omega)
          have inside : i / 8 < mask.length := by omega
          have patched := modify_after out tail inside
            (fun b => UInt8.ofNat (b.toNat ||| (1 <<< (i % 8))))
          rw [binEncodeSlots, field, next, patched]
          simp only [slotsCode, List.map_cons, Option.isSome_some, markBits, ↓reduceIte]
          rw [appends c (by simp) fields[i].type, cellCode]
          cases binEncodeValue c fields[i].type [] with
          | error e => rfl
          | ok word =>
              have rest := ih others (i + 1) (by omega) (setMaskBit mask i) (tail ++ word)
                (by rw [length_setMaskBit]; omega)
              rw [← List.append_assoc] at rest
              refine rest.trans ?_
              cases slotsCode (fields.drop (i + 1)) slots with
              | error e => rfl
              | ok words => simp [Except.map, bind, Except.bind, pure, Except.pure, setMaskBit]

theorem binEncodeBody_eq {v : Value} (wf : v.wf)
    (appends : ∀ c, some c ∈ v.slots → ∀ t, Appends (binEncodeValue c t)) (out : ByteString) :
    binEncodeBody v out = (bodyCode v).map (out ++ ·) := by
  obtain ⟨schema, slots⟩ := v
  obtain ⟨_, length, _⟩ := Value.wf_iff.mp wf
  have mask : packBits (slots.map Option.isSome) =
      markBits (List.replicate (maskBytes schema.fields.length) 0) 0 (slots.map Option.isSome) := by
    simp [packBits, maskBytes, length]
  have declared : 0 + slots.length ≤ schema.fields.length := by rw [length, Nat.zero_add]
  have slotsEq := binEncodeSlots_eq appends 0 declared out
    (List.replicate (maskBytes schema.fields.length) 0) [] (by simp [length, maskBytes]; omega)
  rw [List.append_nil, List.drop_zero] at slotsEq
  rw [binEncodeBody, slotsEq, bodyCode, mask]
  cases slotsCode schema.fields slots <;> simp [Except.map]

theorem binEncodeElements_eq {element : TypeRef} {cells : List Cell}
    (appends : ∀ c ∈ cells, Appends (binEncodeValue c element)) (out : ByteString) :
    binEncodeElements element cells out = (binEncodeElements element cells []).map (out ++ ·) := by
  induction cells generalizing out with
  | nil => simp [binEncodeElements, Except.map]
  | cons c cells ih =>
      have others := fun c' hc' => appends c' (List.mem_cons_of_mem c hc')
      rw [binEncodeElements, binEncodeElements, appends c (by simp) out]
      cases binEncodeValue c element [] with
      | error e => rfl
      | ok word =>
          change binEncodeElements element cells (out ++ word) =
            (binEncodeElements element cells word).map (out ++ ·)
          rw [ih others (out ++ word), ih others word]
          cases binEncodeElements element cells [] with
          | error e => rfl
          | ok words => simp [Except.map]

theorem binEncodeValue_appends {c : Cell} (wf : c.wf) (t : TypeRef) : Appends (binEncodeValue c t) := by
  induction c generalizing t with
  | int | float | text | bool | bytes | nullMessage =>
      intro out
      cases t <;> simp [binEncodeValue, Except.map, binRequireKind, Cell.kind, TypeRef.kind, bind, Except.bind]
  | message v ih =>
      intro out
      have slots := (Value.wf_iff.mp wf).2.2
      have body := binEncodeBody_eq wf (fun c hc t => ih c hc (slots c hc) t)
      cases t with
      | message schema =>
          rw [binEncodeValue, binEncodeValue, body, body []]
          cases bodyCode v <;> simp [Except.map]
      | _ => simp [binEncodeValue, Except.map, binRequireKind, Cell.kind, TypeRef.kind, bind, Except.bind]
  | list cells ih =>
      intro out
      have elements := Cell.wf_list.mp wf
      cases t with
      | list element =>
          have each : ∀ c ∈ cells, Appends (binEncodeValue c element) :=
            fun c hc => ih c hc (elements c hc) element
          rw [binEncodeValue, binEncodeValue, binEncodeElements_eq each,
            binEncodeElements_eq each ([] ++ putUvarint cells.length)]
          cases binEncodeElements element cells [] <;> simp [Except.map]
      | _ => simp [binEncodeValue, Except.map, binRequireKind, Cell.kind, TypeRef.kind, bind, Except.bind]

/-! ## Codes by type -/

theorem cellCode_message {v : Value} (wf : v.wf) (schema : Schema) :
    cellCode (.message v) (.message schema) = bodyCode v := by
  rw [cellCode, binEncodeValue, binEncodeBody_eq wf]
  · cases bodyCode v <;> simp [Except.map]
  · intro c hc t
    exact binEncodeValue_appends ((Value.wf_iff.mp wf).2.2 c hc) t

theorem elements_ok {element : TypeRef} {cells : List Cell} (wf : ∀ c ∈ cells, c.wf)
    {words : ByteString} : binEncodeElements element cells [] = .ok words ↔
      Words (fun c word => cellCode c element = .ok word) cells words := by
  induction cells generalizing words with
  | nil =>
      rw [binEncodeElements, Except.ok.injEq]
      constructor
      · rintro rfl
        exact .nil
      · intro h
        cases h
        rfl
  | cons c cells ih =>
      have others : ∀ c' ∈ cells, c'.wf := fun c' hc' => wf c' (List.mem_cons_of_mem c hc')
      have appends : ∀ c' ∈ cells, Appends (binEncodeValue c' element) :=
        fun c' hc' => binEncodeValue_appends (others c' hc') element
      rw [binEncodeElements]
      constructor
      · intro h
        cases first : binEncodeValue c element [] with
        | error e =>
            rw [first] at h
            cases h
        | ok word =>
            rw [first] at h
            change binEncodeElements element cells word = .ok words at h
            rw [binEncodeElements_eq appends word] at h
            cases rest : binEncodeElements element cells [] with
            | error e =>
                rw [rest] at h
                cases h
            | ok tail =>
                rw [rest] at h
                cases h
                exact .cons first ((ih others).mp rest)
      · rintro (_ | ⟨first, rest⟩)
        rename_i word tail
        rw [show binEncodeValue c element [] = .ok word from first]
        change binEncodeElements element cells word = _
        rw [binEncodeElements_eq appends word, (ih others).mpr rest]
        rfl

theorem cellCode_list {cells : List Cell} (wf : ∀ c ∈ cells, c.wf) {element : TypeRef}
    {word : ByteString} : cellCode (.list cells) (.list element) = .ok word ↔
      ∃ words, Words (fun c word => cellCode c element = .ok word) cells words ∧
        word = putUvarint cells.length ++ words := by
  rw [cellCode, binEncodeValue, binEncodeElements_eq
    (fun c hc => binEncodeValue_appends (wf c hc) element)]
  constructor
  · intro h
    cases rest : binEncodeElements element cells [] with
    | error e =>
        rw [rest] at h
        cases h
    | ok words =>
        rw [rest] at h
        cases h
        exact ⟨words, (elements_ok wf).mp rest, rfl⟩
  · rintro ⟨words, h, rfl⟩
    rw [(elements_ok wf).mpr h]
    rfl

theorem bodyCode_ok {v : Value} {word : ByteString} : bodyCode v = .ok word ↔
    ∃ words, slotsCode v.schema.fields v.slots = .ok words ∧
      word = packBits (v.slots.map Option.isSome) ++ words := by
  rw [bodyCode]
  cases slotsCode v.schema.fields v.slots with
  | error e => simp [Except.map]
  | ok words => simp [Except.map, eq_comm]

theorem slotsCode_some_ok {f : Field} {fields : List Field} {c : Cell} {slots : List (Option Cell)}
    {words : ByteString} : slotsCode (f :: fields) (some c :: slots) = .ok words ↔
      ∃ word tail, cellCode c f.type = .ok word ∧ slotsCode fields slots = .ok tail ∧
        words = word ++ tail := by
  rw [slotsCode]
  cases cellCode c f.type with
  | error e => simp [bind, Except.bind]
  | ok word =>
      cases slotsCode fields slots with
      | error e => simp [bind, Except.bind]
      | ok tail => simp [bind, Except.bind, pure, Except.pure, eq_comm]

end Zen.Raw
