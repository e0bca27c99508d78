import Zen.Lib.PrefixCode
import Zen.Proof.Core.Wire

/-!
# The native body code is prefix-free

Words of one type are told apart without any cap: a presence mask has the length that the schema gives
it, a text or list comes after its length, and everything else has a code of its own.
-/

namespace Zen.Raw
open Lib Zen.Proof BinReader

/-- `word` is what the encoder writes for a cell whose nested values claim what is declared. -/
structure Coded (t : TypeRef) (c : Cell) (word : ByteString) : Prop where
  wf : c.wf
  code : cellCode c t = .ok word
  declared : c.ClaimsDeclared t

structure CodedSlots (fields : List Field) (slots : List (Option Cell)) (words : ByteString) : Prop where
  length : slots.length = fields.length
  wf : ∀ c, some c ∈ slots → c.wf
  code : slotsCode fields slots = .ok words
  declared : slotsClaimDeclared fields slots

theorem codedSlots_some {f : Field} {fields : List Field} {c : Cell} {slots : List (Option Cell)} {words : ByteString}
    (h : CodedSlots (f :: fields) (some c :: slots) words) :
    ∃ word tail, Coded f.type c word ∧ CodedSlots fields slots tail ∧ words = word ++ tail := by
  obtain ⟨length, wf, code, declared⟩ := h
  obtain ⟨word, tail, here, later, rfl⟩ := slotsCode_some_ok.mp code
  exact ⟨word, tail, ⟨wf c (by simp), here, declared.1⟩,
    ⟨Nat.succ.inj length, fun c' hc' => wf c' (List.mem_cons_of_mem _ hc'), later, declared.2⟩, rfl⟩

theorem codedSlots_none {f : Field} {fields : List Field} {slots : List (Option Cell)} {words : ByteString}
    (h : CodedSlots (f :: fields) (none :: slots) words) : CodedSlots fields slots words :=
  ⟨Nat.succ.inj h.length, fun c hc => h.wf c (List.mem_cons_of_mem _ hc), h.code, h.declared⟩

theorem coded_int {c : Cell} {word : ByteString} (h : Coded .int c word) : ∃ v, c = .int v ∧ word = putZigzag v := by
  have code := h.code
  cases c <;> cases code
  exact ⟨_, rfl, rfl⟩

theorem coded_float {c : Cell} {word : ByteString} (h : Coded .float c word) : ∃ bits, c = .float bits ∧ word = putF64le bits := by
  have code := h.code
  cases c <;> cases code
  exact ⟨_, rfl, rfl⟩

theorem coded_text {c : Cell} {word : ByteString} (h : Coded .text c word) :
    ∃ s, c = .text s ∧ word = putUvarint s.length ++ s := by
  have code := h.code
  cases c <;> cases code
  exact ⟨_, rfl, rfl⟩

theorem coded_bool {c : Cell} {word : ByteString} (h : Coded .bool c word) :
    ∃ b, c = .bool b ∧ word = putU8 (if b then 1 else 0) := by
  have code := h.code
  cases c <;> cases code
  exact ⟨_, rfl, rfl⟩

theorem coded_bytes {c : Cell} {word : ByteString} (h : Coded .bytes c word) :
    ∃ b, c = .bytes b ∧ word = putUvarint b.length ++ b := by
  have code := h.code
  cases c <;> cases code
  exact ⟨_, rfl, rfl⟩

theorem coded_message {schema : Schema} {c : Cell} {word : ByteString} (h : Coded (.message schema) c word) :
    ∃ v : Value, c = .message v ∧ v.wf ∧ v.schema = schema ∧ v.ClaimsDeclared ∧ bodyCode v = .ok word := by
  obtain ⟨wf, code, declared⟩ := h
  cases c with
  | message v =>
      rw [cellCode_message wf] at code
      exact ⟨v, rfl, wf, declared.1, declared.2, code⟩
  | _ => cases code

theorem coded_list {element : TypeRef} {c : Cell} {word : ByteString} (h : Coded (.list element) c word) :
    ∃ cells words, c = .list cells ∧ Words (Coded element) cells words ∧ word = putUvarint cells.length ++ words := by
  obtain ⟨wf, code, declared⟩ := h
  cases c with
  | list cells =>
      have elements := Cell.wf_list.mp wf
      obtain ⟨words, each, rfl⟩ := (cellCode_list elements).mp code
      have claims := cellsClaimDeclared_iff.mp declared
      have coded := (each.and claims).and elements
      refine ⟨cells, words, rfl, coded.mono ?_, rfl⟩
      rintro c word ⟨aligned, claim, written⟩
      exact ⟨aligned, written, claim⟩
  | _ => cases code

/-! ## Telling words apart -/

theorem octets_told {s t rest rest' : ByteString}
    (same : putUvarint s.length ++ s ++ rest = putUvarint t.length ++ t ++ rest') : s = t ∧ rest = rest' := by
  rw [List.append_assoc, List.append_assoc] at same
  obtain ⟨length, same⟩ := uvarint_unique same
  exact List.append_inj same length

theorem packBits_inj {bits bits' : List Bool} (length : bits.length = bits'.length) (same : packBits bits = packBits bits') :
    bits = bits' := by
  apply List.ext_getElem length
  intro i inside inside'
  have bit := maskBit_packBits bits i
  rw [same, maskBit_packBits] at bit
  simpa [List.getD_eq_getElem?_getD, inside, inside'] using bit.symm

theorem slots_told {fields : List Field} (each : ∀ f ∈ fields, Tells (Coded f.type) Cell.canon)
    {slots slots' : List (Option Cell)} {u v s t : ByteString} (coded : CodedSlots fields slots u)
    (coded' : CodedSlots fields slots' v) (present : slots.map Option.isSome = slots'.map Option.isSome)
    (same : u ++ s = v ++ t) : slots.map (Option.map Cell.canon) = slots'.map (Option.map Cell.canon) ∧ s = t := by
  induction fields generalizing slots slots' u v with
  | nil =>
      obtain rfl := List.eq_nil_of_length_eq_zero coded.length
      obtain rfl := List.eq_nil_of_length_eq_zero coded'.length
      have empty : u = [] := (Except.ok.inj coded.code).symm
      have empty' : v = [] := (Except.ok.inj coded'.code).symm
      subst empty empty'
      exact ⟨rfl, same⟩
  | cons f fields ih =>
      obtain ⟨slot, slots, rfl⟩ := List.exists_cons_of_length_eq_add_one coded.length
      obtain ⟨slot', slots', rfl⟩ := List.exists_cons_of_length_eq_add_one coded'.length
      obtain ⟨here, below⟩ := List.cons.inj present
      have others := fun g hg => each g (List.mem_cons_of_mem f hg)
      cases slot with
      | none =>
          cases slot' with
          | some d => cases here
          | none =>
              obtain ⟨later, rests⟩ := ih others (codedSlots_none coded) (codedSlots_none coded') below same
              exact ⟨by rw [List.map_cons, List.map_cons, later], rests⟩
      | some c =>
          cases slot' with
          | none => cases here
          | some d =>
              obtain ⟨word, tail, first, rest, rfl⟩ := codedSlots_some coded
              obtain ⟨word', tail', first', rest', rfl⟩ := codedSlots_some coded'
              rw [List.append_assoc, List.append_assoc] at same
              obtain ⟨equal, same⟩ := each f (by simp) first first' same
              obtain ⟨later, rests⟩ := ih others rest rest' below same
              refine ⟨?_, rests⟩
              rw [List.map_cons, List.map_cons, later, Option.map_some, Option.map_some, equal]

theorem body_told {v w : Value} (vw : v.wf) (ww : w.wf) (schema : v.schema = w.schema)
    (each : ∀ f ∈ v.schema.fields, Tells (Coded f.type) Cell.canon) (declared : v.ClaimsDeclared) (declared' : w.ClaimsDeclared)
    {x y s t : ByteString} (code : bodyCode v = .ok x) (code' : bodyCode w = .ok y) (same : x ++ s = y ++ t) :
    v.canon = w.canon ∧ s = t := by
  obtain ⟨words, codes, rfl⟩ := bodyCode_ok.mp code
  obtain ⟨words', codes', rfl⟩ := bodyCode_ok.mp code'
  obtain ⟨_, length, cells⟩ := Value.wf_iff.mp vw
  obtain ⟨_, length', cells'⟩ := Value.wf_iff.mp ww
  rw [Value.claimsDeclared_eq] at declared declared'
  rw [← schema] at length' codes' declared'
  rw [List.append_assoc, List.append_assoc] at same
  obtain ⟨masks, same⟩ := List.append_inj same (by simp [length, length'])
  have present := packBits_inj (by simp [length, length']) masks
  obtain ⟨slots, rests⟩ := slots_told each ⟨length, cells, codes, declared⟩ ⟨length', cells', codes', declared'⟩ present same
  refine ⟨?_, rests⟩
  cases v
  cases w
  rw [Value.canon, Value.canon, canonSlots_eq, canonSlots_eq]
  exact congrArg₂ Value.mk schema slots

theorem cell_told (t : TypeRef) : Tells (Coded t) Cell.canon := by
  induction t with
  | int =>
      intro c d u v s t hc hd same
      obtain ⟨m, rfl, rfl⟩ := coded_int hc
      obtain ⟨n, rfl, rfl⟩ := coded_int hd
      have read := zigzag_ok.mpr same
      rw [zigzag_ok.mpr rfl] at read
      cases read
      exact ⟨rfl, rfl⟩
  | float =>
      intro c d u v s t hc hd same
      obtain ⟨m, rfl, rfl⟩ := coded_float hc
      obtain ⟨n, rfl, rfl⟩ := coded_float hd
      have read := u64le_ok.mpr same
      rw [putF64le, u64le_ok.mpr rfl] at read
      obtain ⟨bits, rests⟩ := EStateM.Result.ok.inj read
      exact ⟨congrArg Cell.float bits, rests⟩
  | text =>
      intro c d u v s t hc hd same
      obtain ⟨m, rfl, rfl⟩ := coded_text hc
      obtain ⟨n, rfl, rfl⟩ := coded_text hd
      obtain ⟨rfl, rests⟩ := octets_told same
      exact ⟨rfl, rests⟩
  | bool =>
      intro c d u v s t hc hd same
      obtain ⟨m, rfl, rfl⟩ := coded_bool hc
      obtain ⟨n, rfl, rfl⟩ := coded_bool hd
      obtain ⟨bit, rests⟩ := List.cons.inj same
      have value : m = n := by
        cases m <;> cases n <;> simp at bit ⊢
      exact ⟨congrArg Cell.bool value, rests⟩
  | bytes =>
      intro c d u v s t hc hd same
      obtain ⟨m, rfl, rfl⟩ := coded_bytes hc
      obtain ⟨n, rfl, rfl⟩ := coded_bytes hd
      obtain ⟨rfl, rests⟩ := octets_told same
      exact ⟨rfl, rests⟩
  | message schema ih =>
      intro c d u v s t hc hd same
      obtain ⟨x, rfl, xw, rfl, claims, code⟩ := coded_message hc
      obtain ⟨y, rfl, yw, schema, claims', code'⟩ := coded_message hd
      obtain ⟨equal, rests⟩ := body_told xw yw schema.symm ih claims claims' code code' same
      exact ⟨by rw [Cell.canon, Cell.canon, equal], rests⟩
  | list element ih =>
      intro c d u v s t hc hd same
      obtain ⟨cells, words, rfl, each, rfl⟩ := coded_list hc
      obtain ⟨cells', words', rfl, each', rfl⟩ := coded_list hd
      rw [List.append_assoc, List.append_assoc] at same
      obtain ⟨length, same⟩ := uvarint_unique same
      obtain ⟨equal, rests⟩ := ih.words each each' length same
      exact ⟨by rw [Cell.canon, Cell.canon, canonCells_eq, canonCells_eq, equal], rests⟩

/-! ## Equal trees up to NaN payloads -/

theorem encodeSlots_canon {slots : List (Option Cell)}
    (each : ∀ c, some c ∈ slots → ∀ t out, binEncodeValue c.canon t out = binEncodeValue c t out) (fields : List Field)
    (maskPos i : Nat) (out : ByteString) :
    binEncodeSlots fields maskPos i (canonSlots slots) out = binEncodeSlots fields maskPos i slots out := by
  induction slots generalizing i out with
  | nil => rfl
  | cons slot slots ih =>
      have others := ih fun c hc => each c (List.mem_cons_of_mem slot hc)
      cases slot with
      | none =>
          rw [canonSlots, binEncodeSlots, binEncodeSlots]
          exact others (i + 1) out
      | some c =>
          rw [canonSlots, binEncodeSlots, binEncodeSlots]
          cases fields[i]? with
          | none => rfl
          | some field => simp only [each c (by simp), others]

theorem encodeElements_canon {cells : List Cell}
    (each : ∀ c ∈ cells, ∀ t out, binEncodeValue c.canon t out = binEncodeValue c t out) (element : TypeRef) (out : ByteString) :
    binEncodeElements element (cells.map Cell.canon) out = binEncodeElements element cells out := by
  induction cells generalizing out with
  | nil => rfl
  | cons c cells ih =>
      have others := ih fun c' hc' => each c' (List.mem_cons_of_mem c hc')
      rw [List.map_cons, binEncodeElements, binEncodeElements, each c (by simp)]
      simp only [others]

theorem encodeValue_canon (c : Cell) (t : TypeRef) (out : ByteString) :
    binEncodeValue c.canon t out = binEncodeValue c t out := by
  induction c generalizing t out with
  | int | text | bool | bytes | nullMessage => rfl
  | float bits =>
      cases t with
      | float => simp only [Cell.canon, binEncodeValue, putF64le, canonicalBits_idem]
      | _ => rfl
  | message v ih =>
      obtain ⟨schema, slots⟩ := v
      cases t with
      | message declared =>
          rw [Cell.canon, Value.canon, binEncodeValue, binEncodeValue, binEncodeBody, binEncodeBody]
          exact encodeSlots_canon ih _ _ _ _
      | _ => rfl
  | list cells ih =>
      cases t with
      | list element =>
          rw [Cell.canon, canonCells_eq, binEncodeValue, binEncodeValue, List.length_map]
          exact encodeElements_canon ih element _
      | _ => rfl

theorem encodeBody_canon (v : Value) (out : ByteString) : binEncodeBody v.canon out = binEncodeBody v out := by
  obtain ⟨schema, slots⟩ := v
  rw [Value.canon, binEncodeBody, binEncodeBody]
  exact encodeSlots_canon (fun c _ => encodeValue_canon c) _ _ _ _

/-! ## What the gate accepts -/

theorem accepted_coded {t : TypeRef} {c : Cell} (wf : c.wf) (distinct : NoCollision c.schemas t.schemas) {collectAll : Bool}
    {path : ByteString} (accepted : (validateCell c t { errs := [], collectAll } path).errs = []) : ∃ word, Coded t c word := by
  have conforms := ((validateCell_judged c path rfl).no_errors rfl).mp accepted
  obtain ⟨⟨word, code⟩, declared⟩ := conforms_encodes wf distinct conforms
  exact ⟨word, wf, code, declared⟩

end Zen.Raw

namespace Zen.Proof

theorem serialize_canon {v w : Value} (same : v.raw.canon = w.raw.canon) : serialize v = serialize w := by
  have schema : v.schema = w.schema := by
    apply Schema.ext
    change v.raw.schema = w.raw.schema
    rw [← Raw.Value.canon_schema v.raw, same, Raw.Value.canon_schema]
  unfold serialize
  simp only [schema]
  rw [← Raw.encodeBody_canon v.raw, same, Raw.encodeBody_canon w.raw]

theorem serialize_told {door : Schema} {v w : Value} {report report' : Report}
    (distinct : Raw.NoCollision v.raw.schemas door.raw.schemas) (distinct' : Raw.NoCollision w.raw.schemas door.raw.schemas)
    (accepted : (admitLive v door report).ok) (accepted' : (admitLive w door report').ok) {x : ByteString}
    (written : serialize v = .ok x) (written' : serialize w = .ok x) : v.raw.canon = w.raw.canon := by
  obtain ⟨rfl, _, declared⟩ := live_encodes distinct accepted
  obtain ⟨same, _, declared'⟩ := live_encodes distinct' accepted'
  obtain ⟨_, body, code, rfl⟩ := serialize_ok.mp written
  obtain ⟨_, body', code', bytes⟩ := serialize_ok.mp written'
  rw [same] at bytes
  have schema : v.raw.schema = w.raw.schema := (congrArg Schema.raw same).symm
  exact (Raw.body_told v.wf w.wf schema (fun f _ => Raw.cell_told f.type) declared declared' code code'
    (congrArg (· ++ []) (List.append_cancel_left bytes))).1

theorem serialize_writes {door : Schema} {v : Value} {report : Report}
    (distinct : Raw.NoCollision v.raw.schemas door.raw.schemas) (accepted : (admitLive v door report).ok) :
    (∃ x, serialize v = .ok x) ↔ door.name.length ≤ 0xFFFF := by
  obtain ⟨rfl, ⟨body, code⟩, _⟩ := live_encodes distinct accepted
  constructor
  · rintro ⟨x, written⟩
    have short := (serialize_ok.mp written).1
    omega
  · intro short
    exact ⟨_, serialize_ok.mpr ⟨by omega, body, code, rfl⟩⟩

/-- The code of accepted cells is prefix-free, and `serialize` tells accepted values apart as far as NaN
payloads allow. -/
theorem native_code_unique :
    (∀ (t : Raw.TypeRef) (c d : Raw.Cell) (collectAll collectAll' : Bool) (path path' : ByteString), c.wf → d.wf →
      Raw.NoCollision c.schemas t.schemas → Raw.NoCollision d.schemas t.schemas →
      (Raw.validateCell c t { errs := [], collectAll } path).errs = [] →
      (Raw.validateCell d t { errs := [], collectAll := collectAll' } path').errs = [] →
      ∃ u v, Raw.binEncodeValue c t [] = .ok u ∧ Raw.binEncodeValue d t [] = .ok v ∧
        ∀ s s' : ByteString, u ++ s = v ++ s' → c.canon = d.canon ∧ s = s') ∧
    ∀ (door : Schema) (v w : Value) (report report' : Report), Raw.NoCollision v.raw.schemas door.raw.schemas →
      Raw.NoCollision w.raw.schemas door.raw.schemas → (admitLive v door report).ok → (admitLive w door report').ok →
      ((∃ x, serialize v = .ok x) ↔ door.name.length ≤ 0xFFFF) ∧ ((∃ y, serialize w = .ok y) ↔ door.name.length ≤ 0xFFFF) ∧
        ∀ x y, serialize v = .ok x → serialize w = .ok y → (x = y ↔ v.raw.canon = w.raw.canon) := by
  constructor
  · intro t c d collectAll collectAll' path path' cw dw distinct distinct' accepted accepted'
    obtain ⟨u, coded⟩ := Raw.accepted_coded cw distinct accepted
    obtain ⟨v, coded'⟩ := Raw.accepted_coded dw distinct' accepted'
    exact ⟨u, v, coded.code, coded'.code, fun s s' same => Raw.cell_told t coded coded' same⟩
  · intro door v w report report' distinct distinct' accepted accepted'
    refine ⟨serialize_writes distinct accepted, serialize_writes distinct' accepted', ?_⟩
    intro x y written written'
    constructor
    · rintro rfl
      exact serialize_told distinct distinct' accepted accepted' written written'
    · intro same
      rw [serialize_canon same, written'] at written
      exact (Except.ok.inj written).symm

-- the sample with another NaN
def sampleTwin : Value :=
  ⟨⟨Sample.raw, [some (.int (-3)), some (.float 0xFFF0000000000007),
    some (.list [.text (ascii "a"), .text (ascii "bc")]),
    some (.message ⟨Point.raw, [some (.int 300)]⟩)]⟩, by decide⟩

theorem native_code_unique_sample : ∃ x, serialize sampleValue = .ok x ∧ serialize sampleTwin = .ok x := by
  have twin : Raw.NoCollision sampleTwin.raw.schemas Sample.raw.schemas := sample_distinct
  obtain ⟨first, second, same⟩ := native_code_unique.2 Sample sampleValue sampleTwin .full .full sample_distinct twin
    (by decide +kernel) (by decide +kernel)
  obtain ⟨x, written⟩ := first.mpr (by decide)
  obtain ⟨y, written'⟩ := second.mpr (by decide)
  have equal : x = y := (same x y written written').mpr rfl
  exact ⟨x, written, equal ▸ written'⟩

end Zen.Proof
