import Zen.Proof.Core.Decode

/-!
# Decoding what was encoded

In front of the code of a cell the decoder either reads the cell back, with its NaNs made
canonical, or fails; the caps of `fits` are what decides. The nested values must claim the schemas
their positions declare, since the encoder walks the former and the decoder the latter.
-/

namespace Zen.Raw
open Lib Zen.Proof

namespace BinaryDecoder

theorem orThrow_parses {α : Type} {read : BinReader α} {word : ByteString} {a : α} (e : Error)
    (h : Parses read word a) : Parses (orThrow read e) word a :=
  fun rest => orThrow_ok.mpr (h rest)

theorem uvarint_decides (n : Nat) (e : Error) : Decides (orThrow BinReader.uvarint e) (putUvarint n)
    (n < 2 ^ 64) (UInt64.ofNat n) := by
  constructor
  · intro small
    apply orThrow_parses
    intro rest
    rw [uvarint_ok, UInt64.toNat_ofNat_of_lt' small]
  · intro large rest
    cases read : (orThrow BinReader.uvarint e).run (putUvarint n ++ rest) with
    | error e' left => exact ⟨e', left, rfl⟩
    | ok v left =>
        have same := (uvarint_unique (uvarint_ok.mp (orThrow_ok.mp read))).1
        exact absurd (same ▸ v.toNat_lt) large

theorem octets_decides (path expected s : ByteString) :
    Decides (octets path expected) (putUvarint s.length ++ s) (s.length ≤ kMaxFieldBytes) s := by
  refine Decides.iff (P := s.length < 2 ^ 64 ∧ s.length ≤ kMaxFieldBytes) ?_ ?_
  · have cap : kMaxFieldBytes < 2 ^ 64 := by decide
    constructor
    · exact And.right
    · intro small
      exact ⟨by omega, small⟩
  · refine (uvarint_decides s.length _).bind ?_
    intro small
    have length : (UInt64.ofNat s.length).toNat = s.length := UInt64.toNat_ofNat_of_lt' small
    constructor
    · intro within rest
      simp [EStateM.run, length, within]
    · intro beyond rest
      simp [EStateM.run, length, Nat.lt_of_not_le beyond]

theorem presence_parses {bits : List Bool} {n : Nat} (length : bits.length = n) (base : ByteString) :
    Parses (presence n base) (packBits bits) (packBits bits) := by
  subst length
  have taken : Parses (BinReader.take (maskBytes bits.length)) (packBits bits) (packBits bits) :=
    fun rest => take_ok.mpr ⟨length_packBits bits, rfl⟩
  have clear : paddingSet bits.length (packBits bits) = false := by
    by_cases whole : bits.length % 8 = 0
    · simp [paddingSet, whole]
    · have zero := (and_not_low_eq_zero ((packBits bits).getD (maskBytes bits.length - 1) 0)
        (Nat.le_of_lt (Nat.mod_lt bits.length (by decide)))).mpr ?_
      · simp only [paddingSet, zero]
        simp
      · intro k hk outside
        have bit := maskBit_packBits bits (8 * (maskBytes bits.length - 1) + k)
        have index : (8 * (maskBytes bits.length - 1) + k) / 8 = maskBytes bits.length - 1 := by omega
        have offset : (8 * (maskBytes bits.length - 1) + k) % 8 = k := by omega
        rw [maskBit, index, offset] at bit
        rw [bit, List.getD_eq_getElem?_getD, List.getElem?_eq_none]
        · rfl
        · unfold maskBytes
          omega
  have read := (orThrow_parses ⟨.malformedBytes, base, [], "binary", "truncated presence bitmask"⟩
    taken).bind (v := []) (f := fun mask => if paddingSet bits.length mask then
      fail .malformedBytes base [] "non-zero padding bit in presence bitmask" else return mask)
    (c := packBits bits) (by rw [clear]; exact Parses.pure _)
  rwa [List.append_nil] at read

theorem readSlots_decides {base : ByteString} {depth : Nat} (mask : ByteString) {fields : List Field}
    {slots : List (Option Cell)} (aligned : slots.length = fields.length)
    (each : ∀ c, some c ∈ slots → ∀ t path word, cellCode c t = .ok word → c.ClaimsDeclared t →
      Decides (value t path depth) word (c.fits depth) c.canon)
    {i : Nat} (present : ∀ j, j < slots.length →
      maskBit mask (i + j) = (slots.map Option.isSome).getD j false)
    {words : ByteString} (code : slotsCode fields slots = .ok words)
    (declared : slotsClaimDeclared fields slots) :
    Decides (readSlots base depth mask fields i) words (slotsFit depth slots) (canonSlots slots) := by
  induction slots generalizing fields i words with
  | nil =>
      cases fields with
      | cons f fields => simp at aligned
      | nil =>
          cases code
          rw [readSlots, slotsFit, canonSlots]
          exact (Decides.of_parses (Parses.pure [])).iff (by simp)
  | cons slot slots ih =>
      cases fields with
      | nil => simp at aligned
      | cons f fields =>
          have aligned' : slots.length = fields.length := by simpa using aligned
          have each' := fun c hc => each c (List.mem_cons_of_mem slot hc)
          have here := present 0 (by simp)
          have present' : ∀ j, j < slots.length →
              maskBit mask (i + 1 + j) = (slots.map Option.isSome).getD j false := by
            intro j hj
            have next := present (j + 1) (by simpa using hj)
            rw [show i + 1 + j = i + (j + 1) by omega, next]
            simp
          cases slot with
          | none =>
              have unset : maskBit mask i = false := by simpa using here
              rw [readSlots, unset, slotsFit, canonSlots]
              exact (ih aligned' each' present' code declared).map (none :: ·)
          | some c =>
              have set : maskBit mask i = true := by simpa using here
              obtain ⟨word, tail, codeHere, codeRest, rfl⟩ := slotsCode_some_ok.mp code
              have first := each c (by simp) f.type (fieldPath base f.name) word codeHere declared.1
              have rest := ih aligned' each' present' codeRest declared.2
              rw [readSlots, set, slotsFit, canonSlots]
              exact (first.bind fun _ => rest.map (some c.canon :: ·)).iff (by simp)

theorem within_depth {α : Type} {read : Decoder α} {word : ByteString} {P : Prop} {a : α}
    (path : ByteString) (depth : Nat) (h : Decides read word P a) :
    Decides (if depth > kMaxBinaryDepth then
      fail .malformedBytes path [] "maximum nesting depth exceeded" else read) word
      (depth ≤ kMaxBinaryDepth ∧ P) a :=
  (Decides.guard fun _ => h).iff (by simp)

theorem body_decides {v : Value} (wf : v.wf) (base : ByteString) (depth : Nat)
    (each : ∀ c, some c ∈ v.slots → ∀ t path word, cellCode c t = .ok word → c.ClaimsDeclared t →
      Decides (value t path depth) word (c.fits depth) c.canon)
    {word : ByteString} (code : bodyCode v = .ok word) (declared : v.ClaimsDeclared) :
    Decides (body v.schema (Value.empty v.schema) base depth) word (v.fits depth) v.canon := by
  obtain ⟨schema, slots⟩ := v
  obtain ⟨schemaWf, aligned, _⟩ := Value.wf_iff.mp wf
  obtain ⟨words, slotsOk, rfl⟩ := bodyCode_ok.mp code
  rw [body_eq schemaWf, Value.canon, Value.fits]
  have size : (slots.map Option.isSome).length = schema.fields.length := by simpa using aligned
  have mask := Decides.of_parses (presence_parses size base)
  have read := @readSlots_decides base depth (packBits (slots.map Option.isSome)) _ _ aligned each 0
    (fun j _ => by rw [Nat.zero_add, maskBit_packBits]) words slotsOk declared
  exact (within_depth base depth (mask.bind fun _ => read.map (Value.mk schema ·))).iff (by simp)

theorem value_decides {c : Cell} (wf : c.wf) {t : TypeRef} (path : ByteString) (depth : Nat)
    {word : ByteString} (code : cellCode c t = .ok word) (declared : c.ClaimsDeclared t) :
    Decides (value t path depth) word (c.fits depth) c.canon := by
  induction c generalizing t path depth word with
  | int v =>
      cases t with
      | int =>
          cases code
          simp only [value, Cell.fits, Cell.canon]
          have read : Parses BinReader.zigzag (putZigzag v) v := fun rest => zigzag_ok.mpr rfl
          exact (within_depth path depth
            ((Decides.of_parses (orThrow_parses _ read)).map Cell.int)).iff (by simp)
      | _ => cases code
  | float bits =>
      cases t with
      | float =>
          cases code
          simp only [value, Cell.fits, Cell.canon]
          have read : Parses BinReader.f64le (putF64le bits) (canonicalBits bits) := by
            intro rest
            rw [f64le_ok, putF64le, putF64le, canonicalBits_idem]
            exact ⟨rfl, rfl⟩
          exact (within_depth path depth
            ((Decides.of_parses (orThrow_parses _ read)).map Cell.float)).iff (by simp)
      | _ => cases code
  | text s =>
      cases t with
      | text =>
          cases code
          simp only [value, Cell.fits, Cell.canon]
          rw [List.nil_append, ← List.append_nil (putUvarint s.length ++ s)]
          refine (within_depth path depth ((octets_decides path "Text" s).bind
            (Q := validUtf8 s) fun _ => ?_)).iff (by simp [and_assoc])
          cases validUtf8 s with
          | true => exact (Decides.of_parses (Parses.pure _)).iff (by simp)
          | false => exact ⟨by simp, fun _ => Rejects.throw _ _⟩
      | _ => cases code
  | bool b =>
      cases t with
      | bool =>
          cases code
          simp only [value, Cell.fits, Cell.canon]
          have read : Parses BinReader.u8 (putU8 (if b then 1 else 0)) (if b then 1 else 0) :=
            fun rest => u8_ok.mpr rfl
          rw [← List.append_nil (putU8 _)]
          refine (within_depth path depth (Decides.of_parses
            ((orThrow_parses _ read).bind (v := []) ?_))).iff (by simp)
          cases b <;> exact Parses.pure _
      | _ => cases code
  | bytes b =>
      cases t with
      | bytes =>
          cases code
          simp only [value, Cell.fits, Cell.canon]
          exact (within_depth path depth ((octets_decides path "Bytes" b).map Cell.bytes)).iff (by simp)
      | _ => cases code
  | nullMessage => cases t <;> cases code
  | message v ih =>
      cases t with
      | message schema =>
          have slots := (Value.wf_iff.mp wf).2.2
          rw [cellCode_message wf] at code
          obtain ⟨rfl, declared⟩ := declared
          simp only [value, Cell.fits, Cell.canon]
          have nested := body_decides wf path (depth + 1)
            (fun c hc t path word code declared => ih c hc (slots c hc) path (depth + 1) code declared)
            code declared
          exact (within_depth path depth (nested.map Cell.message)).iff (by simp)
      | _ => cases code
  | list cells ih =>
      cases t with
      | list element =>
          have elements := Cell.wf_list.mp wf
          obtain ⟨words, each, rfl⟩ := (cellCode_list elements).mp code
          have declared := cellsClaimDeclared_iff.mp declared
          simp only [value, Cell.fits, Cell.canon, canonCells_eq]
          have cap : kMaxListCount < 2 ^ 64 := by decide
          refine (within_depth path depth ((uvarint_decides cells.length _).bind
            (Q := cells.length ≤ kMaxListCount ∧ ∀ c ∈ cells, c.fits (depth + 1)) fun small => ?_)).iff ?_
          · have length : (UInt64.ofNat cells.length).toNat = cells.length :=
              UInt64.toNat_ofNat_of_lt' small
            rw [length]
            have decided : ∀ c ∈ cells, ∀ word, cellCode c element = .ok word → ∀ k,
                Decides (value element (indexPath path k) (depth + 1)) word (c.fits (depth + 1)) c.canon :=
              fun c hc _ code k => ih c hc (elements c hc) _ _ code (declared c hc)
            exact (Decides.guard fun _ => (Decides.readEach Cell.canon each decided 0).map Cell.list).iff
              (by simp)
          · simp only [Bool.and_eq_true, decide_eq_true_eq, cellsFit_iff, and_assoc, and_congr_right_iff,
              and_iff_right_iff_imp]
            intro _ within
            omega
      | _ => cases code

end BinaryDecoder
end Zen.Raw
