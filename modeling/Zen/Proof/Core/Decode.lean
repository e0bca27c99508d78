import Zen.Proof.Core.Encode
import Zen.Spec.Native

/-!
# What the decoder accepts

The decoder sets slots on a value by name; since the fields come in the order of the schema, that
is the same as collecting the slots in a list. Every input it accepts starts with the code of the
value it gives back.
-/

namespace Zen.Raw
open Lib Zen.Proof

/-! ## Setting slots in order -/

theorem set_next {schema : Schema} (nodup : (schema.fields.map Field.name).Nodup)
    {before after : List Field} {f : Field} (split : schema.fields = before ++ f :: after)
    {done : List (Option Cell)} (aligned : done.length = before.length) (c : Cell) (n : Nat) :
    (Value.mk schema (done ++ List.replicate (n + 1) none)).set f.name c =
      some ⟨schema, (done ++ [some c]) ++ List.replicate n none⟩ := by
  rw [Value.set, indexOf_of_split nodup split, Option.map_some, ← aligned]
  simp [List.replicate_succ]

namespace BinaryDecoder

def readSlots (base : ByteString) (depth : Nat) (mask : ByteString) :
    List Field → (i : Nat) → Decoder (List (Option Cell))
  | [], _ => return []
  | f :: fields, i =>
      if maskBit mask i then do
        let c ← value f.type (fieldPath base f.name) depth
        let slots ← readSlots base depth mask fields (i + 1)
        return some c :: slots
      else do
        let slots ← readSlots base depth mask fields (i + 1)
        return none :: slots

theorem bodyFields_eq {schema : Schema} (nodup : (schema.fields.map Field.name).Nodup)
    {before fields : List Field} (split : schema.fields = before ++ fields)
    (done : List (Option Cell)) (aligned : done.length = before.length)
    (mask base : ByteString) (depth : Nat) :
    bodyFields fields mask before.length ⟨schema, done ++ List.replicate fields.length none⟩ base depth =
      (do
        let slots ← readSlots base depth mask fields before.length
        return ⟨schema, done ++ slots⟩) := by
  induction fields generalizing before done with
  | nil => simp [bodyFields, readSlots]
  | cons f fields ih =>
      have split' : schema.fields = (before ++ [f]) ++ fields := by simp [split]
      obtain ⟨name, type, required⟩ := f
      rw [bodyFields, readSlots, List.length_cons]
      split
      · rw [bind_assoc]
        congr 1
        funext c
        rw [set_next nodup split aligned, Option.getD_some]
        have rest := ih split' (done ++ [some c]) (by simp [aligned])
        rw [List.length_append] at rest
        refine rest.trans ?_
        simp
      · have rest := ih split' (done ++ [none]) (by simp [aligned])
        rw [List.length_append, List.append_assoc] at rest
        refine Eq.trans ?_ (rest.trans ?_)
        · simp [List.replicate_succ]
        · simp

theorem body_eq {schema : Schema} (wf : schema.wf) (base : ByteString) (depth : Nat) :
    body schema (Value.empty schema) base depth =
      if depth > kMaxBinaryDepth then fail .malformedBytes base [] "maximum nesting depth exceeded"
      else do
        let mask ← presence schema.fields.length base
        let slots ← readSlots base depth mask schema.fields 0
        return ⟨schema, slots⟩ := by
  have nodup := (Schema.wf_iff.mp wf).2.1
  obtain ⟨name, version, fields⟩ := schema
  rw [body]
  split
  · rfl
  · congr 1
    funext mask
    exact @bodyFields_eq ⟨name, version, fields⟩ nodup [] fields rfl [] rfl mask base depth

/-! ## Soundness -/

theorem paddingSet_eq_false {n : Nat} {mask : ByteString} (length : mask.length = maskBytes n)
    (clear : paddingSet n mask = false) {i : Nat} (outside : n ≤ i) : maskBit mask i = false := by
  by_cases beyond : 8 * mask.length ≤ i
  · exact maskBit_of_length_le beyond
  · rw [length, maskBytes] at beyond
    have partial8 : n % 8 ≠ 0 := by omega
    have byte : i / 8 = maskBytes n - 1 := by
      unfold maskBytes
      omega
    simp only [paddingSet, bne, Bool.and_eq_false_iff, Bool.not_eq_false', beq_iff_eq, partial8,
      false_or] at clear
    rw [maskBit, byte]
    exact (and_not_low_eq_zero _ (by omega)).mp clear (i % 8) (by omega) (by omega)

theorem presence_ok {n : Nat} {base input rest mask : ByteString}
    (h : (presence n base).run input = .ok mask rest) :
    mask.length = maskBytes n ∧ input = mask ++ rest ∧ ∀ i, n ≤ i → maskBit mask i = false := by
  obtain ⟨mask', mid, read, h⟩ := bind_eq_ok.mp h
  obtain ⟨length, bytes⟩ := take_ok.mp (orThrow_ok.mp read)
  cases padded : paddingSet n mask' with
  | true =>
      rw [padded] at h
      cases h
  | false =>
      rw [padded] at h
      obtain ⟨rfl, rfl⟩ := pure_eq_ok.mp h
      exact ⟨length, bytes, fun i => paddingSet_eq_false length padded⟩

structure SlotsCode (mask : ByteString) (i : Nat) (fields : List Field) (slots : List (Option Cell))
    (words : ByteString) : Prop where
  length : slots.length = fields.length
  code : slotsCode fields slots = .ok words
  declared : slotsClaimDeclared fields slots
  present : ∀ j, j < fields.length → maskBit mask (i + j) = (slots.map Option.isSome).getD j false

theorem readSlots_reads {base : ByteString} {depth : Nat} (mask : ByteString) {fields : List Field}
    (each : ∀ f ∈ fields, Reads (value f.type (fieldPath base f.name) depth)
      (fun c word => cellCode c f.type = .ok word ∧ c.ClaimsDeclared f.type)) (i : Nat) :
    Reads (readSlots base depth mask fields i) (SlotsCode mask i fields) := by
  induction fields generalizing i with
  | nil =>
      apply (Reads.pure []).mono
      rintro slots words ⟨rfl, rfl⟩
      exact ⟨rfl, rfl, trivial, by simp⟩
  | cons f fields ih =>
      have others := ih (fun g hg => each g (List.mem_cons_of_mem f hg)) (i + 1)
      have later : ∀ {slot slots words}, SlotsCode mask (i + 1) fields slots words →
          maskBit mask i = Option.isSome slot → ∀ j, j < (f :: fields).length →
            maskBit mask (i + j) = ((slot :: slots).map Option.isSome).getD j false := by
        intro slot slots words rest here j hj
        cases j with
        | zero => simpa using here
        | succ j =>
            have next := rest.present j (by simpa using hj)
            rw [show i + (j + 1) = i + 1 + j by omega, next]
            simp
      rw [readSlots]
      split
      · rename_i set
        apply ((each f (by simp)).bind fun c => others.bind fun slots => Reads.pure (some c :: slots)).mono
        rintro _ _ ⟨c, u, _, ⟨code, declared⟩, ⟨slots, v, _, rest, ⟨rfl, rfl⟩, rfl⟩, rfl⟩
        rw [List.append_nil]
        exact ⟨by simp [rest.length], slotsCode_some_ok.mpr ⟨u, v, code, rest.code, rfl⟩,
          ⟨declared, rest.declared⟩, later rest set⟩
      · rename_i unset
        apply (others.bind fun slots => Reads.pure (none :: slots)).mono
        rintro _ _ ⟨slots, v, _, rest, ⟨rfl, rfl⟩, rfl⟩
        rw [List.append_nil]
        exact ⟨by simp [rest.length], rest.code, rest.declared, later rest (by simpa using unset)⟩

theorem body_reads {schema : Schema} (wf : schema.wf) {base : ByteString} {depth : Nat}
    (each : ∀ f ∈ schema.fields, Reads (value f.type (fieldPath base f.name) depth)
      (fun c word => cellCode c f.type = .ok word ∧ c.ClaimsDeclared f.type)) :
    Reads (body schema (Value.empty schema) base depth) (fun v word =>
      bodyCode v = .ok word ∧ v.schema = schema ∧ v.ClaimsDeclared) := by
  intro input v rest h
  rw [body_eq wf] at h
  split at h
  · cases h
  · obtain ⟨mask, mid, hmask, h⟩ := bind_eq_ok.mp h
    obtain ⟨slots, mid', hslots, h⟩ := bind_eq_ok.mp h
    obtain ⟨rfl, rfl⟩ := pure_eq_ok.mp h
    obtain ⟨length, rfl, padding⟩ := presence_ok hmask
    obtain ⟨words, read, rfl⟩ := readSlots_reads mask each 0 mid slots mid' hslots
    have packed : packBits (slots.map Option.isSome) = mask := by
      apply packBits_eq
      · rw [length, List.length_map, read.length, maskBytes]
      · intro i hi
        by_cases inside : i < schema.fields.length
        · simpa using read.present i inside
        · rw [padding i (by omega), List.getD_eq_getElem?_getD, List.getElem?_eq_none]
          · rfl
          · rw [List.length_map, read.length]
            omega
    refine ⟨mask ++ words, ⟨?_, rfl, read.declared⟩, by simp⟩
    rw [bodyCode, read.code, packed]
    rfl

theorem octets_ok {path expected input rest s : ByteString}
    (h : (octets path expected).run input = .ok s rest) : input = putUvarint s.length ++ s ++ rest := by
  obtain ⟨len, mid, read, h⟩ := bind_eq_ok.mp h
  have bytes := uvarint_ok.mp (orThrow_ok.mp read)
  simp only [EStateM.run] at h
  split at h
  · cases h
  · rename_i enough
    cases h
    have length : (mid.take len.toNat).length = len.toNat := by
      simp only [Bool.or_eq_true, decide_eq_true_eq] at enough
      simp
      omega
    rw [length, bytes]
    simp

theorem reads_within_depth {α : Type} {read : Decoder α} {Word : α → ByteString → Prop} {path : ByteString}
    {depth : Nat} (h : Reads read Word) : Reads (if depth > kMaxBinaryDepth then
      fail .malformedBytes path [] "maximum nesting depth exceeded" else read) Word := by
  intro input a rest ok
  split at ok
  · cases ok
  · exact h input a rest ok

theorem value_reads {t : TypeRef} (wf : t.wf) (path : ByteString) (depth : Nat) :
    Reads (value t path depth) (fun c word => cellCode c t = .ok word ∧ c.ClaimsDeclared t) := by
  induction t generalizing path depth with
  | int =>
      rw [value]
      apply reads_within_depth
      intro input c rest h
      obtain ⟨v, _, read, h⟩ := bind_eq_ok.mp h
      obtain ⟨rfl, rfl⟩ := pure_eq_ok.mp h
      exact ⟨putZigzag v, ⟨rfl, trivial⟩, zigzag_ok.mp (orThrow_ok.mp read)⟩
  | float =>
      rw [value]
      apply reads_within_depth
      intro input c rest h
      obtain ⟨bits, _, read, h⟩ := bind_eq_ok.mp h
      obtain ⟨rfl, rfl⟩ := pure_eq_ok.mp h
      exact ⟨putF64le bits, ⟨rfl, trivial⟩, (f64le_ok.mp (orThrow_ok.mp read)).2⟩
  | text =>
      rw [value]
      apply reads_within_depth
      intro input c rest h
      obtain ⟨s, _, read, h⟩ := bind_eq_ok.mp h
      split at h
      · obtain ⟨rfl, rfl⟩ := pure_eq_ok.mp h
        exact ⟨putUvarint s.length ++ s, ⟨rfl, trivial⟩, octets_ok read⟩
      · cases h
  | bool =>
      rw [value]
      apply reads_within_depth
      intro input c rest h
      obtain ⟨b, _, read, h⟩ := bind_eq_ok.mp h
      split at h
      · cases h
      · rename_i small
        obtain ⟨rfl, rfl⟩ := pure_eq_ok.mp h
        refine ⟨putU8 b, ⟨?_, trivial⟩, u8_ok.mp (orThrow_ok.mp read)⟩
        have digit : b = 0 ∨ b = 1 := by
          simp only [gt_iff_lt, UInt8.not_lt, UInt8.le_iff_toNat_le, ← UInt8.toNat_inj] at *
          have : (1 : UInt8).toNat = 1 := rfl
          have : (0 : UInt8).toNat = 0 := rfl
          omega
        rcases digit with rfl | rfl <;> rfl
  | bytes =>
      rw [value]
      apply reads_within_depth
      intro input c rest h
      obtain ⟨s, _, read, h⟩ := bind_eq_ok.mp h
      obtain ⟨rfl, rfl⟩ := pure_eq_ok.mp h
      exact ⟨putUvarint s.length ++ s, ⟨rfl, trivial⟩, octets_ok read⟩
  | message schema ih =>
      rw [value]
      apply reads_within_depth
      intro input c rest h
      obtain ⟨v, _, read, h⟩ := bind_eq_ok.mp h
      obtain ⟨rfl, rfl⟩ := pure_eq_ok.mp h
      rw [TypeRef.wf_message] at wf
      have fields := (Schema.wf_iff.mp wf).2.2
      have aligned := (body_wf wf (fun f hf _ _ _ hc => value_wf (fields f hf) hc) read).1
      obtain ⟨word, ⟨code, claims⟩, bytes⟩ :=
        body_reads wf (fun f hf => ih f hf (fields f hf) _ _) input v _ read
      refine ⟨word, ⟨?_, claims⟩, bytes⟩
      rw [cellCode_message aligned, code]
  | list element ih =>
      rw [value]
      apply reads_within_depth
      intro input c rest h
      obtain ⟨count, mid, read, h⟩ := bind_eq_ok.mp h
      split at h
      · cases h
      · obtain ⟨cells, _, readCells, h⟩ := bind_eq_ok.mp h
        obtain ⟨rfl, rfl⟩ := pure_eq_ok.mp h
        rw [TypeRef.wf_list] at wf
        have bytes := uvarint_ok.mp (orThrow_ok.mp read)
        have aligned := readEach_all (fun _ _ _ _ hc => value_wf wf hc) readCells
        obtain ⟨words, ⟨length, each⟩, rfl⟩ :=
          Reads.readEach (fun k => ih wf (indexPath path k) (depth + 1)) count.toNat 0 mid cells _
            readCells
        refine ⟨putUvarint cells.length ++ words, ⟨?_, ?_⟩, by rw [length, bytes]; simp⟩
        · exact (cellCode_list aligned).mpr ⟨words, each.mono fun _ _ h => h.1, rfl⟩
        · exact cellsClaimDeclared_iff.mpr (each.forall fun _ _ h => h.2)

end BinaryDecoder
end Zen.Raw
