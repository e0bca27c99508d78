import Zen.Proof.Core.Conform
import Zen.Proof.Core.RoundTrip

/-!
# Serialize, parse, admit

The header is read back exactly as it is written, so an accepted byte string splits into the
header of the door and a body that the decoder accepts as a whole.
-/

namespace Zen.Proof
open Lib

def headerBytes (name : ByteString) (version : UInt32) (contentId : UInt64) : ByteString :=
  putU8 kBinMagic0 ++ putU8 kBinMagic1 ++ putU8 kBinFormatVersion ++
    putU16le (UInt16.ofNat name.length) ++ name ++ putU32le version ++ putU64le contentId

def Schema.header (s : Schema) : ByteString := headerBytes s.name s.version s.contentId

theorem slots_append (v : Value) : ∀ c, some c ∈ v.raw.slots → ∀ t,
    Raw.Appends (Raw.binEncodeValue c t) :=
  fun c hc t => Raw.binEncodeValue_appends ((Raw.Value.wf_iff.mp v.wf).2.2 c hc) t

theorem serialize_ok {v : Value} {bytes : ByteString} : serialize v = .ok bytes ↔
    v.schema.name.length < 2 ^ 16 ∧ ∃ body, Raw.bodyCode v.raw = .ok body ∧
      bytes = Schema.header v.schema ++ body := by
  simp only [serialize, Raw.binEncodeBody_eq v.wf (slots_append v)]
  split
  · rename_i long
    simp only [reduceCtorEq, false_iff, not_and]
    omega
  · rename_i short
    rw [and_iff_right (by omega)]
    cases Raw.bodyCode v.raw with
    | error e => simp [Except.map]
    | ok body => simp [Except.map, Schema.header, headerBytes, eq_comm]

theorem parseHeader_ok {input rest name : ByteString} {version : UInt32} {contentId : UInt64} :
    parseHeader.run input = .ok (name, version, contentId) rest ↔
      name.length < 2 ^ 16 ∧ validUtf8 name ∧ input = headerBytes name version contentId ++ rest := by
  simp only [parseHeader, bind_eq_ok, guard_ok, orThrow_ok, u8_ok, u16le_ok, take_ok, u32le_ok, u64le_ok,
    pure_eq_ok, Prod.mk.injEq]
  constructor
  · rintro ⟨m0, _, rfl, m1, _, rfl, magic, ver, _, rfl, format, len, _, rfl, name', _, ⟨length, rfl⟩, utf8,
      version', _, rfl, id, _, rfl, ⟨rfl, rfl, rfl⟩, rfl⟩
    simp only [bne_iff_ne, Bool.or_eq_true, ne_eq, not_or, Decidable.not_not] at magic format
    obtain ⟨rfl, rfl⟩ := magic
    subst format
    refine ⟨by rw [length]; exact len.toNat_lt, by simpa using utf8, ?_⟩
    rw [headerBytes, length, UInt16.ofNat_toNat]
    simp only [List.append_assoc]
  · rintro ⟨short, utf8, rfl⟩
    refine ⟨kBinMagic0, _, ?_, kBinMagic1, _, rfl, by simp, kBinFormatVersion, _, rfl, by simp,
      UInt16.ofNat name.length, _, rfl, name, _, ⟨?_, rfl⟩, by simp [utf8], version, _, rfl,
      contentId, _, rfl, ⟨rfl, rfl, rfl⟩, rfl⟩
    · simp only [headerBytes, List.append_assoc]
    · exact (UInt16.toNat_ofNat_of_lt' short).symm

/-! ## Acceptance -/

theorem admitLive_accept {v w : Value} {door : Schema} {report : Report} :
    admitLive v door report = .accept w ↔
      Raw.validateInto v.raw door.raw report.collectAll = [] ∧ v = w := by
  simp only [admitLive, Admission.refuse]
  cases Raw.validateInto v.raw door.raw report.collectAll <;> simp

theorem admitLive_ok {v : Value} {door : Schema} {report : Report} :
    (admitLive v door report).ok ↔
      v.raw.schema.contentId = door.raw.contentId ∧ Raw.ValueConforms door.raw v.raw := by
  rw [← @Raw.validateInto_eq_nil v.raw door.raw report.collectAll]
  simp only [admitLive, Admission.refuse]
  cases Raw.validateInto v.raw door.raw report.collectAll <;> simp [Admission.ok]

theorem finish_accept {d : Decoded} {door : Schema} {collectAll : Bool} {w : Value} :
    finish d door collectAll = .accept w ↔ d.fatal = false ∧ d.errs = [] ∧
      Raw.validateInto d.candidate.raw door.raw collectAll = [] ∧ d.candidate = w := by
  unfold finish
  cases d.fatal with
  | true => simp [Admission.refuse]
  | false =>
      cases collectAll with
      | false =>
          cases d.errs <;> cases Raw.validateInto d.candidate.raw door.raw false <;> simp
      | true =>
          cases d.errs with
          | nil => cases Raw.validateInto d.candidate.raw door.raw true <;> simp [Admission.refuse]
          | cons e errs => simp [Admission.refuse]

theorem decodeNative_clean {door : Schema} {collectAll : Bool} {body : ByteString} {w : Value} :
    ((decodeNative door collectAll body).fatal = false ∧ (decodeNative door collectAll body).errs = [] ∧
      (decodeNative door collectAll body).candidate = w) ↔
      (Raw.BinaryDecoder.body door.raw (.empty door.raw) [] 0).run body = .ok w.raw [] := by
  unfold decodeNative
  split
  · rename_i v run
    simp [run, Value.ext_iff]
  · rename_i v b rest run
    simp [run]
  · rename_i e rest run
    simp [run]

theorem admitAgainst_iff {β : Type} {decode : Schema → Bool → β → Decoded} {claim : Claim β} {door : Schema}
    {collectAll : Bool} {w : Value} : admitAgainst decode claim door collectAll = .accept w ↔
      claim.name = door.name ∧ claim.version = door.version ∧
      (∀ id, claim.contentId = some id → id = door.contentId) ∧
      finish (decode door collectAll claim.body) door collectAll = .accept w := by
  unfold admitAgainst
  split
  · rename_i different
    simp only [reduceCtorEq, false_iff]
    rintro ⟨name, version, _⟩
    rcases different with h | h
    · exact h name
    · exact h version
  · rename_i same
    rw [not_or, Decidable.not_not, Decidable.not_not] at same
    cases claim.contentId with
    | none => simp [same]
    | some id =>
        simp only [same, true_and, Option.some.injEq, forall_eq']
        split
        · rename_i different
          simp [different]
        · rename_i sameId
          simp [Decidable.not_not.mp sameId]

theorem admitAgainst_accept {claim : Claim ByteString} {door : Schema} {collectAll : Bool} {w : Value} :
    admitAgainst decodeNative claim door collectAll = .accept w ↔
      claim.name = door.name ∧ claim.version = door.version ∧
      (∀ id, claim.contentId = some id → id = door.contentId) ∧
      (Raw.BinaryDecoder.body door.raw (.empty door.raw) [] 0).run claim.body = .ok w.raw [] ∧
      Raw.validateInto w.raw door.raw collectAll = [] := by
  rw [admitAgainst_iff, finish_accept, ← decodeNative_clean]
  constructor
  · rintro ⟨name, version, id, fatal, errs, valid, rfl⟩
    exact ⟨name, version, id, ⟨fatal, errs, rfl⟩, valid⟩
  · rintro ⟨name, version, id, ⟨fatal, errs, rfl⟩, valid⟩
    exact ⟨name, version, id, fatal, errs, valid, rfl⟩

theorem admit_parse_accept {bytes : ByteString} {door : Schema} {report : Report} {w : Value} :
    admitUnverified (parse bytes) door report = .accept w ↔
      door.name.length < 2 ^ 16 ∧ validUtf8 door.name ∧ ∃ body, bytes = Schema.header door ++ body ∧
        (Raw.BinaryDecoder.body door.raw (.empty door.raw) [] 0).run body = .ok w.raw [] ∧
        Raw.validateInto w.raw door.raw report.collectAll = [] := by
  unfold admitUnverified parse
  constructor
  · intro h
    cases header : parseHeader.run bytes with
    | error e rest =>
        rw [header] at h
        cases h
    | ok claim body =>
        obtain ⟨name, version, contentId⟩ := claim
        rw [header] at h
        obtain ⟨rfl, rfl, id, decoded, valid⟩ := admitAgainst_accept.mp h
        obtain ⟨short, utf8, split⟩ := parseHeader_ok.mp header
        have sameId := id contentId rfl
        subst sameId
        exact ⟨short, utf8, body, split, decoded, valid⟩
  · rintro ⟨short, utf8, body, split, decoded, valid⟩
    rw [parseHeader_ok.mpr ⟨short, utf8, split⟩]
    exact admitAgainst_accept.mpr ⟨rfl, rfl, by simp, decoded, valid⟩

/-! ## Bodies of doors -/

theorem body_code {door : Schema} {body : ByteString} {v : Raw.Value}
    (decoded : (Raw.BinaryDecoder.body door.raw (.empty door.raw) [] 0).run body = .ok v []) :
    Raw.bodyCode v = .ok body ∧ v.schema = door.raw ∧ v.ClaimsDeclared := by
  have fields := (Raw.Schema.wf_iff.mp door.wf).2.2
  obtain ⟨word, code, bytes⟩ := Raw.BinaryDecoder.body_reads door.wf
    (fun f hf => Raw.BinaryDecoder.value_reads (fields f hf) _ _) body v [] decoded
  rw [List.append_nil] at bytes
  rwa [← bytes] at code

theorem schema_of_raw {v : Value} {door : Schema} (same : v.raw.schema = door.raw) : v.schema = door :=
  Schema.ext same

theorem accepted_written {bytes : ByteString} {door : Schema} {report : Report} {v : Value}
    (accepted : admitUnverified (parse bytes) door report = .accept v) :
    v.schema = door ∧ serialize v = .ok bytes := by
  obtain ⟨short, _, body, split, decoded, _⟩ := admit_parse_accept.mp accepted
  obtain ⟨code, same, _⟩ := body_code decoded
  have claims : v.schema = door := schema_of_raw same
  exact ⟨claims, serialize_ok.mpr ⟨claims ▸ short, body, code, by rw [claims, split]⟩⟩

theorem body_decides (v : Value) {body : ByteString} (code : Raw.bodyCode v.raw = .ok body)
    (declared : v.raw.ClaimsDeclared) (w : Raw.Value) :
    (Raw.BinaryDecoder.body v.raw.schema (.empty v.raw.schema) [] 0).run body = .ok w [] ↔
      v.raw.fits 0 ∧ w = v.raw.canon := by
  have slots := (Raw.Value.wf_iff.mp v.wf).2.2
  have decides := Raw.BinaryDecoder.body_decides v.wf [] 0
    (fun c hc t path word code declared =>
      Raw.BinaryDecoder.value_decides (slots c hc) path 0 code declared) code declared
  constructor
  · intro run
    by_cases fits : v.raw.fits 0
    · have parsed := decides.1 fits []
      rw [List.append_nil, run] at parsed
      cases parsed
      exact ⟨fits, rfl⟩
    · obtain ⟨e, rest, fails⟩ := decides.2 fits []
      rw [List.append_nil, run] at fails
      cases fails
  · rintro ⟨fits, rfl⟩
    simpa using decides.1 fits []

end Zen.Proof
