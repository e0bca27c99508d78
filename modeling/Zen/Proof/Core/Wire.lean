import Zen.Proof.Core.Serialize

/-!
# The wire and the gate

Decoding inverts encoding on everything the gate accepts, and encoding inverts decoding on every
byte string the door accepts.
-/

namespace Zen.Proof

theorem ok_accepts {a : Admission} (h : a.ok = true) : ∃ v, a = .accept v := by
  cases a with
  | accept v => exact ⟨v, rfl⟩
  | reject errors => cases h

theorem sent_accepts {v : Value} {door : Schema} {report : Report} (h : (serialize v).toOption.map
    (fun bytes => (admitUnverified (parse bytes) door report).ok) = some true) :
    ∃ bytes w, serialize v = .ok bytes ∧ admitUnverified (parse bytes) door report = .accept w := by
  cases written : serialize v with
  | error e =>
      rw [written] at h
      cases h
  | ok bytes =>
      rw [written] at h
      obtain ⟨w, accepted⟩ := ok_accepts (Option.some.inj h)
      exact ⟨bytes, w, rfl, accepted⟩

def Point : Schema := ⟨⟨ascii "Point", 1, [⟨ascii "x", .int, true⟩]⟩, by decide⟩

def Sample : Schema :=
  ⟨⟨ascii "Sample", 3, [⟨ascii "n", .int, true⟩, ⟨ascii "f", .float, false⟩,
    ⟨ascii "tags", .list .text, true⟩, ⟨ascii "at", .message Point.raw, false⟩]⟩, by decide⟩

def sampleValue : Value :=
  ⟨⟨Sample.raw, [some (.int (-3)), some (.float 0x7FF8000000000001),
    some (.list [.text (ascii "a"), .text (ascii "bc")]),
    some (.message ⟨Point.raw, [some (.int 300)]⟩)]⟩, by decide⟩

/-! ## Encode after decode -/

theorem serialize_of_accepted {bytes : ByteString} {door : Schema} {report : Report} {v : Value}
    (accepted : admitUnverified (parse bytes) door report = .accept v) : serialize v = .ok bytes :=
  (accepted_written accepted).2

def sampleBytes : ByteString := Schema.header Sample ++ [0x0D, 5, 2, 1, 97, 2, 98, 99, 1, 216, 4]

theorem serialize_of_accepted_sample : ∃ v,
    admitUnverified (parse sampleBytes) Sample .full = .accept v ∧ serialize v = .ok sampleBytes := by
  obtain ⟨v, accepted⟩ := ok_accepts
    (show (admitUnverified (parse sampleBytes) Sample .full).ok = true by decide +kernel)
  exact ⟨v, accepted, serialize_of_accepted accepted⟩

/-! ## Decode after encode -/

theorem live_encodes {v : Value} {door : Schema} (distinct : Raw.NoCollision v.raw.schemas door.raw.schemas)
    {report : Report} (accepted : (admitLive v door report).ok) :
    v.schema = door ∧ (∃ body, Raw.bodyCode v.raw = .ok body) ∧ v.raw.ClaimsDeclared := by
  obtain ⟨sameId, conforms⟩ := admitLive_ok.mp accepted
  have same : v.raw.schema = door.raw :=
    distinct v.raw.schema (by simp [Raw.Value.schemas_eq]) door.raw (by simp [Raw.Schema.schemas_eq]) sameId
  have slots := (Raw.Value.wf_iff.mp v.wf).2.2
  rw [← same] at conforms distinct
  have body := Raw.body_encodes v.wf conforms fun f hf c hc =>
    Raw.conforms_encodes (slots c hc) fun s hs s' hs' =>
      distinct s (by simp [Raw.Value.schemas_eq, Raw.mem_slotSchemas hc hs]) s'
        (by simp [Raw.Schema.schemas_eq, Raw.mem_fieldSchemas hf hs'])
  exact ⟨schema_of_raw same, body⟩

theorem admit_canon {v w : Value} {report : Report} (canonical : w.raw = v.raw.canon) :
    Raw.validateInto w.raw v.schema.raw report.collectAll = [] ↔
      Raw.ValueConforms v.schema.raw v.raw := by
  rw [Raw.validateInto_eq_nil, canonical, Raw.Value.canon_schema, Raw.valueConforms_canon]
  exact and_iff_right rfl

theorem accepted_iff_fits {v : Value} {body : ByteString} (code : Raw.bodyCode v.raw = .ok body)
    (declared : v.raw.ClaimsDeclared) (report : Report) (w : Value) :
    admitUnverified (parse (Schema.header v.schema ++ body)) v.schema report = .accept w ↔
      v.schema.name.length < 2 ^ 16 ∧ validUtf8 v.schema.name ∧ v.raw.fits 0 ∧ w.raw = v.raw.canon ∧
        Raw.ValueConforms v.schema.raw v.raw := by
  rw [admit_parse_accept]
  constructor
  · rintro ⟨short, utf8, body', split, decoded, valid⟩
    rw [← List.append_cancel_left split] at decoded
    obtain ⟨fits, canonical⟩ := (body_decides v code declared w.raw).mp decoded
    exact ⟨short, utf8, fits, canonical, (admit_canon canonical).mp valid⟩
  · rintro ⟨short, utf8, fits, canonical, conforms⟩
    exact ⟨short, utf8, body, rfl, (body_decides v code declared w.raw).mpr ⟨fits, canonical⟩,
      (admit_canon canonical).mpr conforms⟩

theorem serialize_round_trip {door : Schema} {v : Value} (report report' : Report)
    (distinct : Raw.NoCollision v.raw.schemas door.raw.schemas)
    (accepted : (admitLive v door report).ok) :
    (∀ e, serialize v = .error e → door.name.length > 65535) ∧
    ∀ bytes, serialize v = .ok bytes →
      ((admitUnverified (parse bytes) door report').ok ↔ validUtf8 door.name ∧ v.raw.fits 0) ∧
      ∀ w, admitUnverified (parse bytes) door report' = .accept w → w.raw = v.raw.canon := by
  obtain ⟨rfl, ⟨body, code⟩, declared⟩ := live_encodes distinct accepted
  have conforms := (admitLive_ok.mp accepted).2
  have wire := accepted_iff_fits code declared report'
  constructor
  · intro e failed
    by_contra short
    have written := serialize_ok.mpr ⟨by omega, body, code, rfl⟩
    rw [written] at failed
    cases failed
  · intro bytes written
    obtain ⟨short, body', code', rfl⟩ := serialize_ok.mp written
    rw [code] at code'
    cases code'
    refine ⟨⟨?_, ?_⟩, fun w h => ((wire w).mp h).2.2.2.1⟩
    · intro ok
      obtain ⟨w, h⟩ := ok_accepts ok
      obtain ⟨_, utf8, fits, _⟩ := (wire w).mp h
      exact ⟨utf8, fits⟩
    · rintro ⟨utf8, fits⟩
      rw [(wire ⟨v.raw.canon, Raw.Value.canon_wf v.wf⟩).mpr ⟨short, utf8, fits, rfl, conforms⟩]
      rfl

theorem sample_distinct : Raw.NoCollision sampleValue.raw.schemas Sample.raw.schemas := by
  intro s hs s' hs' same
  have different : Sample.raw.contentId ≠ Point.raw.contentId := by decide +kernel
  have claimed : s = Sample.raw ∨ s = Point.raw := by
    simpa [sampleValue, Raw.Value.schemas, Raw.slotSchemas, Raw.Cell.schemas, Raw.cellSchemas] using hs
  have declared : s' = Sample.raw ∨ s' = Point.raw := by
    simpa [Sample, Point, Raw.Schema.schemas, Raw.fieldSchemas, Raw.TypeRef.schemas] using hs'
  rcases claimed with rfl | rfl <;> rcases declared with rfl | rfl
  · rfl
  · exact absurd same different
  · exact absurd same.symm different
  · rfl

theorem serialize_round_trip_sample : ∃ bytes w, serialize sampleValue = .ok bytes ∧
    admitUnverified (parse bytes) Sample .full = .accept w ∧ w.raw = sampleValue.raw.canon := by
  have live : (admitLive sampleValue Sample .firstError).ok := by decide +kernel
  obtain ⟨throws, wire⟩ := serialize_round_trip .firstError .full sample_distinct live
  cases written : serialize sampleValue with
  | error e => exact absurd (throws e written) (by decide)
  | ok bytes =>
      obtain ⟨accepts, equal⟩ := wire bytes written
      obtain ⟨w, accepted⟩ := ok_accepts (accepts.mpr ⟨by decide +kernel, by decide +kernel⟩)
      exact ⟨bytes, w, rfl, accepted, equal w accepted⟩

/-! ## No laundering -/

theorem wire_agrees_with_gate {door : Schema} {v w : Value} {bytes : ByteString} {report : Report}
    (report' : Report) (claims : v.schema = door) (written : serialize v = .ok bytes)
    (accepted : admitUnverified (parse bytes) door report = .accept w) :
    ((admitLive v door report').ok ∧ w.raw = v.raw.canon) ↔ v.raw.ClaimsDeclared := by
  subst claims
  obtain ⟨_, body, code, rfl⟩ := serialize_ok.mp written
  constructor
  · rintro ⟨_, canonical⟩
    obtain ⟨_, _, body', _, decoded, _⟩ := admit_parse_accept.mp accepted
    rw [← Raw.valueClaimsDeclared_canon, ← canonical]
    exact (body_code decoded).2.2
  · intro declared
    obtain ⟨_, _, _, canonical, conforms⟩ := (accepted_iff_fits code declared report w).mp accepted
    exact ⟨admitLive_ok.mpr ⟨rfl, conforms⟩, canonical⟩

theorem wire_agrees_with_gate_sample : sampleValue.raw.ClaimsDeclared ∧ ∃ bytes w,
    serialize sampleValue = .ok bytes ∧ admitUnverified (parse bytes) Sample .full = .accept w ∧
      (admitLive sampleValue Sample .firstError).ok ∧ w.raw = sampleValue.raw.canon := by
  have declared : sampleValue.raw.ClaimsDeclared :=
    ⟨trivial, trivial, ⟨trivial, trivial, trivial⟩, ⟨rfl, trivial, trivial⟩, trivial⟩
  obtain ⟨bytes, w, written, accepted⟩ :=
    @sent_accepts sampleValue Sample .full (by decide +kernel)
  obtain ⟨live, canonical⟩ := (wire_agrees_with_gate .firstError rfl written accepted).mpr declared
  exact ⟨declared, bytes, w, written, accepted, live, canonical⟩

def Offset : Schema := ⟨⟨ascii "Offset", 1, [⟨ascii "dx", .int, true⟩]⟩, by decide⟩

def Marker : Schema := ⟨⟨ascii "Marker", 1, [⟨ascii "at", .message Point.raw, true⟩]⟩, by decide⟩

-- an Offset in the place of a Point: another name and another field, the same bytes
def misplaced : Value :=
  ⟨⟨Marker.raw, [some (.message ⟨Offset.raw, [some (.int 7)]⟩)]⟩, by decide⟩

theorem misplaced_laundered : misplaced.schema = Marker ∧ ∃ bytes w,
    serialize misplaced = .ok bytes ∧ admitUnverified (parse bytes) Marker .full = .accept w ∧
      ¬ (admitLive misplaced Marker .full).ok := by
  obtain ⟨bytes, w, written, accepted⟩ := @sent_accepts misplaced Marker .full (by decide +kernel)
  exact ⟨rfl, bytes, w, written, accepted, by decide +kernel⟩

end Zen.Proof
