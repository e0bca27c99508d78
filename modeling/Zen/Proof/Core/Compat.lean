import Mathlib.Data.List.TakeWhile
import Zen.Proof.Core.Base64
import Zen.Proof.Core.Json
import Zen.Proof.Core.Report
import Zen.Proof.Core.Wire
import Zen.Spec.Compat

/-!
# Compat decoding is exact
-/

namespace Zen.Proof
open Spec.Json

/-! ## Decimal numbers -/

theorem digit_toNat (d : Digit) : (digit d).toNat - 0x30 = d.val := by
  revert d
  decide

theorem digits_fold (ds : List Digit) (n : Nat) :
    (ds.map digit).foldl (fun n c => n * 10 + (c.toNat - 0x30)) n = ds.foldl (fun n d => n * 10 + d.val) n := by
  simp only [List.foldl_map, digit_toNat]

theorem digitsValue_spell (ds : Digits) : digitsValue ds.spell = some ds.value := by
  have spelled : ds.spell = (ds.first :: ds.rest).map digit := rfl
  have all : ((ds.first :: ds.rest).map digit).all JsonReader.isDigit = true := by
    simp [digit_isDigit]
  rw [digitsValue, spelled, all, if_neg (by simp), digits_fold]
  rfl

theorem digitsValue_sound {text : ByteString} {n : Nat} (h : digitsValue text = some n) :
    ∃ ds : Digits, text = ds.spell ∧ ds.value = n := by
  have read := h
  unfold digitsValue at h
  split at h
  · cases h
  · rename_i fine
    simp only [Bool.or_eq_true, not_or, Bool.not_eq_true, Bool.not_eq_false', List.isEmpty_eq_false_iff] at fine
    obtain ⟨ds, split⟩ := exists_digits text
    rw [List.dropWhile_eq_nil_iff.mpr (List.all_eq_true.mp fine.2), List.append_nil] at split
    cases ds with
    | nil => exact absurd split fine.1
    | cons d ds =>
        obtain rfl : text = Digits.spell ⟨d, ds⟩ := split
        rw [digitsValue_spell] at read
        exact ⟨⟨d, ds⟩, rfl, Option.some.inj read⟩

theorem digits_no_minus (ds : Digits) (rest : ByteString) : ds.spell ≠ 0x2D :: rest := by
  intro same
  have first : digit ds.first = 0x2D := (List.cons.inj same).1
  have digits := digit_isDigit ds.first
  rw [first] at digits
  cases digits

theorem parseInt64_minus (digits : ByteString) : jsonParseInt64 (0x2D :: digits) = (do
    let n ← digitsValue digits
    if n ≤ 2 ^ 63 then some (Int64.ofInt (-n)) else none) := rfl

theorem parseInt64_plain {digits : ByteString} (plain : ∀ rest, digits ≠ 0x2D :: rest) :
    jsonParseInt64 digits = (do
      let n ← digitsValue digits
      if n < 2 ^ 63 then some (Int64.ofInt n) else none) := by
  unfold jsonParseInt64
  split
  · rename_i rest
    exact absurd rfl (plain rest)
  · rfl

theorem jsonParseInt64_iff {text : ByteString} {v : Int64} : jsonParseInt64 text = some v ↔ DecimalInt64 text v := by
  have low := v.le_toInt
  have high := v.toInt_lt
  constructor
  · intro h
    by_cases minus : ∃ rest, text = 0x2D :: rest
    · obtain ⟨digits, rfl⟩ := minus
      rw [parseInt64_minus] at h
      obtain ⟨n, read, h⟩ := Option.bind_eq_some_iff.mp h
      obtain ⟨ds, rfl, rfl⟩ := digitsValue_sound read
      split at h
      · cases h
        exact ⟨true, ds, rfl, Int64.toInt_ofInt_of_le (by omega) (by omega)⟩
      · cases h
    · rw [parseInt64_plain fun rest same => minus ⟨rest, same⟩] at h
      obtain ⟨n, read, h⟩ := Option.bind_eq_some_iff.mp h
      obtain ⟨ds, rfl, rfl⟩ := digitsValue_sound read
      split at h
      · cases h
        exact ⟨false, ds, rfl, Int64.toInt_ofInt_of_le (by omega) (by omega)⟩
      · cases h
  · rintro ⟨minus, ds, rfl, value⟩
    cases minus with
    | true =>
        simp only [if_true] at value
        simp only [if_true, List.singleton_append]
        rw [parseInt64_minus, digitsValue_spell, Option.bind_eq_bind, Option.bind_some, if_pos (by omega), ← value,
          Int64.ofInt_toInt]
    | false =>
        simp only [Bool.false_eq_true, if_false] at value
        simp only [Bool.false_eq_true, if_false, List.nil_append]
        rw [parseInt64_plain (digits_no_minus ds), digitsValue_spell, Option.bind_eq_bind, Option.bind_some,
          if_pos (by omega), ← value, Int64.ofInt_toInt]

/-! ## Documents without a doubled member -/

inductive Distinct : JsonValue → Prop where
  | null : Distinct .null
  | bool (b : Bool) : Distinct (.bool b)
  | number (text : ByteString) : Distinct (.number text)
  | string (text : ByteString) : Distinct (.string text)
  | array {nodes : List JsonValue} (each : ∀ node ∈ nodes, Distinct node) : Distinct (.array nodes)
  | object {members : List (ByteString × JsonValue)} (nodup : (members.map Prod.fst).Nodup)
      (each : ∀ member ∈ members, Distinct member.2) : Distinct (.object members)

theorem members_names (ms : Members) : ms.denotes.map Prod.fst = ms.names := by
  cases ms with
  | one name colon value => rfl
  | more name colon value comma members =>
      rw [Members.denotes, List.map_cons, members_names members]
      rfl

mutual

theorem node_distinct {v : Node} (h : v.distinct = true) : Distinct v.denotes := by
  cases v with
  | false | true => exact .bool _
  | null => exact .null
  | number n => exact .number _
  | string s => exact .string _
  | emptyObject opening closing => exact .object List.nodup_nil nofun
  | emptyArray opening closing => exact .array nofun
  | object opening members closing =>
      simp only [Node.distinct, Bool.and_eq_true, decide_eq_true_eq] at h
      exact .object (by rw [members_names]; exact h.1) (members_distinct h.2)
  | array opening items closing =>
      simp only [Node.distinct] at h
      exact .array (items_distinct h)

theorem members_distinct {ms : Members} (h : ms.distinct = true) :
    ∀ member ∈ ms.denotes, Distinct member.2 := by
  cases ms with
  | one name colon value =>
      simp only [Members.distinct] at h
      intro member hm
      obtain rfl := List.mem_singleton.mp hm
      exact node_distinct h
  | more name colon value comma members =>
      simp only [Members.distinct, Bool.and_eq_true] at h
      intro member hm
      rcases List.mem_cons.mp hm with rfl | hm
      · exact node_distinct h.1
      · exact members_distinct h.2 member hm

theorem items_distinct {is : Items} (h : is.distinct = true) : ∀ node ∈ is.denotes, Distinct node := by
  cases is with
  | one value =>
      simp only [Items.distinct] at h
      intro node hn
      obtain rfl := List.mem_singleton.mp hn
      exact node_distinct h
  | more value comma items =>
      simp only [Items.distinct, Bool.and_eq_true] at h
      intro node hn
      rcases List.mem_cons.mp hn with rfl | hn
      · exact node_distinct h.1
      · exact items_distinct h.2 node hn

end

theorem parseJson_distinct {input : ByteString} {maxDepth : Int} {tree : JsonValue}
    (h : parseJson input maxDepth = .ok tree) : Distinct tree := by
  obtain ⟨text, _, fine, rfl⟩ := parseJson_sound h
  exact node_distinct fine.distinct

theorem find_some {members : List (ByteString × JsonValue)} {name : ByteString} {node : JsonValue}
    (h : (JsonValue.object members).find name = some node) : (name, node) ∈ members := by
  obtain ⟨member, found, rfl⟩ := Option.map_eq_some_iff.mp h
  obtain rfl : member.1 = name := by simpa using List.find?_some found
  exact List.mem_of_find?_eq_some found

theorem find_of_mem {members : List (ByteString × JsonValue)} {member : ByteString × JsonValue}
    (mem : member ∈ members) : ∃ node, (JsonValue.object members).find member.1 = some node := by
  cases found : (JsonValue.object members).find member.1 with
  | some node => exact ⟨node, rfl⟩
  | none =>
      have absent := List.find?_eq_none.mp (Option.map_eq_none_iff.mp found) member mem
      simp at absent

theorem compat_parse_fields {bytes : ByteString} {claim : Claim (List (ByteString × JsonValue))}
    (h : Compat.parse bytes = .ok claim) : ∃ root, parseJson bytes Compat.kMaxJsonDepth = .ok root ∧
      root.find "fields" = some (.object claim.body) := by
  unfold Compat.parse at h
  split at h
  · cases h
  · rename_i members parsed
    refine ⟨_, parsed, ?_⟩
    simp only at h
    repeat' split at h
    all_goals cases h
    all_goals assumption
  · cases h

end Zen.Proof

/-! ## What a clean document gives -/

namespace Zen.Raw.JsonDecoder
open Zen.Proof

variable {chars : FloatChars}

theorem takenSlots_append (before after : List Field) (members : List (ByteString × JsonValue)) :
    takenSlots chars (before ++ after) members =
      takenSlots chars before members ++ takenSlots chars after members := by
  induction before with
  | nil => rfl
  | cons f before ih =>
      obtain ⟨name, type, required⟩ := f
      rw [List.cons_append, takenSlots, takenSlots, ih, List.cons_append]

theorem takenSlots_length (fields : List Field) (members : List (ByteString × JsonValue)) :
    (takenSlots chars fields members).length = fields.length := by
  induction fields with
  | nil => rfl
  | cons f fields ih =>
      obtain ⟨name, type, required⟩ := f
      rw [takenSlots, List.length_cons, ih, List.length_cons]

def takenSlot (chars : FloatChars) (f : Field) (members : List (ByteString × JsonValue)) : Option Cell :=
  ((JsonValue.object members).find f.name).bind fun node => taken chars f.type node

theorem takenValue_get {schema : Schema} (wf : schema.wf) {f : Field} (hf : f ∈ schema.fields)
    (members : List (ByteString × JsonValue)) :
    (takenValue chars schema members).get f.name = takenSlot chars f members := by
  obtain ⟨before, after, split⟩ := List.append_of_mem hf
  have nodup := (Schema.wf_iff.mp wf).2.1
  obtain ⟨name, version, fields⟩ := schema
  obtain rfl : fields = before ++ f :: after := split
  have slots : takenSlots chars (f :: after) members = takenSlot chars f members :: takenSlots chars after members := by
    obtain ⟨name, type, required⟩ := f
    rw [takenSlots, takenSlot]
    cases (JsonValue.object members).find name <;> rfl
  rw [takenValue, takenSlots_append, slots]
  exact get_of_split nodup rfl (takenSlots_length before members) _

theorem membersDenote_iff {fields : List Field} {members : List (ByteString × JsonValue)} {v : Value} :
    MembersDenote chars fields members v ↔ ∀ f ∈ fields, ∀ c, v.get f.name = some c →
      ∃ node, (f.name, node) ∈ members ∧ Denotes chars f.type node c := by
  induction fields with
  | nil => simp [MembersDenote]
  | cons f fields ih =>
      obtain ⟨name, type, required⟩ := f
      rw [MembersDenote, ih, List.forall_mem_cons]

theorem memberFaults_nil {declared : List Field} {members : List (ByteString × JsonValue)} {base : ByteString} :
    memberFaults chars declared members base = [] ↔ ∀ f ∈ declared, ∀ node,
      (JsonValue.object members).find f.name = some node → faults chars f.type node (fieldPath base f.name) = [] := by
  induction declared with
  | nil => simp [memberFaults]
  | cons f declared ih =>
      obtain ⟨name, type, required⟩ := f
      rw [memberFaults, List.append_eq_nil_iff, ih, List.forall_mem_cons]
      cases (JsonValue.object members).find name <;> simp

theorem unknownFaults_nil {declared : List Field} {base : ByteString} {members : List (ByteString × JsonValue)} :
    unknownFaults declared base members = [] ↔ ∀ member ∈ members, ∃ f ∈ declared, f.name = member.1 := by
  simp [unknownFaults, List.filter_eq_nil_iff]

theorem scalar_denotes {t : TypeRef} {node : JsonValue} {path : ByteString} {c : Cell}
    (h : scalar chars t node path = .ok c) : Denotes chars t node c := by
  unfold scalar at h
  split at h
  · split at h
    · rename_i text _ v read
      cases h
      exact ⟨text, v, rfl, rfl, jsonParseInt64_iff.mp read⟩
    · cases h
  · split at h
    · rename_i text _ bits read
      cases h
      exact ⟨bits, rfl, .number read⟩
    · cases h
  · split at h
    · rename_i token
      cases h
      rw [token]
      exact ⟨_, rfl, .nan⟩
    · split at h
      · rename_i token
        cases h
        rw [token]
        exact ⟨_, rfl, .infinity⟩
      · split at h
        · rename_i token
          cases h
          rw [token]
          exact ⟨_, rfl, .minusInfinity⟩
        · cases h
  · split at h
    · rename_i text valid
      cases h
      exact ⟨text, rfl, rfl, valid⟩
    · cases h
  · cases h
    exact ⟨_, rfl, rfl⟩
  · split at h
    · rename_i text _ b read
      cases h
      rw [base64Encode_decode read]
      exact ⟨b, rfl, rfl⟩
    · cases h
  · cases h

theorem scalarFaults_nil {t : TypeRef} {node : JsonValue} {path : ByteString}
    (clean : scalarFaults chars t node path = []) :
    ∃ c, (scalar chars t node []).toOption = some c ∧ Denotes chars t node c := by
  unfold scalarFaults at clean
  rw [← scalar_path t node path]
  split at clean
  · rename_i c read
    rw [read]
    exact ⟨c, rfl, scalar_denotes read⟩
  · cases clean

theorem object_denotes {schema : Schema} (wf : schema.wf) {members : List (ByteString × JsonValue)}
    (nodup : (members.map Prod.fst).Nodup) {base : ByteString}
    (fieldsDenote : ∀ f ∈ schema.fields, ∀ node path, (f.name, node) ∈ members →
      faults chars f.type node path = [] → ∃ c, taken chars f.type node = some c ∧ Denotes chars f.type node c)
    (clean : objectFaults chars schema members base = []) :
    ObjectDenotes chars schema members (takenValue chars schema members) := by
  have get : ∀ f ∈ schema.fields, (takenValue chars schema members).get f.name = takenSlot chars f members :=
    fun f hf => takenValue_get wf hf members
  obtain ⟨name, version, declared⟩ := schema
  rw [objectFaults, List.append_eq_nil_iff, unknownFaults_nil, memberFaults_nil] at clean
  obtain ⟨known, faultless⟩ := clean
  have fieldDenotes : ∀ f ∈ declared, ∀ node, (JsonValue.object members).find f.name = some node →
      ∃ c, taken chars f.type node = some c ∧ Denotes chars f.type node c := fun f hf node found =>
    fieldsDenote f hf node _ (find_some found) (faultless f hf node found)
  rw [ObjectDenotes]
  refine ⟨nodup, ?_, ?_⟩
  · intro member hm
    obtain ⟨f, hf, same⟩ := known member hm
    obtain ⟨node, found⟩ := find_of_mem hm
    rw [← same] at found
    obtain ⟨c, took, _⟩ := fieldDenotes f hf node found
    rw [← same, get f hf, takenSlot, found, Option.bind_some, took]
    rfl
  · rw [membersDenote_iff]
    intro f hf c present
    rw [get f hf, takenSlot] at present
    obtain ⟨node, found, took⟩ := Option.bind_eq_some_iff.mp present
    obtain ⟨c', took', denotes⟩ := fieldDenotes f hf node found
    rw [took] at took'
    cases took'
    exact ⟨node, find_some found, denotes⟩

theorem list_denotes {element : TypeRef} {nodes : List JsonValue} (each : ∀ node ∈ nodes, ∃ c,
      taken chars element node = some c ∧ Denotes chars element node c) :
    List.Forall₂ (fun node c => Denotes chars element node c) nodes
      (nodes.filterMap fun node => taken chars element node) := by
  induction nodes with
  | nil => exact .nil
  | cons node nodes ih =>
      obtain ⟨c, took, denotes⟩ := each node (by simp)
      rw [List.filterMap_cons_some took]
      exact .cons denotes (ih fun node hn => each node (List.mem_cons_of_mem _ hn))

theorem taken_denotes {t : TypeRef} (wf : t.wf) {node : JsonValue} (distinct : Distinct node) {path : ByteString}
    (clean : faults chars t node path = []) :
    ∃ c, taken chars t node = some c ∧ Denotes chars t node c := by
  induction t generalizing node path with
  | int | float | text | bool | bytes =>
      rw [faults] at clean
      rw [taken]
      exact scalarFaults_nil clean
  | message schema ih =>
      rw [TypeRef.wf_message] at wf
      have declared := (Schema.wf_iff.mp wf).2.2
      rw [faults.eq_def] at clean
      rw [taken.eq_def]
      cases distinct with
      | object nodup each =>
          have denotes := object_denotes wf nodup
            (fun f hf node path mem clean => ih f hf (declared f hf) (each _ mem) clean) clean
          refine ⟨_, rfl, _, _, rfl, rfl, ?_, denotes⟩
          obtain ⟨name, version, fields⟩ := schema
          rfl
      | _ => cases clean
  | list element ih =>
      rw [TypeRef.wf_list] at wf
      rw [faults.eq_def] at clean
      rw [taken.eq_def]
      cases distinct with
      | array each =>
          refine ⟨_, rfl, _, _, rfl, rfl, list_denotes fun node hn => ?_⟩
          obtain ⟨i, inside, same⟩ := List.mem_iff_getElem.mp hn
          have faultless := List.flatMap_eq_nil_iff.mp clean (node, i)
            (List.mem_zipIdx_iff_getElem?.mpr (by rw [List.getElem?_eq_getElem inside, same]))
          exact ih wf (each node hn) faultless
      | _ => cases clean

end Zen.Raw.JsonDecoder

namespace Zen.Proof

theorem decodeJson_clean {chars : FloatChars} {door : Schema} {collectAll : Bool}
    {members : List (ByteString × JsonValue)} {w : Value} :
    ((decodeJson chars door collectAll members).errs = [] ∧ (decodeJson chars door collectAll members).candidate = w) ↔
      Raw.JsonDecoder.objectFaults chars door.raw members [] = [] ∧
        w.raw = Raw.JsonDecoder.takenValue chars door.raw members := by
  have run := decodeJson_reports chars door members
  have errs : (decodeJson chars door collectAll members).errs = [] ↔
      Raw.JsonDecoder.objectFaults chars door.raw members [] = [] := by
    cases collectAll with
    | true =>
        rw [show (decodeJson chars door true members).errs = _ from congrArg Prod.snd (run.full []), List.nil_append]
    | false =>
        rw [show (decodeJson chars door false members).errs = _ from run.first, List.take_eq_nil_iff]
        simp
  rw [errs]
  refine and_congr_right fun clean => ?_
  have value : (decodeJson chars door collectAll members).candidate.raw =
      Raw.JsonDecoder.takenValue chars door.raw members := by
    cases collectAll with
    | true => exact congrArg Prod.fst (run.full [])
    | false => exact run.clean clean
  rw [Value.ext_iff, value]
  exact eq_comm

theorem compat_accept {chars : FloatChars} {claim : Claim (List (ByteString × JsonValue))} {door : Schema}
    {report : Report} {w : Value} : Compat.admitUnverified chars (.ok claim) door report = .accept w ↔
      claim.name = door.name ∧ claim.version = door.version ∧
      (∀ id, claim.contentId = some id → id = door.contentId) ∧
      Raw.JsonDecoder.objectFaults chars door.raw claim.body [] = [] ∧
      w.raw = Raw.JsonDecoder.takenValue chars door.raw claim.body ∧
      Raw.validateInto w.raw door.raw report.collectAll = [] := by
  rw [Compat.admitUnverified, admitAgainst_iff, finish_accept]
  refine and_congr_right fun _ => and_congr_right fun _ => and_congr_right fun _ => ?_
  constructor
  · rintro ⟨_, errs, valid, same⟩
    obtain ⟨clean, value⟩ := decodeJson_clean.mp ⟨errs, same⟩
    exact ⟨clean, value, same ▸ valid⟩
  · rintro ⟨clean, value, valid⟩
    obtain ⟨errs, same⟩ := decodeJson_clean.mpr ⟨clean, value⟩
    exact ⟨rfl, errs, same ▸ valid, same⟩

theorem compat_decoding_is_exact {chars : FloatChars} {bytes : ByteString}
    {claim : Claim (List (ByteString × JsonValue))} {door : Schema} {report : Report} {v : Value}
    (parsed : Compat.parse bytes = .ok claim)
    (admitted : Compat.admitUnverified chars (Compat.parse bytes) door report = .accept v) :
    (∃ root, parseJson bytes Compat.kMaxJsonDepth = .ok root ∧ root.find "fields" = some (.object claim.body)) ∧
      v.schema = door ∧ (∀ report, admitLive v door report = .accept v) ∧
      Raw.ObjectDenotes chars door.raw claim.body v.raw := by
  obtain ⟨root, read, found⟩ := compat_parse_fields parsed
  rw [parsed] at admitted
  obtain ⟨_, _, _, clean, value, valid⟩ := compat_accept.mp admitted
  refine ⟨⟨root, read, found⟩, ?_, ?_, ?_⟩
  · apply schema_of_raw
    rw [value]
    obtain ⟨⟨name, version, fields⟩, wf⟩ := door
    rfl
  · intro report'
    rw [admitLive_accept]
    refine ⟨?_, rfl⟩
    rw [Raw.validateInto_eq_nil] at valid ⊢
    exact valid
  · rw [value]
    have distinct : Distinct (.object claim.body) := by
      have whole := parseJson_distinct read
      cases whole with
      | object nodup each => exact each _ (find_some found)
      | _ => cases found
    cases distinct with
    | object nodup each =>
        exact Raw.JsonDecoder.object_denotes door.wf nodup (fun f hf node path mem clean =>
          Raw.JsonDecoder.taken_denotes ((Raw.Schema.wf_iff.mp door.wf).2.2 f hf) (each _ mem) clean) clean

def Tag : Schema := ⟨⟨ascii "Tag", 1, [⟨ascii "n", .int, true⟩, ⟨ascii "on", .bool, false⟩]⟩, by decide⟩

def tagText : ByteString := ascii "\x7b\"zen\":1,\"schema\":\"Tag\",\"version\":1,\"fields\":\x7b\"n\":\"-5\"\x7d\x7d"

-- no double stands in the text, so the library's part is never asked
theorem compat_decoding_is_exact_tag : ∃ claim v, Compat.parse tagText = .ok claim ∧
    Compat.admitUnverified ⟨fun _ => [], fun _ => none⟩ (Compat.parse tagText) Tag .full = .accept v ∧
      v.schema = Tag ∧ Raw.ObjectDenotes ⟨fun _ => [], fun _ => none⟩ Tag.raw claim.body v.raw := by
  have admits : (Compat.admitUnverified ⟨fun _ => [], fun _ => none⟩ (Compat.parse tagText) Tag .full).ok = true := by
    decide +kernel
  cases parsed : Compat.parse tagText with
  | error e =>
      rw [parsed] at admits
      cases admits
  | ok claim =>
      rw [parsed] at admits
      obtain ⟨v, admitted⟩ := ok_accepts admits
      obtain ⟨_, schema, _, denotes⟩ := compat_decoding_is_exact parsed (by rw [parsed]; exact admitted)
      exact ⟨claim, v, rfl, admitted, schema, denotes⟩

end Zen.Proof
