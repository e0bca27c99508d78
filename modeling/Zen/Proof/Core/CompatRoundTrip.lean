import Zen.Proof.Core.CompatTexts

/-!
# The compat round trip

The writer spells a text of the JSON grammar whose tree has one member for each present field. The
reader gives that tree back, and the decoder the value, up to the payload of a NaN.
-/

namespace Zen.Raw

mutual
def cellTree (chars : FloatChars) : Cell → JsonValue
  | .int v => .string (signedDecimal v.toInt)
  | .float bits =>
      if isNaN bits then .string (ascii "NaN")
      else if isInf bits then
        if bits == kMinusInfinityBits then .string (ascii "-Infinity") else .string (ascii "Infinity")
      else .number (chars.toChars bits)
  | .text s => .string s
  | .bool b => .bool b
  | .bytes b => .string (base64Encode b)
  | .message v => .object (valueTree chars v)
  | .nullMessage => .null
  | .list cells => .array (cellTrees chars cells)

def valueTree (chars : FloatChars) : Value → List (ByteString × JsonValue)
  | ⟨schema, slots⟩ => slotTrees chars schema.fields slots

def slotTrees (chars : FloatChars) : List Field → List (Option Cell) → List (ByteString × JsonValue)
  | _ :: fields, none :: slots => slotTrees chars fields slots
  | f :: fields, some c :: slots => (f.name, cellTree chars c) :: slotTrees chars fields slots
  | _, _ => []

def cellTrees (chars : FloatChars) : List Cell → List JsonValue
  | [] => []
  | c :: cells => cellTree chars c :: cellTrees chars cells
end

theorem slotLevels_le {slots : List (Option Cell)} {d : Nat} :
    slotLevels slots ≤ d ↔ ∀ c, some c ∈ slots → c.levels ≤ d := by
  induction slots with
  | nil => simp [slotLevels]
  | cons slot slots ih => cases slot <;> simp [slotLevels, ih]

theorem cellLevels_le {cells : List Cell} {d : Nat} : cellLevels cells ≤ d ↔ ∀ c ∈ cells, c.levels ≤ d := by
  induction cells with
  | nil => simp [cellLevels]
  | cons c cells ih => simp [cellLevels, ih]

theorem slotTextsValid_iff {slots : List (Option Cell)} :
    slotTextsValid slots ↔ ∀ c, some c ∈ slots → c.textsValid := by
  induction slots with
  | nil => simp [slotTextsValid]
  | cons slot slots ih => cases slot <;> simp [slotTextsValid, ih]

theorem cellTextsValid_iff {cells : List Cell} : cellTextsValid cells ↔ ∀ c ∈ cells, c.textsValid := by
  induction cells with
  | nil => simp [cellTextsValid]
  | cons c cells ih => simp [cellTextsValid, ih]

end Zen.Raw

namespace Zen.Proof
open Spec.Json

/-! ## Texts without white space -/

def spellMembers : List (ByteString × Node) → ByteString
  | [] => []
  | [m] => jsonQuote m.1 ++ 0x3A :: m.2.spell
  | m :: ms => jsonQuote m.1 ++ 0x3A :: m.2.spell ++ 0x2C :: spellMembers ms

def spellItems : List Node → ByteString
  | [] => []
  | [node] => node.spell
  | node :: nodes => node.spell ++ 0x2C :: spellItems nodes

def tight : Around := ⟨[], []⟩

theorem tight_spell (c : UInt8) : tight.spell c = [c] := rfl

theorem string_node (s : ByteString) (d : Int) :
    ∃ node : Node, node.spell = jsonQuote s ∧ node.denotes = .string s ∧ Fine d node := by
  obtain ⟨chrs, spelled, pairs, same⟩ := jsonQuote_spells s
  exact ⟨.string chrs, spelled.symm, by rw [Node.denotes, same], ⟨rfl, rfl, pairs⟩⟩

theorem exists_members {d : Int} (m : ByteString × Node) (l : List (ByteString × Node))
    (each : ∀ m' ∈ m :: l, Fine d m'.2) : ∃ ms : Members, ms.spell = spellMembers (m :: l) ∧
      ms.denotes = (m :: l).map (fun m => (m.1, m.2.denotes)) ∧ FineMembers d ms := by
  obtain ⟨chrs, spelled, pairs, same⟩ := jsonQuote_spells m.1
  have fine := each m (by simp)
  induction l generalizing m chrs with
  | nil =>
      refine ⟨.one chrs tight m.2, ?_, ?_, ⟨?_, ?_, ?_⟩⟩
      · rw [Members.spell, spellMembers, spelled, tight_spell, List.append_assoc]
        rfl
      · rw [Members.denotes, same]
        rfl
      · exact fine.nests
      · exact fine.distinct
      · rw [Members.paired, pairs, fine.paired]
        rfl
  | cons m' l ih =>
      obtain ⟨chrs', spelled', pairs', same'⟩ := jsonQuote_spells m'.1
      obtain ⟨ms, spell, denotes, nest, distinct, paired⟩ := ih m' (fun m'' hm => each m'' (List.mem_cons_of_mem _ hm))
        chrs' spelled' pairs' same' (each m' (by simp))
      refine ⟨.more chrs tight m.2 tight ms, ?_, ?_, ⟨?_, ?_, ?_⟩⟩
      · rw [Members.spell, spellMembers, spelled, tight_spell, tight_spell, spell]
        · simp
        · simp
      · rw [Members.denotes, same, denotes]
        rfl
      · rw [Members.nest, fine.nests, nest]
        rfl
      · rw [Members.distinct, fine.distinct, distinct]
        rfl
      · rw [Members.paired, pairs, fine.paired, paired]
        rfl

theorem exists_items {d : Int} (node : Node) (l : List Node) (each : ∀ node' ∈ node :: l, Fine d node') :
    ∃ is : Items, is.spell = spellItems (node :: l) ∧ is.denotes = (node :: l).map Node.denotes ∧ FineItems d is := by
  have fine := each node (by simp)
  induction l generalizing node with
  | nil => exact ⟨.one node, rfl, rfl, ⟨fine.nests, fine.distinct, fine.paired⟩⟩
  | cons node' l ih =>
      obtain ⟨is, spell, denotes, nest, distinct, paired⟩ := ih node'
        (fun node'' hn => each node'' (List.mem_cons_of_mem _ hn)) (each node' (by simp))
      refine ⟨.more node tight is, ?_, ?_, ⟨?_, ?_, ?_⟩⟩
      · rw [Items.spell, spellItems, tight_spell, spell]
        · simp
        · simp
      · rw [Items.denotes, denotes]
        rfl
      · rw [Items.nest, fine.nests, nest]
        rfl
      · rw [Items.distinct, fine.distinct, distinct]
        rfl
      · rw [Items.paired, fine.paired, paired]
        rfl

theorem object_node {d : Int} (room : 0 ≤ d) (l : List (ByteString × Node)) (nodup : (l.map Prod.fst).Nodup)
    (each : ∀ m ∈ l, Fine d m.2) : ∃ node : Node, node.spell = [0x7B] ++ spellMembers l ++ [0x7D] ∧
      node.denotes = .object (l.map fun m => (m.1, m.2.denotes)) ∧ Fine (d + 1) node := by
  cases l with
  | nil =>
      refine ⟨.emptyObject tight tight, rfl, rfl, ⟨?_, rfl, rfl⟩⟩
      rw [Node.nests, decide_eq_true_eq]
      omega
  | cons m l =>
      obtain ⟨ms, spell, denotes, nest, distinct, paired⟩ := exists_members m l each
      refine ⟨.object tight ms tight, ?_, ?_, ⟨?_, ?_, paired⟩⟩
      · rw [Node.spell, tight_spell, tight_spell, spell]
      · rw [Node.denotes, denotes]
      · rw [Node.nests, show d + 1 - 1 = d by omega, nest]
        simp only [Bool.and_true, decide_eq_true_eq]
        omega
      · have names : ms.names = (m :: l).map Prod.fst := by
          rw [← members_names, denotes, List.map_map]
          rfl
        rw [Node.distinct, names, distinct]
        simpa using nodup

theorem array_node {d : Int} (room : 0 ≤ d) (l : List Node) (each : ∀ node ∈ l, Fine d node) :
    ∃ node : Node, node.spell = [0x5B] ++ spellItems l ++ [0x5D] ∧
      node.denotes = .array (l.map Node.denotes) ∧ Fine (d + 1) node := by
  cases l with
  | nil =>
      refine ⟨.emptyArray tight tight, rfl, rfl, ⟨?_, rfl, rfl⟩⟩
      rw [Node.nests, decide_eq_true_eq]
      omega
  | cons node l =>
      obtain ⟨is, spell, denotes, nest, distinct, paired⟩ := exists_items node l each
      refine ⟨.array tight is tight, ?_, ?_, ⟨?_, distinct, paired⟩⟩
      · rw [Node.spell, tight_spell, tight_spell, spell]
      · rw [Node.denotes, denotes]
      · rw [Node.nests, show d + 1 - 1 = d by omega, nest]
        simp only [Bool.and_true, decide_eq_true_eq]
        omega

/-! ## What the writer spells -/

/-- A text of the grammar, the tree it denotes and the nesting it needs. -/
def Written (d : Int) (bytes : ByteString) (tree : JsonValue) : Prop :=
  ∃ node : Node, node.spell = bytes ∧ node.denotes = tree ∧ Fine d node

variable {chars : FloatChars}

theorem slots_written {d : Int} {fields : List Raw.Field} {slots : List (Option Raw.Cell)}
    (cells : ∀ c, some c ∈ slots → Written d (Raw.jsonEncodeCell chars c) (Raw.cellTree chars c)) :
    ∃ l : List (ByteString × Node), Raw.jsonEncodeSlots chars fields true slots = spellMembers l ∧
      Raw.jsonEncodeSlots chars fields false slots = (if l.isEmpty then [] else 0x2C :: spellMembers l) ∧
      l.map (fun m => (m.1, m.2.denotes)) = Raw.slotTrees chars fields slots ∧
      (l.map Prod.fst).Sublist (fields.map Raw.Field.name) ∧ ∀ m ∈ l, Fine d m.2 := by
  induction slots generalizing fields with
  | nil => exact ⟨[], by cases fields <;> rfl, by cases fields <;> rfl, by cases fields <;> rfl, by simp, nofun⟩
  | cons slot slots ih =>
      have later := fun c hc => cells c (List.mem_cons_of_mem _ hc)
      cases fields with
      | nil => exact ⟨[], by cases slot <;> rfl, by cases slot <;> rfl, by cases slot <;> rfl, by simp, nofun⟩
      | cons f fields =>
          obtain ⟨l, first, next, trees, names, fine⟩ := @ih fields later
          cases slot with
          | none =>
              refine ⟨l, ?_, ?_, ?_, names.cons _, fine⟩
              · rw [Raw.jsonEncodeSlots, first]
              · rw [Raw.jsonEncodeSlots, next]
              · rw [Raw.slotTrees, trees]
          | some c =>
              obtain ⟨node, spell, denotes, fineNode⟩ := cells c (by simp)
              have whole : jsonQuote f.name ++ [0x3A] ++ Raw.jsonEncodeCell chars c ++
                  Raw.jsonEncodeSlots chars fields false slots = spellMembers ((f.name, node) :: l) := by
                rw [next, ← spell]
                cases l <;> simp [spellMembers]
              refine ⟨(f.name, node) :: l, ?_, ?_, ?_, names.cons_cons _, ?_⟩
              · rw [Raw.jsonEncodeSlots, ← whole]
                rfl
              · rw [Raw.jsonEncodeSlots, ← whole]
                rfl
              · rw [Raw.slotTrees, ← trees, ← denotes]
                rfl
              · intro m hm
                rcases List.mem_cons.mp hm with rfl | hm
                · exact fineNode
                · exact fine m hm

theorem elements_written {d : Int} {cells : List Raw.Cell}
    (each : ∀ c ∈ cells, Written d (Raw.jsonEncodeCell chars c) (Raw.cellTree chars c)) :
    ∃ l : List Node, Raw.jsonEncodeElements chars true cells = spellItems l ∧
      Raw.jsonEncodeElements chars false cells = (if l.isEmpty then [] else 0x2C :: spellItems l) ∧
      l.map Node.denotes = Raw.cellTrees chars cells ∧ ∀ node ∈ l, Fine d node := by
  induction cells with
  | nil => exact ⟨[], rfl, rfl, rfl, nofun⟩
  | cons c cells ih =>
      obtain ⟨l, first, next, trees, fine⟩ := ih fun c hc => each c (List.mem_cons_of_mem _ hc)
      obtain ⟨node, spell, denotes, fineNode⟩ := each c (by simp)
      have whole : Raw.jsonEncodeCell chars c ++ Raw.jsonEncodeElements chars false cells = spellItems (node :: l) := by
        rw [next, ← spell]
        cases l <;> simp [spellItems]
      refine ⟨node :: l, ?_, ?_, ?_, ?_⟩
      · rw [Raw.jsonEncodeElements, ← whole]
        rfl
      · rw [Raw.jsonEncodeElements, ← whole]
        rfl
      · rw [Raw.cellTrees, ← trees, ← denotes]
        rfl
      · intro m hm
        rcases List.mem_cons.mp hm with rfl | hm
        · exact fineNode
        · exact fine m hm

theorem value_written {d : Nat} {v : Raw.Value} (wf : v.wf) (within : v.levels ≤ d)
    (cells : ∀ c, some c ∈ v.slots → ∀ d : Nat, c.levels ≤ d →
      Written d (Raw.jsonEncodeCell chars c) (Raw.cellTree chars c)) :
    Written d (Raw.jsonEncodeFields chars v) (.object (Raw.valueTree chars v)) := by
  have nodup := (Raw.Schema.wf_iff.mp (Raw.Value.wf_iff.mp wf).1).2.1
  obtain ⟨schema, slots⟩ := v
  obtain ⟨d, rfl⟩ : ∃ e, d = e + 1 := ⟨d - 1, by rw [Raw.Value.levels] at within; omega⟩
  have levels := Raw.slotLevels_le.mp (show Raw.slotLevels slots ≤ d by rw [Raw.Value.levels] at within; omega)
  obtain ⟨l, first, _, trees, names, fine⟩ := @slots_written chars d schema.fields slots
    fun c hc => cells c hc d (levels c hc)
  obtain ⟨node, spell, denotes, fineNode⟩ := object_node (Int.natCast_nonneg d) l (nodup.sublist names) fine
  refine ⟨node, ?_, ?_, fineNode⟩
  · rw [spell, Raw.jsonEncodeFields, first]
  · rw [denotes, trees, Raw.valueTree]

theorem float_written (reads : chars.RoundTrips) (bits : UInt64) (d : Int) :
    Written d (Raw.jsonEncodeFloat chars bits) (Raw.cellTree chars (.float bits)) := by
  unfold Raw.jsonEncodeFloat Raw.cellTree
  split
  · exact string_node (ascii "NaN") d
  · split
    · split
      · exact string_node (ascii "-Infinity") d
      · exact string_node (ascii "Infinity") d
    · rename_i number finite
      obtain ⟨n, spelled⟩ := reads.number bits (by rw [isFinite]; simp [number, finite])
      exact ⟨.number n, spelled.symm, by rw [Node.denotes, spelled], ⟨rfl, rfl, rfl⟩⟩

theorem int_written (v : Int64) (d : Int) : Written d (Raw.jsonEncodeInt v) (.string (signedDecimal v.toInt)) := by
  have plain : ∀ c ∈ signedDecimal v.toInt, quoteByte c = [c] := by
    have digits : ∀ n, ∀ c ∈ decimal n, quoteByte c = [c] := by
      intro n c hc
      obtain ⟨ds, spelled, _⟩ := decimal_digits n
      rw [spelled] at hc
      obtain ⟨d, rfl⟩ : ∃ d : Digit, digit d = c := by
        rcases List.mem_cons.mp hc with rfl | hc
        · exact ⟨ds.first, rfl⟩
        · obtain ⟨d, _, same⟩ := List.mem_map.mp hc
          exact ⟨d, same⟩
      clear hc
      revert d
      decide
    intro c hc
    unfold signedDecimal at hc
    split at hc
    · rcases List.mem_append.mp hc with minus | hc
      · obtain rfl := List.mem_singleton.mp (show c ∈ [0x2D] from minus)
        rfl
      · exact digits _ c hc
    · exact digits _ c hc
  have quoted : Raw.jsonEncodeInt v = jsonQuote (signedDecimal v.toInt) := by
    rw [Raw.jsonEncodeInt, jsonQuote]
    congr 2
    have each : ∀ s : ByteString, (∀ c ∈ s, quoteByte c = [c]) → s = s.flatMap quoteByte := by
      intro s h
      rw [List.flatMap_congr h, List.flatMap_singleton']
    exact each _ plain
  rw [quoted]
  exact string_node _ d

theorem cell_written (reads : chars.RoundTrips) {c : Raw.Cell} (wf : c.wf) {d : Nat} (within : c.levels ≤ d) :
    Written d (Raw.jsonEncodeCell chars c) (Raw.cellTree chars c) := by
  induction c generalizing d with
  | int v =>
      rw [Raw.jsonEncodeCell, Raw.cellTree]
      exact int_written v d
  | float bits =>
      rw [Raw.jsonEncodeCell]
      exact float_written reads bits d
  | text s =>
      rw [Raw.jsonEncodeCell, Raw.cellTree]
      exact string_node s d
  | bool b =>
      rw [Raw.jsonEncodeCell, Raw.cellTree]
      cases b with
      | false => exact ⟨.false, rfl, rfl, ⟨rfl, rfl, rfl⟩⟩
      | true => exact ⟨.true, rfl, rfl, ⟨rfl, rfl, rfl⟩⟩
  | bytes b =>
      rw [Raw.jsonEncodeCell, Raw.cellTree]
      exact string_node _ d
  | nullMessage =>
      rw [Raw.jsonEncodeCell, Raw.cellTree]
      exact ⟨.null, rfl, rfl, ⟨rfl, rfl, rfl⟩⟩
  | message v ih =>
      rw [Raw.Cell.wf_message] at wf
      rw [Raw.Cell.levels] at within
      rw [Raw.jsonEncodeCell, Raw.cellTree]
      have slots := (Raw.Value.wf_iff.mp wf).2.2
      exact value_written wf within fun c hc d within => ih c hc (slots c hc) within
  | list cells ih =>
      rw [Raw.Cell.levels] at within
      rw [Raw.jsonEncodeCell, Raw.cellTree]
      have elements := Raw.Cell.wf_list.mp wf
      obtain ⟨d, rfl⟩ : ∃ e, d = e + 1 := ⟨d - 1, by omega⟩
      have levels := Raw.cellLevels_le.mp (show Raw.cellLevels cells ≤ d by omega)
      obtain ⟨l, first, _, trees, fine⟩ := elements_written fun c hc => ih c hc (elements c hc) (levels c hc)
      obtain ⟨node, spell, denotes, fineNode⟩ := array_node (Int.natCast_nonneg d) l fine
      exact ⟨node, by rw [spell, first], by rw [denotes, trees], fineNode⟩

end Zen.Proof

/-! ## What the decoder makes of it -/

namespace Zen.Raw.JsonDecoder
open Zen.Proof

variable {chars : FloatChars}

/-- The decoder takes a cell from a node and finds no fault there. -/
structure Takes (chars : FloatChars) (t : TypeRef) (node : JsonValue) (c : Cell) : Prop where
  clean : ∀ path, faults chars t node path = []
  taken : taken chars t node = some c

theorem takes_scalar {t : TypeRef} {node : JsonValue} {c : Cell} (read : ∀ path, scalar chars t node path = .ok c)
    (faults_eq : ∀ path, faults chars t node path = scalarFaults chars t node path)
    (taken_eq : JsonDecoder.taken chars t node = (scalar chars t node []).toOption) : Takes chars t node c := by
  refine ⟨fun path => ?_, ?_⟩
  · rw [faults_eq, scalarFaults, read]
  · rw [taken_eq, read]
    rfl

theorem takes_int (v : Int64) : Takes chars .int (.string (signedDecimal v.toInt)) (.int v) := by
  apply takes_scalar _ (fun path => by rw [faults]) (by rw [JsonDecoder.taken])
  intro path
  simp only [scalar, signedDecimal_reads]

theorem takes_float (reads : chars.RoundTrips) (bits : UInt64) :
    Takes chars .float (cellTree chars (.float bits)) (.float (canonicalBits bits)) := by
  apply takes_scalar _ (fun path => by rw [faults]) (by rw [JsonDecoder.taken])
  intro path
  unfold cellTree canonicalBits
  split
  · rfl
  · split
    · rename_i infinite
      split
      · rename_i minus
        rw [beq_iff_eq.mp minus]
        rfl
      · rename_i plus
        obtain rfl : bits = kInfinityBits := by
          simp only [isInf, Bool.or_eq_true, plus, beq_iff_eq] at infinite
          simpa using infinite
        rfl
    · rename_i number finite
      have fine : isFinite bits = true := by
        rw [isFinite]
        simp [number, finite]
      obtain ⟨n, spelled⟩ := reads.number bits fine
      obtain ⟨c, left, first, _⟩ := number_first n
      have filled : (chars.toChars bits).isEmpty = false := by rw [spelled, first]; rfl
      simp only [scalar, jsonParseDouble, filled, reads.reads bits fine]
      rfl

theorem takes_text {s : ByteString} (valid : validUtf8 s = true) : Takes chars .text (.string s) (.text s) := by
  apply takes_scalar _ (fun path => by rw [faults]) (by rw [JsonDecoder.taken])
  intro path
  simp only [scalar, valid, if_true]

theorem takes_bool (b : Bool) : Takes chars .bool (.bool b) (.bool b) :=
  takes_scalar (fun _ => rfl) (fun path => by rw [faults]) (by rw [JsonDecoder.taken])

theorem takes_bytes (b : ByteString) : Takes chars .bytes (.string (base64Encode b)) (.bytes b) := by
  apply takes_scalar _ (fun path => by rw [faults]) (by rw [JsonDecoder.taken])
  intro path
  simp only [scalar, base64Decode_encode]

theorem find_slotTrees {fields : List Field} {slots : List (Option Cell)} (nodup : (fields.map Field.name).Nodup) :
    ∀ p ∈ fields.zip slots,
      (JsonValue.object (slotTrees chars fields slots)).find p.1.name = p.2.map (cellTree chars) := by
  have absent : ∀ {fields : List Field} {slots : List (Option Cell)} {name : ByteString},
      name ∉ fields.map Field.name → (JsonValue.object (slotTrees chars fields slots)).find name = none := by
    intro fields
    induction fields with
    | nil =>
        intro slots name _
        cases slots <;> rfl
    | cons f fields ih =>
        intro slots name missing
        rw [List.map_cons, List.mem_cons, not_or] at missing
        cases slots with
        | nil => rfl
        | cons slot slots =>
            cases slot with
            | none =>
                rw [slotTrees]
                exact ih missing.2
            | some c =>
                have other : (f.name == name) = false := by
                  rw [beq_eq_false_iff_ne]
                  exact fun same => missing.1 same.symm
                have rest := @ih slots name missing.2
                rw [JsonValue.find] at rest
                rw [slotTrees, JsonValue.find, List.find?_cons, other]
                exact rest
  induction fields generalizing slots with
  | nil => simp
  | cons f fields ih =>
      rw [List.map_cons, List.nodup_cons] at nodup
      cases slots with
      | nil => simp
      | cons slot slots =>
          intro p hp
          rw [List.zip_cons_cons] at hp
          rcases List.mem_cons.mp hp with rfl | later
          · cases slot with
            | none =>
                rw [slotTrees]
                exact absent nodup.1
            | some c =>
                rw [slotTrees, JsonValue.find, List.find?_cons_of_pos (by simp)]
                rfl
          · have rest := ih nodup.2 p later
            cases slot with
            | none =>
                rw [slotTrees]
                exact rest
            | some c =>
                have other : (f.name == p.1.name) = false := by
                  rw [beq_eq_false_iff_ne]
                  intro same
                  exact nodup.1 (same ▸ List.mem_map_of_mem (List.of_mem_zip later).1)
                rw [JsonValue.find] at rest
                rw [slotTrees, JsonValue.find, List.find?_cons, other]
                exact rest

theorem slotTrees_names {fields : List Field} {slots : List (Option Cell)} :
    ∀ member ∈ slotTrees chars fields slots, ∃ f ∈ fields, f.name = member.1 := by
  induction fields generalizing slots with
  | nil => cases slots <;> simp [slotTrees]
  | cons f fields ih =>
      intro member hm
      cases slots with
      | nil => simp [slotTrees] at hm
      | cons slot slots =>
          have deeper : member ∈ slotTrees chars fields slots → ∃ g ∈ f :: fields, g.name = member.1 := by
            intro hm
            obtain ⟨g, hg, same⟩ := ih member hm
            exact ⟨g, List.mem_cons_of_mem _ hg, same⟩
          cases slot with
          | none =>
              rw [slotTrees] at hm
              exact deeper hm
          | some c =>
              rw [slotTrees] at hm
              rcases List.mem_cons.mp hm with rfl | hm
              · exact ⟨f, by simp, rfl⟩
              · exact deeper hm

theorem takes_slots {members : List (ByteString × JsonValue)} {fields : List Field} {slots : List (Option Cell)}
    (length : slots.length = fields.length)
    (found : ∀ p ∈ fields.zip slots, (JsonValue.object members).find p.1.name = p.2.map (cellTree chars))
    (cells : ∀ p ∈ fields.zip slots, ∀ c, p.2 = some c → Takes chars p.1.type (cellTree chars c) c.canon) :
    (∀ base, memberFaults chars fields members base = []) ∧
      takenSlots chars fields members = slots.map (Option.map Cell.canon) := by
  induction fields generalizing slots with
  | nil =>
      obtain rfl := List.length_eq_zero_iff.mp length
      exact ⟨fun _ => rfl, rfl⟩
  | cons f fields ih =>
      obtain ⟨name, type, required⟩ := f
      cases slots with
      | nil => cases length
      | cons slot slots =>
          obtain ⟨clean, taken⟩ := ih (Nat.succ.inj length) (fun p hp => found p (List.mem_cons_of_mem _ hp))
            (fun p hp => cells p (List.mem_cons_of_mem _ hp))
          have here := found (⟨name, type, required⟩, slot) (by simp)
          cases slot with
          | none =>
              rw [Option.map_none] at here
              refine ⟨fun base => ?_, ?_⟩
              · rw [memberFaults, here, clean]
                rfl
              · rw [takenSlots, here, taken]
                rfl
          | some c =>
              have takes := cells (⟨name, type, required⟩, some c) (by simp) c rfl
              rw [Option.map_some] at here
              refine ⟨fun base => ?_, ?_⟩
              · rw [memberFaults, here, clean]
                simp only [takes.clean, List.append_nil]
              · rw [takenSlots, here, taken]
                simp only [takes.taken]
                rfl

theorem slots_conform {fields : List Field} {slots : List (Option Cell)} (conform : SlotsConform fields slots)
    (declared : slotsClaimDeclared fields slots) : ∀ p ∈ fields.zip slots, ∀ c, p.2 = some c →
      Conforms p.1.type c ∧ c.ClaimsDeclared p.1.type := by
  induction fields generalizing slots with
  | nil => simp
  | cons f fields ih =>
      cases slots with
      | nil => simp
      | cons slot slots =>
          intro p hp c hc
          rw [List.zip_cons_cons] at hp
          cases slot with
          | none =>
              rw [SlotsConform] at conform
              rw [slotsClaimDeclared] at declared
              rcases List.mem_cons.mp hp with rfl | hp
              · cases hc
              · exact ih conform.2 declared p hp c hc
          | some c' =>
              rw [SlotsConform] at conform
              rw [slotsClaimDeclared] at declared
              rcases List.mem_cons.mp hp with rfl | hp
              · cases hc
                exact ⟨conform.1, declared.1⟩
              · exact ih conform.2 declared.2 p hp c hc

theorem takes_value {v : Value} (wf : v.wf) (conforms : ValueConforms v.schema v) (declared : v.ClaimsDeclared)
    (cells : ∀ c, some c ∈ v.slots → ∀ t, Conforms t c → c.ClaimsDeclared t → Takes chars t (cellTree chars c) c.canon) :
    (∀ base, objectFaults chars v.schema (valueTree chars v) base = []) ∧
      takenValue chars v.schema (valueTree chars v) = v.canon := by
  have conform := (valueConforms_iff wf).mp conforms
  obtain ⟨schemaWf, length, _⟩ := Value.wf_iff.mp wf
  have nodup := (Schema.wf_iff.mp schemaWf).2.1
  rw [Value.claimsDeclared_eq] at declared
  obtain ⟨⟨name, version, fields⟩, slots⟩ := v
  obtain ⟨clean, taken⟩ := takes_slots length (find_slotTrees nodup) fun p hp c hc => by
    obtain ⟨fits, claims⟩ := slots_conform conform declared p hp c hc
    exact cells c (hc ▸ (List.of_mem_zip hp).2) p.1.type fits claims
  refine ⟨fun base => ?_, ?_⟩
  · rw [objectFaults, valueTree, unknownFaults_nil.mpr slotTrees_names, List.nil_append]
    exact clean base
  · rw [takenValue, valueTree, Value.canon, canonSlots_eq]
    exact congrArg _ taken

theorem cellTrees_eq (cells : List Cell) : cellTrees chars cells = cells.map (cellTree chars) := by
  induction cells with
  | nil => rfl
  | cons c cells ih => rw [cellTrees, ih, List.map_cons]

theorem takes_list {element : TypeRef} {cells : List Cell}
    (each : ∀ c ∈ cells, Takes chars element (cellTree chars c) c.canon) :
    Takes chars (.list element) (.array (cellTrees chars cells)) (.list (canonCells cells)) := by
  rw [cellTrees_eq, canonCells_eq]
  refine ⟨fun path => ?_, ?_⟩
  · rw [faults.eq_def]
    simp only [List.flatMap_eq_nil_iff]
    intro x hx
    obtain ⟨c, hc, same⟩ := List.mem_map.mp (List.fst_mem_of_mem_zipIdx hx)
    rw [← same]
    exact (each c hc).clean _
  · rw [JsonDecoder.taken.eq_def]
    simp only [Option.some.injEq, Cell.list.injEq]
    induction cells with
    | nil => rfl
    | cons c cells ih =>
        rw [List.map_cons, List.filterMap_cons_some (each c (by simp)).taken, List.map_cons,
          ih fun c hc => each c (List.mem_cons_of_mem _ hc)]

theorem takes_cell (reads : chars.RoundTrips) {c : Cell} (wf : c.wf) (texts : c.textsValid) {t : TypeRef}
    (conforms : Conforms t c) (declared : c.ClaimsDeclared t) : Takes chars t (cellTree chars c) c.canon := by
  induction c generalizing t with
  | int v =>
      cases t <;> simp only [Conforms, Cell.kind, reduceCtorEq, false_and, exists_const, exists_false] at conforms
      rw [cellTree]
      exact takes_int v
  | float bits =>
      cases t <;> simp only [Conforms, Cell.kind, reduceCtorEq, false_and, exists_const, exists_false] at conforms
      exact takes_float reads bits
  | text s =>
      cases t <;> simp only [Conforms, Cell.kind, reduceCtorEq, false_and, exists_const, exists_false] at conforms
      rw [cellTree]
      exact takes_text (by rwa [Cell.textsValid] at texts)
  | bool b =>
      cases t <;> simp only [Conforms, Cell.kind, reduceCtorEq, false_and, exists_const, exists_false] at conforms
      rw [cellTree]
      exact takes_bool b
  | bytes b =>
      cases t <;> simp only [Conforms, Cell.kind, reduceCtorEq, false_and, exists_const, exists_false] at conforms
      rw [cellTree]
      exact takes_bytes b
  | nullMessage =>
      cases t <;> simp only [Conforms, Cell.kind, reduceCtorEq, false_and, exists_false] at conforms
  | message v ih =>
      cases t with
      | message schema =>
          obtain ⟨rfl, claims⟩ := declared
          obtain ⟨_, ⟨⟩, _, fits⟩ := conforms
          rw [Cell.wf_message] at wf
          have slots := (Value.wf_iff.mp wf).2.2
          have texts' : ∀ c, some c ∈ v.slots → c.textsValid := by
            obtain ⟨schema, slots⟩ := v
            rw [Cell.textsValid, Value.textsValid] at texts
            exact slotTextsValid_iff.mp texts
          obtain ⟨clean, taken⟩ := takes_value wf fits claims fun c hc t fits claims =>
            ih c hc (slots c hc) (texts' c hc) fits claims
          refine ⟨fun path => ?_, ?_⟩
          · rw [cellTree, faults.eq_def]
            exact clean path
          · rw [cellTree, JsonDecoder.taken.eq_def, Cell.canon]
            exact congrArg _ (congrArg _ taken)
      | _ => simp only [Conforms, Cell.kind, reduceCtorEq, false_and, exists_false] at conforms
  | list cells ih =>
      cases t with
      | list element =>
          obtain ⟨_, ⟨⟩, fits⟩ := conforms
          have elements := Cell.wf_list.mp wf
          have claims := cellsClaimDeclared_iff.mp declared
          rw [Cell.textsValid] at texts
          rw [cellTree, Cell.canon]
          exact takes_list fun c hc =>
            ih c hc (elements c hc) (cellTextsValid_iff.mp texts c hc) (fits c hc) (claims c hc)
      | _ => simp only [Conforms, Cell.kind, reduceCtorEq, false_and, exists_false] at conforms

end Zen.Raw.JsonDecoder

namespace Zen.Proof
open Spec.Json

/-! ## The envelope -/

variable {chars : FloatChars}

def envelopeTree (chars : FloatChars) (v : Value) : List (ByteString × JsonValue) :=
  [(ascii "zen", .number (signedDecimal Compat.kJsonEnvelopeVersion.toInt)), (ascii "schema", .string v.schema.name),
    (ascii "version", .number (decimal v.schema.version.toNat)),
    (ascii "content_id", .string (formatContentId v.schema.contentId)),
    (ascii "fields", .object (Raw.valueTree chars v.raw))]

theorem envelope_nodup : Compat.envelopeMembers.Nodup := by decide

theorem number_node (n : Nat) (d : Int) : Written d (decimal n) (.number (decimal n)) := by
  obtain ⟨number, spelled⟩ := decimal_number n
  exact ⟨.number number, spelled.symm, by rw [Node.denotes, spelled], ⟨rfl, rfl, rfl⟩⟩

theorem serialize_written (reads : chars.RoundTrips) {v : Value} (nested : 1 + v.raw.levels ≤ 64) :
    Written Compat.kMaxJsonDepth (Compat.serialize chars v) (.object (envelopeTree chars v)) := by
  have slots := (Raw.Value.wf_iff.mp v.wf).2.2
  obtain ⟨zen, zenSpell, zenTree, zenFine⟩ := number_node 1 63
  obtain ⟨name, nameSpell, nameTree, nameFine⟩ := string_node v.schema.name 63
  obtain ⟨version, versionSpell, versionTree, versionFine⟩ := number_node v.schema.version.toNat 63
  obtain ⟨id, idSpell, idTree, idFine⟩ := string_node (formatContentId v.schema.contentId) 63
  obtain ⟨fields, fieldsSpell, fieldsTree, fieldsFine⟩ := value_written v.wf (show v.raw.levels ≤ 63 by omega)
    fun c hc d within => cell_written reads (slots c hc) within
  obtain ⟨node, spell, denotes, fine⟩ := object_node (d := 63) (by decide)
    [(ascii "zen", zen), (ascii "schema", name), (ascii "version", version), (ascii "content_id", id),
      (ascii "fields", fields)] envelope_nodup (by
        intro m hm
        simp only [List.mem_cons, List.not_mem_nil, or_false] at hm
        rcases hm with rfl | rfl | rfl | rfl | rfl
        · exact zenFine
        · exact nameFine
        · exact versionFine
        · exact idFine
        · exact fieldsFine)
  refine ⟨node, ?_, ?_, fine⟩
  · have open₀ : ascii "\x7b\"zen\":" = [0x7B] ++ (jsonQuote (ascii "zen") ++ [0x3A]) := by decide
    have key₁ : ascii ",\"schema\":" = 0x2C :: (jsonQuote (ascii "schema") ++ [0x3A]) := by decide
    have key₂ : ascii ",\"version\":" = 0x2C :: (jsonQuote (ascii "version") ++ [0x3A]) := by decide
    have key₃ : ascii ",\"content_id\":" = 0x2C :: (jsonQuote (ascii "content_id") ++ [0x3A]) := by decide
    have key₄ : ascii ",\"fields\":" = 0x2C :: (jsonQuote (ascii "fields") ++ [0x3A]) := by decide
    have close : ascii "\x7d" = [0x7D] := rfl
    have one : signedDecimal Compat.kJsonEnvelopeVersion.toInt = decimal 1 := rfl
    rw [spell, Compat.serialize, open₀, key₁, key₂, key₃, key₄, close, one, ← fieldsSpell]
    simp only [spellMembers, zenSpell, nameSpell, versionSpell, idSpell, List.append_assoc, List.cons_append,
      List.nil_append]
  · rw [denotes, envelopeTree]
    simp only [List.map_cons, List.map_nil, zenTree, nameTree, versionTree, idTree, fieldsTree]
    rfl

theorem parse_envelope {bytes : ByteString} {v : Value}
    (read : parseJson bytes Compat.kMaxJsonDepth = .ok (.object (envelopeTree chars v))) :
    Compat.parse bytes =
      .ok ⟨v.schema.name, v.schema.version, some v.schema.contentId, Raw.valueTree chars v.raw⟩ := by
  have known : (envelopeTree chars v).find? (fun member => member.1 ∉ Compat.envelopeMembers) = none := by
    rw [List.find?_eq_none]
    intro member hm
    have listed : member.1 ∈ (envelopeTree chars v).map Prod.fst := List.mem_map_of_mem hm
    simpa using (show member.1 ∈ Compat.envelopeMembers from listed)
  have zen : (JsonValue.object (envelopeTree chars v)).find (ascii "zen") =
      some (.number (signedDecimal Compat.kJsonEnvelopeVersion.toInt)) := rfl
  have schema : (JsonValue.object (envelopeTree chars v)).find (ascii "schema") = some (.string v.schema.name) := rfl
  have version : (JsonValue.object (envelopeTree chars v)).find (ascii "version") =
      some (.number (decimal v.schema.version.toNat)) := rfl
  have contentId : (JsonValue.object (envelopeTree chars v)).find (ascii "content_id") =
      some (.string (formatContentId v.schema.contentId)) := rfl
  have fields : (JsonValue.object (envelopeTree chars v)).find (ascii "fields") =
      some (.object (Raw.valueTree chars v.raw)) := rfl
  unfold Compat.parse
  rw [read]
  simp only [known, zen, schema, version, contentId, fields, signedDecimal_reads, decimal_u32, contentId_reads,
    ne_eq, not_true_eq_false, if_false]

theorem compat_round_trip {chars : FloatChars} {door : Schema} {v : Value} {report : Report}
    (reads : chars.RoundTrips) (distinct : Raw.NoCollision v.raw.schemas door.raw.schemas)
    (accepted : (admitLive v door report).ok) (texts : v.raw.textsValid) (nested : 1 + v.raw.levels ≤ 64) :
    (∃ claim, Compat.parse (Compat.serialize chars v) = .ok claim) ∧
    ∀ report', ∃ w, Compat.admitUnverified chars (Compat.parse (Compat.serialize chars v)) door report' = .accept w ∧
      w.raw = v.raw.canon := by
  obtain ⟨rfl, _, declared⟩ := live_encodes distinct accepted
  have conforms := (admitLive_ok.mp accepted).2
  obtain ⟨node, spelled, denotes, fine⟩ := serialize_written reads nested
  have read := parseJson_complete ⟨[], node, []⟩ fine
  rw [denotes, show Text.spell ⟨[], node, []⟩ = node.spell by simp [Text.spell, Ws.spell], spelled] at read
  have parsed := parse_envelope read
  refine ⟨⟨_, parsed⟩, fun report' => ⟨⟨v.raw.canon, Raw.Value.canon_wf v.wf⟩, ?_, rfl⟩⟩
  have slots := (Raw.Value.wf_iff.mp v.wf).2.2
  have slotTexts : ∀ c, some c ∈ v.raw.slots → c.textsValid := by
    obtain ⟨⟨schema, slots⟩, wf⟩ := v
    exact Raw.slotTextsValid_iff.mp texts
  obtain ⟨clean, taken⟩ := Raw.JsonDecoder.takes_value v.wf conforms declared fun c hc t fits claims =>
    Raw.JsonDecoder.takes_cell reads (slots c hc) (slotTexts c hc) fits claims
  rw [parsed, compat_accept]
  refine ⟨rfl, rfl, ?_, clean [], taken.symm, ?_⟩
  · rintro id ⟨⟩
    rfl
  · exact (admit_canon rfl).mpr conforms

def oneAndAHalf : UInt64 := 0x3FF8000000000000

def sampleChars : FloatChars where
  toChars bits := if bits = oneAndAHalf then ascii "1.5" else decimal bits.toNat
  fromChars text :=
    if text = ascii "1.5" then some (oneAndAHalf, []) else (digitsValue text).map fun n => (UInt64.ofNat n, [])

theorem sampleChars_roundTrips : sampleChars.RoundTrips := by
  have spelled : ascii "1.5" = Number.spell ⟨false, .positive 0 [], some ⟨5, []⟩, none⟩ := by decide
  constructor
  · intro bits _
    simp only [sampleChars]
    split
    · exact ⟨_, spelled⟩
    · exact decimal_number bits.toNat
  · intro bits _
    simp only [sampleChars]
    split
    · rename_i same
      rw [if_pos rfl, same]
    · obtain ⟨ds, digits, value⟩ := decimal_digits bits.toNat
      have read : digitsValue (decimal bits.toNat) = some bits.toNat := by rw [digits, digitsValue_spell, value]
      have other : decimal bits.toNat ≠ ascii "1.5" := by
        intro same
        rw [same] at read
        exact absurd read (by simp [show digitsValue (ascii "1.5") = none by decide])
      rw [if_neg other, read]
      simp

def measured : Value :=
  ⟨⟨Sample.raw, [some (.int (-3)), some (.float oneAndAHalf), some (.list [.text (ascii "a"), .text (ascii "bc")]),
    some (.message ⟨Point.raw, [some (.int 300)]⟩)]⟩, by decide⟩

theorem compat_round_trip_measured : ∃ w,
    Compat.admitUnverified sampleChars (Compat.parse (Compat.serialize sampleChars measured)) Sample .full = .accept w ∧
      w.raw = measured.raw.canon := by
  have live : (admitLive measured Sample .firstError).ok := by decide +kernel
  have claims : Raw.NoCollision measured.raw.schemas Sample.raw.schemas := sample_distinct
  exact (compat_round_trip sampleChars_roundTrips claims live (by decide +kernel) (by decide +kernel)).2 .full

end Zen.Proof
