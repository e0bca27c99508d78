import Zen.Proof.Core.JsonStrings

/-!
# What the JSON reader accepts

Soundness is by induction on the fuel, completeness by induction on a derivation. White space may be
shared out in several ways between the productions around it, so a value is read up to the white space
that its own last production spells.
-/

namespace Zen.Proof
open Lib JsonReader Spec.Json

/-- What is asked of a text besides its grammar, where containers may nest `d` deep. -/
structure Fine (d : Int) (v : Node) : Prop where
  nests : v.nests d = true
  distinct : v.distinct = true
  paired : v.paired = true

structure FineMembers (d : Int) (ms : Members) : Prop where
  nest : ms.nest d = true
  distinct : ms.distinct = true
  paired : ms.paired = true

structure FineItems (d : Int) (items : Items) : Prop where
  nest : items.nest d = true
  distinct : items.distinct = true
  paired : items.paired = true

theorem skip_bind {α : Type} {f : Unit → JsonReader α} {input rest : ByteString} {a : α}
    (h : (skipWs >>= f).run input = .ok a rest) :
    ∃ (w : Ws) (mid : ByteString), input = w.spell ++ mid ∧ Past isBlank mid ∧ (f ()).run mid = .ok a rest := by
  obtain ⟨_, _, skipped, h⟩ := bind_eq_ok.mp h
  rw [skipWs_run] at skipped
  cases skipped
  obtain ⟨w, split⟩ := exists_blank input
  exact ⟨w, _, split, past_dropWhile isBlank input, h⟩

theorem peek_bind {α : Type} {f : UInt8 → JsonReader α} {input rest : ByteString} {a : α}
    (h : (peek >>= f).run input = .ok a rest) : (f (input.headD 0)).run input = .ok a rest := by
  obtain ⟨_, _, peeked, h⟩ := bind_eq_ok.mp h
  rw [peek_run] at peeked
  cases peeked
  exact h

theorem advance_bind {α : Type} {f : Unit → JsonReader α} {n : Nat} {input rest : ByteString} {a : α}
    (h : (advance n >>= f).run input = .ok a rest) : (f ()).run (input.drop n) = .ok a rest := by
  obtain ⟨_, _, advanced, h⟩ := bind_eq_ok.mp h
  rw [advance_run] at advanced
  cases advanced
  exact h

theorem enter_bind {α : Type} {f : Unit → JsonReader α} {maxDepth depth : Int} {input rest : ByteString} {a : α}
    (h : (enter maxDepth depth >>= f).run input = .ok a rest) :
    1 ≤ maxDepth - depth ∧ (f ()).run input = .ok a rest := by
  obtain ⟨_, _, entered, h⟩ := bind_eq_ok.mp h
  unfold enter at entered
  split at entered
  · cases entered
  · cases entered
    exact ⟨by omega, h⟩

/-! ## Soundness -/

/-- What a reader of a value has taken. -/
def TookValue (d : Int) (input rest : ByteString) (tree : JsonValue) : Prop :=
  ∃ (w : Ws) (v : Node), input = w.spell ++ (v.spell ++ rest) ∧ Fine d v ∧ v.denotes = tree

def TookMembers (d : Int) (before : List (ByteString × JsonValue)) (input rest : ByteString) (tree : JsonValue) : Prop :=
  ∃ (w : Ws) (ms : Members) (closing : Ws),
    input = w.spell ++ (ms.spell ++ (Around.spell ⟨closing, []⟩ 0x7D ++ rest)) ∧
    FineMembers d ms ∧ (before.map Prod.fst ++ ms.names).Nodup ∧ tree = .object (before ++ ms.denotes)

def TookItems (d : Int) (before : List JsonValue) (input rest : ByteString) (tree : JsonValue) : Prop :=
  ∃ (w : Ws) (items : Items) (closing : Ws),
    input = w.spell ++ (items.spell ++ (Around.spell ⟨closing, []⟩ 0x5D ++ rest)) ∧
    FineItems d items ∧ tree = .array (before ++ items.denotes)

-- what `parseObject` and `parseArray` have in common
def bracketed (maxDepth depth : Int) (closing : UInt8) (empty : JsonValue) (loop : JsonReader JsonValue) :
    JsonReader JsonValue := do
  enter maxDepth depth
  advance 1
  skipWs
  if (← peek) = closing then do
    advance 1
    return empty
  else loop

theorem bracketed_sound {maxDepth depth : Int} {closing opening : UInt8} {empty tree : JsonValue}
    {loop : JsonReader JsonValue} {input rest : ByteString} (byte : closing ≠ 0)
    (h : (bracketed maxDepth depth closing empty loop).run (opening :: input) = .ok tree rest) :
    1 ≤ maxDepth - depth ∧ ∃ (w : Ws) (mid : ByteString), input = w.spell ++ mid ∧
      (mid = closing :: rest ∧ tree = empty ∨ loop.run mid = .ok tree rest) := by
  unfold bracketed at h
  obtain ⟨deep, h⟩ := enter_bind h
  obtain ⟨w, mid, split, _, h⟩ := skip_bind (advance_bind h)
  refine ⟨deep, w, mid, split, ?_⟩
  have h := peek_bind h
  split at h
  · rename_i closed
    obtain ⟨left, rfl⟩ := headD_eq byte closed
    have h := advance_bind h
    obtain ⟨rfl, rfl⟩ := pure_eq_ok.mp h
    exact Or.inl ⟨rfl, rfl⟩
  · exact Or.inr h

theorem parseObject_sound {maxDepth depth : Int} {loop : JsonReader JsonValue} {input rest : ByteString}
    {tree : JsonValue} (h : (parseObject maxDepth depth loop).run (0x7B :: input) = .ok tree rest)
    (looped : ∀ input, loop.run input = .ok tree rest → TookMembers (maxDepth - depth - 1) [] input rest tree) :
    TookValue (maxDepth - depth) (0x7B :: input) rest tree := by
  obtain ⟨deep, w, mid, split, ⟨rfl, rfl⟩ | more⟩ := @bracketed_sound _ _ 0x7D _ (.object []) _ _ _ _ (by decide) h
  · refine ⟨[], .emptyObject ⟨[], w⟩ ⟨[], []⟩, ?_, ⟨by simpa [Node.nests] using deep, rfl, rfl⟩, rfl⟩
    rw [split]
    simp [Node.spell, Around.spell, Ws.spell]
  · obtain ⟨w', ms, closing, took, fine, names, rfl⟩ := looped mid more
    refine ⟨[], .object ⟨[], w ++ w'⟩ ms ⟨closing, []⟩, ?_, ⟨?_, ?_, fine.paired⟩, rfl⟩
    · rw [split, took]
      simp [Node.spell, Around.spell, Ws.spell]
    · simp only [Node.nests, Bool.and_eq_true, decide_eq_true_eq]
      exact ⟨deep, fine.nest⟩
    · simp only [Node.distinct, Bool.and_eq_true, decide_eq_true_eq]
      exact ⟨by simpa using names, fine.distinct⟩

theorem parseArray_sound {maxDepth depth : Int} {loop : JsonReader JsonValue} {input rest : ByteString}
    {tree : JsonValue} (h : (parseArray maxDepth depth loop).run (0x5B :: input) = .ok tree rest)
    (looped : ∀ input, loop.run input = .ok tree rest → TookItems (maxDepth - depth - 1) [] input rest tree) :
    TookValue (maxDepth - depth) (0x5B :: input) rest tree := by
  obtain ⟨deep, w, mid, split, ⟨rfl, rfl⟩ | more⟩ := @bracketed_sound _ _ 0x5D _ (.array []) _ _ _ _ (by decide) h
  · refine ⟨[], .emptyArray ⟨[], w⟩ ⟨[], []⟩, ?_, ⟨by simpa [Node.nests] using deep, rfl, rfl⟩, rfl⟩
    rw [split]
    simp [Node.spell, Around.spell, Ws.spell]
  · obtain ⟨w', items, closing, took, fine, rfl⟩ := looped mid more
    refine ⟨[], .array ⟨[], w ++ w'⟩ items ⟨closing, []⟩, ?_, ⟨?_, fine.distinct, fine.paired⟩, rfl⟩
    · rw [split, took]
      simp [Node.spell, Around.spell, Ws.spell]
    · simp only [Node.nests, Bool.and_eq_true, decide_eq_true_eq]
      exact ⟨deep, fine.nest⟩

theorem TookValue.token {d : Int} {input rest : ByteString} {tree : JsonValue} (v : Node)
    (split : input = v.spell ++ rest) (fine : Fine d v) (tree_eq : v.denotes = tree) : TookValue d input rest tree :=
  ⟨[], v, split, fine, tree_eq⟩

theorem parseBool_sound {d : Int} {input rest : ByteString} {tree : JsonValue}
    (h : parseBool.run input = .ok tree rest) : TookValue d input rest tree := by
  unfold parseBool at h
  have h := peek_bind h
  split at h
  · obtain ⟨_, _, matched, h⟩ := bind_eq_ok.mp h
    obtain ⟨rfl, rfl⟩ := pure_eq_ok.mp h
    exact .token .true (matchLiteral_sound matched) ⟨rfl, rfl, rfl⟩ rfl
  · obtain ⟨_, _, matched, h⟩ := bind_eq_ok.mp h
    obtain ⟨rfl, rfl⟩ := pure_eq_ok.mp h
    exact .token .false (matchLiteral_sound matched) ⟨rfl, rfl, rfl⟩ rfl

theorem parseNull_sound {d : Int} {input rest : ByteString} {tree : JsonValue}
    (h : parseNull.run input = .ok tree rest) : TookValue d input rest tree := by
  unfold parseNull at h
  obtain ⟨_, _, matched, h⟩ := bind_eq_ok.mp h
  obtain ⟨rfl, rfl⟩ := pure_eq_ok.mp h
  exact .token .null (matchLiteral_sound matched) ⟨rfl, rfl, rfl⟩ rfl

/-- The three readers with one fuel. -/
structure SoundAt (maxDepth : Int) (fuel : Nat) : Prop where
  value : ∀ {depth input tree rest}, (parseValue maxDepth fuel depth).run input = .ok tree rest →
    TookValue (maxDepth - depth) input rest tree
  members : ∀ {depth before input tree rest}, (before.map Prod.fst).Nodup →
    (parseMembers maxDepth fuel depth before).run input = .ok tree rest →
    TookMembers (maxDepth - depth - 1) before input rest tree
  items : ∀ {depth before input tree rest}, (parseItems maxDepth fuel depth before).run input = .ok tree rest →
    TookItems (maxDepth - depth - 1) before input rest tree

theorem parseValue_sound {maxDepth : Int} {fuel : Nat} (ih : SoundAt maxDepth fuel) {depth : Int}
    {input rest : ByteString} {tree : JsonValue}
    (h : (parseValue maxDepth (fuel + 1) depth).run input = .ok tree rest) :
    TookValue (maxDepth - depth) input rest tree := by
  rw [parseValue] at h
  obtain ⟨w, mid, split, _, h⟩ := skip_bind h
  obtain ⟨_, _, ⟨⟩, h⟩ := bind_eq_ok.mp h
  -- the white space in front of the value goes to its context
  have shifted : TookValue (maxDepth - depth) mid rest tree → TookValue (maxDepth - depth) input rest tree := by
    rintro ⟨w', v, taken, fine, denotes⟩
    refine ⟨w ++ w', v, ?_, fine, denotes⟩
    rw [split, taken]
    simp [Ws.spell]
  apply shifted
  cases mid with
  | nil => cases h
  | cons c mid =>
      simp only at h
      split at h
      · rename_i brace
        subst brace
        exact parseObject_sound h fun _ looped => ih.members List.nodup_nil looped
      split at h
      · rename_i bracket
        subst bracket
        exact parseArray_sound h fun _ looped => ih.items looped
      split at h
      · rename_i quote
        subst quote
        obtain ⟨text, _, read, h⟩ := bind_eq_ok.mp h
        obtain ⟨rfl, rfl⟩ := pure_eq_ok.mp h
        obtain ⟨s, spelled, pairs, rfl⟩ := parseString_sound read
        exact .token (.string s) spelled ⟨rfl, rfl, pairs⟩ rfl
      split at h
      · exact parseBool_sound h
      split at h
      · exact parseNull_sound h
      split at h
      · obtain ⟨n, spelled, rfl⟩ := parseNumber_sound h
        exact .token (.number n) spelled ⟨rfl, rfl, rfl⟩ rfl
      · cases h

theorem parseMembers_sound {maxDepth : Int} {fuel : Nat} (ih : SoundAt maxDepth fuel) {depth : Int}
    {before : List (ByteString × JsonValue)} {input rest : ByteString} {tree : JsonValue}
    (apart : (before.map Prod.fst).Nodup)
    (h : (parseMembers maxDepth (fuel + 1) depth before).run input = .ok tree rest) :
    TookMembers (maxDepth - depth - 1) before input rest tree := by
  rw [parseMembers] at h
  obtain ⟨w, mid, split, _, h⟩ := skip_bind h
  have h := peek_bind h
  split at h
  · cases h
  rename_i quoted
  obtain ⟨mid, rfl⟩ := headD_eq (by decide) (Decidable.not_not.mp quoted)
  obtain ⟨key, _, read, h⟩ := bind_eq_ok.mp h
  obtain ⟨name, spelled, pairs, rfl⟩ := parseString_sound read
  split at h
  · cases h
  rename_i fresh
  have unused : decoded name ∉ before.map Prod.fst := by
    intro used
    obtain ⟨m, member, same⟩ := List.mem_map.mp used
    exact fresh (List.any_eq_true.mpr ⟨m, member, by simp [same]⟩)
  obtain ⟨w₁, mid₁, split₁, _, h⟩ := skip_bind h
  have h := peek_bind h
  split at h
  · cases h
  rename_i colon
  obtain ⟨mid₁, rfl⟩ := headD_eq (by decide) (Decidable.not_not.mp colon)
  obtain ⟨val, _, read, h⟩ := bind_eq_ok.mp (advance_bind h)
  obtain ⟨w₂, v, split₂, fine, rfl⟩ := ih.value read
  have split₂ : mid₁ = w₂.spell ++ (v.spell ++ _) := split₂
  obtain ⟨w₃, mid₃, rfl, _, h⟩ := skip_bind h
  have h := peek_bind h
  have apart : ((before ++ [(decoded name, v.denotes)]).map Prod.fst).Nodup := by
    simpa [List.nodup_append, apart] using fun x value member same => unused (List.mem_map.mpr ⟨_, member, same⟩)
  have depths : maxDepth - (depth + 1) = maxDepth - depth - 1 := by omega
  rw [depths] at fine
  split at h
  · rename_i comma
    obtain ⟨mid₃, rfl⟩ := headD_eq (by decide) comma
    obtain ⟨w₄, ms, closing, taken, others, names, rfl⟩ := ih.members apart (advance_bind h)
    have taken : mid₃ = w₄.spell ++ (ms.spell ++ (Around.spell ⟨closing, []⟩ 0x7D ++ rest)) := taken
    refine ⟨w, .more name ⟨w₁, w₂⟩ v ⟨w₃, w₄⟩ ms, closing, ?_, ⟨?_, ?_, ?_⟩, ?_, ?_⟩
    · rw [split, spelled, split₁, split₂, taken]
      simp [Members.spell, Around.spell, Ws.spell]
    · simp only [Members.nest, Bool.and_eq_true]
      exact ⟨fine.nests, others.nest⟩
    · simp only [Members.distinct, Bool.and_eq_true]
      exact ⟨fine.distinct, others.distinct⟩
    · simp only [Members.paired, Bool.and_eq_true]
      exact ⟨⟨pairs, fine.paired⟩, others.paired⟩
    · simpa [Members.names] using names
    · simp [Members.denotes]
  split at h
  · rename_i closed
    obtain ⟨mid₃, rfl⟩ := headD_eq (by decide) closed
    have h := advance_bind h
    obtain ⟨rfl, rfl⟩ := pure_eq_ok.mp h
    refine ⟨w, .one name ⟨w₁, w₂⟩ v, w₃, ?_, ⟨fine.nests, fine.distinct, ?_⟩, ?_, rfl⟩
    · rw [split, spelled, split₁, split₂]
      simp [Members.spell, Around.spell, Ws.spell]
    · simp only [Members.paired, Bool.and_eq_true]
      exact ⟨pairs, fine.paired⟩
    · simpa [Members.names] using apart
  · cases h

theorem parseItems_sound {maxDepth : Int} {fuel : Nat} (ih : SoundAt maxDepth fuel) {depth : Int}
    {before : List JsonValue} {input rest : ByteString} {tree : JsonValue}
    (h : (parseItems maxDepth (fuel + 1) depth before).run input = .ok tree rest) :
    TookItems (maxDepth - depth - 1) before input rest tree := by
  rw [parseItems] at h
  obtain ⟨val, _, read, h⟩ := bind_eq_ok.mp h
  obtain ⟨w, v, split, fine, rfl⟩ := ih.value read
  obtain ⟨w₁, mid, rfl, _, h⟩ := skip_bind h
  have h := peek_bind h
  have depths : maxDepth - (depth + 1) = maxDepth - depth - 1 := by omega
  rw [depths] at fine
  split at h
  · rename_i comma
    obtain ⟨mid, rfl⟩ := headD_eq (by decide) comma
    obtain ⟨w₂, items, closing, taken, others, rfl⟩ := ih.items (advance_bind h)
    have taken : mid = w₂.spell ++ (items.spell ++ (Around.spell ⟨closing, []⟩ 0x5D ++ rest)) := taken
    refine ⟨w, .more v ⟨w₁, w₂⟩ items, closing, ?_, ⟨?_, ?_, ?_⟩, ?_⟩
    · rw [split, taken]
      simp [Items.spell, Around.spell, Ws.spell]
    · simp only [Items.nest, Bool.and_eq_true]
      exact ⟨fine.nests, others.nest⟩
    · simp only [Items.distinct, Bool.and_eq_true]
      exact ⟨fine.distinct, others.distinct⟩
    · simp only [Items.paired, Bool.and_eq_true]
      exact ⟨fine.paired, others.paired⟩
    · simp [Items.denotes]
  split at h
  · rename_i closed
    obtain ⟨mid, rfl⟩ := headD_eq (by decide) closed
    have h := advance_bind h
    obtain ⟨rfl, rfl⟩ := pure_eq_ok.mp h
    refine ⟨w, .one v, w₁, ?_, ⟨fine.nests, fine.distinct, fine.paired⟩, rfl⟩
    rw [split]
    simp [Items.spell, Around.spell, Ws.spell]
  · cases h

theorem sound_at (maxDepth : Int) (fuel : Nat) : SoundAt maxDepth fuel := by
  induction fuel with
  | zero =>
      refine ⟨?_, ?_, ?_⟩
      · intro depth input tree rest h
        cases h
      · intro depth before input tree rest _ h
        cases h
      · intro depth before input tree rest h
        cases h
  | succ fuel ih => exact ⟨parseValue_sound ih, parseMembers_sound ih, parseItems_sound ih⟩

/-! ## Fuel -/

theorem skip_then {α : Type} (f : Unit → JsonReader α) (input : ByteString) :
    (skipWs >>= f).run input = (f ()).run (input.dropWhile isBlank) := bind_of_ok (skipWs_run input)

theorem peek_then {α : Type} (f : UInt8 → JsonReader α) (input : ByteString) :
    (peek >>= f).run input = (f (input.headD 0)).run input := bind_of_ok (peek_run input)

theorem advance_then {α : Type} (f : Unit → JsonReader α) (n : Nat) (input : ByteString) :
    (advance n >>= f).run input = (f ()).run (input.drop n) := bind_of_ok (advance_run n input)

theorem skipped_length (input : ByteString) : (input.dropWhile isBlank).length ≤ input.length :=
  (List.dropWhile_sublist isBlank).length_le

theorem TookValue.shortens {d : Int} {input rest : ByteString} {tree : JsonValue} (took : TookValue d input rest tree) :
    rest.length ≤ input.length := by
  obtain ⟨w, v, rfl, _⟩ := took
  simp only [List.length_append]
  omega

theorem bracketed_fuel {maxDepth depth : Int} {closing c : UInt8} {empty : JsonValue} {loop loop' : JsonReader JsonValue}
    {input : ByteString} (same : ∀ mid : ByteString, mid.length ≤ input.length → loop.run mid = loop'.run mid) :
    (bracketed maxDepth depth closing empty loop).run (c :: input) =
      (bracketed maxDepth depth closing empty loop').run (c :: input) := by
  unfold bracketed
  refine bind_run_congr rfl ?_
  intro _ mid entered
  obtain rfl : c :: input = mid := by
    unfold enter at entered
    split at entered
    · cases entered
    · cases entered
      rfl
  simp only [advance_then, skip_then, peek_then, List.drop_one, List.tail_cons]
  split
  · rfl
  · exact same _ (skipped_length input)

/-- The answers of the three readers with one fuel are those with any other, where both cover the input: two for
each byte, as a value calls a loop and the loop a value before a byte is taken. -/
structure Covered (maxDepth : Int) (fuel : Nat) : Prop where
  value : ∀ {fuel' depth} {input : ByteString}, 2 * input.length + 1 ≤ fuel → 2 * input.length + 1 ≤ fuel' →
    (parseValue maxDepth fuel depth).run input = (parseValue maxDepth fuel' depth).run input
  members : ∀ {fuel' depth before} {input : ByteString}, 2 * input.length + 2 ≤ fuel → 2 * input.length + 2 ≤ fuel' →
    (parseMembers maxDepth fuel depth before).run input = (parseMembers maxDepth fuel' depth before).run input
  items : ∀ {fuel' depth before} {input : ByteString}, 2 * input.length + 2 ≤ fuel → 2 * input.length + 2 ≤ fuel' →
    (parseItems maxDepth fuel depth before).run input = (parseItems maxDepth fuel' depth before).run input

theorem parseValue_covered {maxDepth : Int} {fuel fuel' : Nat} (ih : Covered maxDepth fuel) {depth : Int}
    {input : ByteString} (enough : 2 * input.length ≤ fuel) (enough' : 2 * input.length ≤ fuel') :
    (parseValue maxDepth (fuel + 1) depth).run input = (parseValue maxDepth (fuel' + 1) depth).run input := by
  rw [parseValue, parseValue, skip_then, skip_then]
  have shorter := skipped_length input
  generalize input.dropWhile isBlank = mid at shorter
  refine bind_run_congr rfl ?_
  rintro _ _ ⟨⟩
  cases mid with
  | nil => rfl
  | cons c mid =>
      rw [List.length_cons] at shorter
      simp only
      split
      · refine @bracketed_fuel _ _ 0x7D _ (.object []) _ _ _ ?_
        intro left more
        exact ih.members (by omega) (by omega)
      split
      · refine @bracketed_fuel _ _ 0x5D _ (.array []) _ _ _ ?_
        intro left more
        exact ih.items (by omega) (by omega)
      · rfl

theorem parseMembers_covered {maxDepth : Int} {fuel fuel' : Nat} (ih : Covered maxDepth fuel) {depth : Int}
    {before : List (ByteString × JsonValue)} {input : ByteString} (enough : 2 * input.length + 1 ≤ fuel)
    (enough' : 2 * input.length + 1 ≤ fuel') :
    (parseMembers maxDepth (fuel + 1) depth before).run input =
      (parseMembers maxDepth (fuel' + 1) depth before).run input := by
  rw [parseMembers, parseMembers, skip_then, skip_then]
  have shorter := skipped_length input
  generalize input.dropWhile isBlank = mid at shorter
  rw [peek_then, peek_then]
  split
  · rfl
  rename_i quoted
  obtain ⟨mid, rfl⟩ := headD_eq (by decide) (Decidable.not_not.mp quoted)
  refine bind_run_congr rfl ?_
  intro key left read
  obtain ⟨name, spelled, _⟩ := parseString_sound read
  have lengths := congrArg List.length spelled
  rw [List.length_append] at lengths
  split
  · rfl
  rw [skip_then, skip_then, peek_then, peek_then]
  have shorter₁ := skipped_length left
  split
  · rfl
  rw [advance_then, advance_then]
  have shorter₂ := List.length_drop (i := 1) (l := left.dropWhile isBlank)
  refine bind_run_congr (ih.value (by omega) (by omega)) ?_
  intro val left₁ taken
  have shorter₃ := ((sound_at maxDepth fuel).value taken).shortens
  rw [skip_then, skip_then, peek_then, peek_then]
  have shorter₄ := skipped_length left₁
  split
  · rename_i comma
    obtain ⟨left₂, split⟩ := headD_eq (by decide) comma
    rw [split, List.length_cons] at shorter₄
    rw [split, advance_then, advance_then, List.drop_one, List.tail_cons]
    exact ih.members (by omega) (by omega)
  · rfl

theorem parseItems_covered {maxDepth : Int} {fuel fuel' : Nat} (ih : Covered maxDepth fuel) {depth : Int}
    {before : List JsonValue} {input : ByteString} (enough : 2 * input.length + 1 ≤ fuel)
    (enough' : 2 * input.length + 1 ≤ fuel') :
    (parseItems maxDepth (fuel + 1) depth before).run input =
      (parseItems maxDepth (fuel' + 1) depth before).run input := by
  rw [parseItems, parseItems]
  refine bind_run_congr (ih.value (by omega) (by omega)) ?_
  intro val left taken
  have shorter := ((sound_at maxDepth fuel).value taken).shortens
  rw [skip_then, skip_then, peek_then, peek_then]
  have shorter₁ := skipped_length left
  split
  · rename_i comma
    obtain ⟨left₁, split⟩ := headD_eq (by decide) comma
    rw [split, List.length_cons] at shorter₁
    rw [split, advance_then, advance_then, List.drop_one, List.tail_cons]
    exact ih.items (by omega) (by omega)
  · rfl

theorem covered (maxDepth : Int) (fuel : Nat) : Covered maxDepth fuel := by
  induction fuel with
  | zero =>
      refine ⟨?_, ?_, ?_⟩
      all_goals intros; omega
  | succ fuel ih =>
      refine ⟨?_, ?_, ?_⟩
      · intro fuel' depth input enough enough'
        obtain ⟨fuel', rfl⟩ : ∃ n, fuel' = n + 1 := ⟨fuel' - 1, by omega⟩
        exact parseValue_covered ih (by omega) (by omega)
      · intro fuel' depth before input enough enough'
        obtain ⟨fuel', rfl⟩ : ∃ n, fuel' = n + 1 := ⟨fuel' - 1, by omega⟩
        exact parseMembers_covered ih (by omega) (by omega)
      · intro fuel' depth before input enough enough'
        obtain ⟨fuel', rfl⟩ : ∃ n, fuel' = n + 1 := ⟨fuel' - 1, by omega⟩
        exact parseItems_covered ih (by omega) (by omega)

/-- The reader of a text says the same, trees and error texts, whatever more fuel it is given. -/
theorem parseText_fuel (input : ByteString) (maxDepth : Int) (more : Nat) :
    (parseText maxDepth (2 * input.length + 2 + more)).run input =
      (parseText maxDepth (2 * input.length + 2)).run input := by
  have shorter := skipped_length input
  unfold parseText
  rw [skip_then, skip_then]
  have read : (parseValue maxDepth (2 * input.length + 2 + more) 0).run (input.dropWhile isBlank) =
      (parseValue maxDepth (2 * input.length + 2) 0).run (input.dropWhile isBlank) :=
    (covered maxDepth _).value (by omega) (by omega)
  exact bind_run_congr read fun _ _ _ => rfl

example : parseJson "[[[1" 64 = .error "expected ',' or ']' in array" := rfl

/-! ## Completeness -/

/-- The white space that a value spells after its last token. -/
def trailing : Node → Ws
  | .emptyObject _ closing | .object _ _ closing | .emptyArray _ closing | .array _ _ closing => closing.after
  | _ => []

theorem skip_run {α : Type} (f : Unit → JsonReader α) (w : Ws) {rest : ByteString} (past : Past isBlank rest) :
    (skipWs >>= f).run (w.spell ++ rest) = (f ()).run rest := by
  rw [bind_of_ok (skipWs_run _), dropWhile_blank, past.dropWhile]

theorem peek_cons {α : Type} (f : UInt8 → JsonReader α) (c : UInt8) (rest : ByteString) :
    (peek >>= f).run (c :: rest) = (f c).run (c :: rest) := bind_of_ok (peek_run _)

theorem advance_cons {α : Type} (f : Unit → JsonReader α) (c : UInt8) (rest : ByteString) :
    (advance 1 >>= f).run (c :: rest) = (f ()).run rest := bind_of_ok (advance_run 1 _)

theorem enter_run {α : Type} (f : Unit → JsonReader α) {maxDepth depth : Int} (deep : 1 ≤ maxDepth - depth)
    (input : ByteString) : (enter maxDepth depth >>= f).run input = (f ()).run input := by
  refine bind_of_ok ?_
  unfold enter
  rw [if_neg (by omega)]
  rfl

theorem number_first (n : Number) : ∃ (c : UInt8) (left : ByteString), n.spell = c :: left ∧
    (c = 0x2D ∨ isDigit c = true) := by
  rw [number_spell]
  cases n.minus with
  | true => exact ⟨0x2D, _, rfl, Or.inl rfl⟩
  | false =>
      cases n.integer with
      | zero => exact ⟨0x30, _, rfl, Or.inr (by decide)⟩
      | positive first ds => exact ⟨_, _, rfl, Or.inr (positive_byte first).2.2⟩

-- the other bytes that a value may begin with, and those that may stand before one
def punctuation : List UInt8 := [0x7B, 0x5B, 0x22, 0x74, 0x66, 0x6E, 0x5D, 0x20, 0x09, 0x0A, 0x0D]

theorem numeric_ne {c : UInt8} (numeric : c = 0x2D ∨ isDigit c = true) {d : UInt8} (other : d ∈ punctuation) :
    c ≠ d := by
  rintro rfl
  rcases numeric with rfl | digit
  · revert other
    decide
  · obtain ⟨d, rfl⟩ := digit_of_isDigit digit
    revert d
    decide

theorem numeric_visible {c : UInt8} (numeric : c = 0x2D ∨ isDigit c = true) : isBlank c = false := by
  have ne := @numeric_ne c numeric
  simp [isBlank, ne (d := 0x20) (by decide), ne (d := 0x09) (by decide), ne (d := 0x0A) (by decide),
    ne (d := 0x0D) (by decide)]

theorem value_first (v : Node) : ∃ (w : Ws) (c : UInt8) (left : ByteString), v.spell = w.spell ++ c :: left ∧
    isBlank c = false ∧ c ≠ 0x5D := by
  cases v with
  | false => exact ⟨[], 0x66, _, rfl, by decide, by decide⟩
  | null => exact ⟨[], 0x6E, _, rfl, by decide, by decide⟩
  | true => exact ⟨[], 0x74, _, rfl, by decide, by decide⟩
  | emptyObject opening closing =>
      exact ⟨opening.before, 0x7B, _, by simp [Node.spell, Around.spell]; rfl, by decide, by decide⟩
  | object opening members closing =>
      exact ⟨opening.before, 0x7B, _, by simp [Node.spell, Around.spell]; rfl, by decide, by decide⟩
  | emptyArray opening closing =>
      exact ⟨opening.before, 0x5B, _, by simp [Node.spell, Around.spell]; rfl, by decide, by decide⟩
  | array opening items closing =>
      exact ⟨opening.before, 0x5B, _, by simp [Node.spell, Around.spell]; rfl, by decide, by decide⟩
  | string s => exact ⟨[], 0x22, _, by simp [Node.spell, spellString]; rfl, by decide, by decide⟩
  | number n =>
      obtain ⟨c, left, spelled, numeric⟩ := number_first n
      exact ⟨[], c, left, spelled, numeric_visible numeric, numeric_ne numeric (by decide)⟩

theorem items_first (items : Items) : ∃ (w : Ws) (c : UInt8) (left : ByteString), items.spell = w.spell ++ c :: left ∧
    isBlank c = false ∧ c ≠ 0x5D := by
  cases items with
  | one value => exact value_first value
  | more value comma items =>
      obtain ⟨w, c, left, spelled, visible, open_⟩ := value_first value
      exact ⟨w, c, _, by rw [Items.spell, spelled]; simp; rfl, visible, open_⟩

theorem past_around (a : Around) {c : UInt8} (other : continues c = false) (rest : ByteString) :
    Past continues (a.spell c ++ rest) := by
  have blank : ∀ b : Blank, continues b.byte = false := by
    intro b
    cases b <;> decide
  obtain ⟨before, after⟩ := a
  cases before with
  | nil => exact .cons other _
  | cons b before => exact .cons (blank b) _

theorem parseValue_run (maxDepth : Int) (fuel : Nat) (depth : Int) (w : Ws) {c : UInt8} (visible : isBlank c = false)
    (left : ByteString) : (parseValue maxDepth (fuel + 1) depth).run (w.spell ++ c :: left) =
      (if c = 0x7B then parseObject maxDepth depth (parseMembers maxDepth fuel depth [])
        else if c = 0x5B then parseArray maxDepth depth (parseItems maxDepth fuel depth [])
        else if c = 0x22 then return .string (← parseString)
        else if c = 0x74 ∨ c = 0x66 then parseBool
        else if c = 0x6E then parseNull
        else if c = 0x2D ∨ isDigit c then parseNumber
        else throw (ascii "unexpected character") : JsonReader JsonValue).run (c :: left) := by
  rw [parseValue, skip_run _ w (.cons visible left)]
  rfl

theorem parseValue_skips (maxDepth : Int) (fuel : Nat) (depth : Int) (w : Ws) {c : UInt8} (visible : isBlank c = false)
    (left : ByteString) : (parseValue maxDepth (fuel + 1) depth).run (w.spell ++ c :: left) =
      (parseValue maxDepth (fuel + 1) depth).run (c :: left) :=
  (parseValue_run maxDepth fuel depth w visible left).trans (parseValue_run maxDepth fuel depth [] visible left).symm

theorem parseItems_skips (maxDepth : Int) (fuel : Nat) (depth : Int) (before : List JsonValue) (w : Ws) {c : UInt8}
    (visible : isBlank c = false) (left : ByteString) :
    (parseItems maxDepth (fuel + 2) depth before).run (w.spell ++ c :: left) =
      (parseItems maxDepth (fuel + 2) depth before).run (c :: left) := by
  rw [parseItems, EStateM.run_bind, EStateM.run_bind, parseValue_skips _ _ _ w visible]

theorem bracketed_empty {maxDepth depth : Int} {closing : UInt8} {empty : JsonValue} (loop : JsonReader JsonValue)
    (deep : 1 ≤ maxDepth - depth) (opening : UInt8) (w : Ws) (visible : isBlank closing = false) (rest : ByteString) :
    (bracketed maxDepth depth closing empty loop).run (opening :: (w.spell ++ closing :: rest)) = .ok empty rest := by
  unfold bracketed
  rw [enter_run _ deep, advance_cons, skip_run _ w (.cons visible _), peek_cons, if_pos rfl]
  rfl

theorem bracketed_loop {maxDepth depth : Int} {closing : UInt8} {empty : JsonValue} (loop : JsonReader JsonValue)
    (deep : 1 ≤ maxDepth - depth) (opening : UInt8) (w : Ws) {c : UInt8} (visible : isBlank c = false)
    (other : c ≠ closing) (rest : ByteString) :
    (bracketed maxDepth depth closing empty loop).run (opening :: (w.spell ++ c :: rest)) = loop.run (c :: rest) := by
  unfold bracketed
  rw [enter_run _ deep, advance_cons, skip_run _ w (.cons visible _), peek_cons, if_neg other]

theorem parseObject_empty {maxDepth depth : Int} (loop : JsonReader JsonValue) (deep : 1 ≤ maxDepth - depth) (w : Ws)
    (rest : ByteString) :
    (parseObject maxDepth depth loop).run (0x7B :: (w.spell ++ 0x7D :: rest)) = .ok (.object []) rest :=
  bracketed_empty loop deep 0x7B w (by decide) rest

theorem parseArray_empty {maxDepth depth : Int} (loop : JsonReader JsonValue) (deep : 1 ≤ maxDepth - depth) (w : Ws)
    (rest : ByteString) :
    (parseArray maxDepth depth loop).run (0x5B :: (w.spell ++ 0x5D :: rest)) = .ok (.array []) rest :=
  bracketed_empty loop deep 0x5B w (by decide) rest

theorem parseObject_loop {maxDepth depth : Int} (loop : JsonReader JsonValue) (deep : 1 ≤ maxDepth - depth) (w : Ws)
    {c : UInt8} (visible : isBlank c = false) (other : c ≠ 0x7D) (rest : ByteString) :
    (parseObject maxDepth depth loop).run (0x7B :: (w.spell ++ c :: rest)) = loop.run (c :: rest) :=
  @bracketed_loop _ _ 0x7D (.object []) loop deep 0x7B w _ visible other rest

theorem parseArray_loop {maxDepth depth : Int} (loop : JsonReader JsonValue) (deep : 1 ≤ maxDepth - depth) (w : Ws)
    {c : UInt8} (visible : isBlank c = false) (other : c ≠ 0x5D) (rest : ByteString) :
    (parseArray maxDepth depth loop).run (0x5B :: (w.spell ++ c :: rest)) = loop.run (c :: rest) :=
  @bracketed_loop _ _ 0x5D (.array []) loop deep 0x5B w _ visible other rest

theorem around_spell (a : Around) (c : UInt8) (rest : ByteString) :
    a.spell c ++ rest = a.before.spell ++ c :: (a.after.spell ++ rest) := by simp [Around.spell]

theorem ws_append (w w' : Ws) (rest : ByteString) : w.spell ++ (w'.spell ++ rest) = (w ++ w' : Ws).spell ++ rest := by
  simp [Ws.spell]

theorem string_first (name : List Chr) (rest : ByteString) :
    ∃ left, spellString name ++ rest = 0x22 :: left := ⟨name.flatMap Chr.spell ++ [0x22] ++ rest, by simp [spellString]⟩

theorem members_first (ms : Members) (rest : ByteString) : ∃ left, ms.spell ++ rest = 0x22 :: left := by
  cases ms with
  | one name colon value =>
      rw [Members.spell, List.append_assoc, List.append_assoc]
      exact string_first name _
  | more name colon value comma members =>
      simp only [Members.spell, List.append_assoc]
      exact string_first name _

-- what `parseMembers` does once it has a member
def afterMember (maxDepth : Int) (fuel : Nat) (depth : Int) (members : List (ByteString × JsonValue)) :
    JsonReader JsonValue := do
  skipWs
  let c ← peek
  if c = 0x2C then do
    advance 1
    parseMembers maxDepth fuel depth members
  else if c = 0x7D then do
    advance 1
    return .object members
  else throw (ascii "expected ',' or '\x7d' in object")

theorem member_run {maxDepth depth : Int} {fuel : Nat} {before : List (ByteString × JsonValue)} {name : List Chr}
    (pairs : paired name = true) (fresh : decoded name ∉ before.map Prod.fst) (w : Ws) (colon : Around) {v : Node}
    {tail left : ByteString}
    (read : (parseValue maxDepth fuel (depth + 1)).run (colon.after.spell ++ (v.spell ++ tail)) = .ok v.denotes left) :
    (parseMembers maxDepth (fuel + 1) depth before).run
        (w.spell ++ (spellString name ++ (colon.spell 0x3A ++ (v.spell ++ tail)))) =
      (afterMember maxDepth fuel depth (before ++ [(decoded name, v.denotes)])).run left := by
  have unused : ¬ (before.any fun m => m.1 == decoded name) = true := by
    intro used
    obtain ⟨m, member, same⟩ := List.any_eq_true.mp used
    exact fresh (List.mem_map.mpr ⟨m, member, by simpa using same⟩)
  obtain ⟨opened, spelled⟩ := string_first name (colon.spell 0x3A ++ (v.spell ++ tail))
  have key := parseString_complete pairs (colon.spell 0x3A ++ (v.spell ++ tail))
  rw [spelled] at key
  rw [parseMembers, spelled, skip_run _ w (.cons (by decide) _), peek_cons, if_neg (by decide), bind_of_ok key,
    if_neg unused, around_spell, skip_run _ colon.before (.cons (by decide) _), peek_cons, if_neg (by decide),
    advance_cons, bind_of_ok read]
  rfl

theorem afterMember_comma (maxDepth : Int) (fuel : Nat) (depth : Int) (members : List (ByteString × JsonValue))
    (w : Ws) (comma : Around) (rest : ByteString) :
    (afterMember maxDepth fuel depth members).run (w.spell ++ (comma.spell 0x2C ++ rest)) =
      (parseMembers maxDepth fuel depth members).run (comma.after.spell ++ rest) := by
  unfold afterMember
  rw [around_spell, ws_append, skip_run _ _ (.cons (by decide) _), peek_cons, if_pos rfl, advance_cons]

theorem afterMember_close (maxDepth : Int) (fuel : Nat) (depth : Int) (members : List (ByteString × JsonValue))
    (w : Ws) (closing : Around) (rest : ByteString) :
    (afterMember maxDepth fuel depth members).run (w.spell ++ (closing.spell 0x7D ++ rest)) =
      .ok (.object members) (closing.after.spell ++ rest) := by
  unfold afterMember
  rw [around_spell, ws_append, skip_run _ _ (.cons (by decide) _), peek_cons, if_neg (by decide), if_pos rfl,
    advance_cons]
  rfl

def afterItem (maxDepth : Int) (fuel : Nat) (depth : Int) (items : List JsonValue) : JsonReader JsonValue := do
  skipWs
  let c ← peek
  if c = 0x2C then do
    advance 1
    parseItems maxDepth fuel depth items
  else if c = 0x5D then do
    advance 1
    return .array items
  else throw (ascii "expected ',' or ']' in array")

theorem item_run {maxDepth depth : Int} {fuel : Nat} {before : List JsonValue} {input left : ByteString}
    {tree : JsonValue} (read : (parseValue maxDepth fuel (depth + 1)).run input = .ok tree left) :
    (parseItems maxDepth (fuel + 1) depth before).run input =
      (afterItem maxDepth fuel depth (before ++ [tree])).run left := by
  rw [parseItems, bind_of_ok read]
  rfl

theorem afterItem_comma (maxDepth : Int) (fuel : Nat) (depth : Int) (items : List JsonValue) (w : Ws)
    (comma : Around) (rest : ByteString) :
    (afterItem maxDepth fuel depth items).run (w.spell ++ (comma.spell 0x2C ++ rest)) =
      (parseItems maxDepth fuel depth items).run (comma.after.spell ++ rest) := by
  unfold afterItem
  rw [around_spell, ws_append, skip_run _ _ (.cons (by decide) _), peek_cons, if_pos rfl, advance_cons]

theorem afterItem_close (maxDepth : Int) (fuel : Nat) (depth : Int) (items : List JsonValue) (w : Ws)
    (closing : Around) (rest : ByteString) :
    (afterItem maxDepth fuel depth items).run (w.spell ++ (closing.spell 0x5D ++ rest)) =
      .ok (.array items) (closing.after.spell ++ rest) := by
  unfold afterItem
  rw [around_spell, ws_append, skip_run _ _ (.cons (by decide) _), peek_cons, if_neg (by decide), if_pos rfl,
    advance_cons]
  rfl

mutual

theorem parseValue_complete (maxDepth : Int) : ∀ (v : Node) (fuel : Nat) (depth : Int) (w : Ws) (rest : ByteString),
    v.spell.length < fuel → Fine (maxDepth - depth) v → Past continues rest →
    (parseValue maxDepth fuel depth).run (w.spell ++ (v.spell ++ rest)) = .ok v.denotes ((trailing v).spell ++ rest)
  | v, 0, _, _, _, enough, _, _ => absurd enough (Nat.not_lt_zero _)
  | .false, fuel + 1, depth, w, rest, _, _, _ => by
      rw [show Node.spell .false ++ rest = 0x66 :: (ascii "alse" ++ rest) from rfl,
        parseValue_run _ _ _ w (by decide)]
      rfl
  | .null, fuel + 1, depth, w, rest, _, _, _ => by
      rw [show Node.spell .null ++ rest = 0x6E :: (ascii "ull" ++ rest) from rfl,
        parseValue_run _ _ _ w (by decide)]
      rfl
  | .true, fuel + 1, depth, w, rest, _, _, _ => by
      rw [show Node.spell .true ++ rest = 0x74 :: (ascii "rue" ++ rest) from rfl,
        parseValue_run _ _ _ w (by decide)]
      rfl
  | .number n, fuel + 1, depth, w, rest, _, _, past => by
      obtain ⟨c, left, spelled, numeric⟩ := number_first n
      have whole : Node.spell (.number n) ++ rest = c :: (left ++ rest) := by
        rw [Node.spell, spelled]
        rfl
      have ne := @numeric_ne c numeric
      rw [whole, parseValue_run _ _ _ w (numeric_visible numeric), if_neg (ne (d := 0x7B) (by decide)),
        if_neg (ne (d := 0x5B) (by decide)), if_neg (ne (d := 0x22) (by decide)),
        if_neg (not_or.mpr ⟨ne (d := 0x74) (by decide), ne (d := 0x66) (by decide)⟩),
        if_neg (ne (d := 0x6E) (by decide)), if_pos numeric, ← whole]
      exact parseNumber_complete n past
  | .string s, fuel + 1, depth, w, rest, _, fine, _ => by
      have read := parseString_complete (s := s) fine.paired rest
      have whole : Node.spell (.string s) ++ rest = 0x22 :: (s.flatMap Chr.spell ++ [0x22] ++ rest) := by
        simp [Node.spell, spellString]
      have opened : spellString s ++ rest = 0x22 :: (s.flatMap Chr.spell ++ [0x22] ++ rest) := whole
      rw [opened] at read
      rw [whole, parseValue_run _ _ _ w (by decide), if_neg (by decide), if_neg (by decide), if_pos rfl,
        bind_of_ok read]
      rfl
  | .emptyObject opening closing, fuel + 1, depth, w, rest, _, fine, _ => by
      have deep : 1 ≤ maxDepth - depth := by simpa [Node.nests] using fine.nests
      rw [Node.spell, List.append_assoc, around_spell, around_spell, ws_append, parseValue_run _ _ _ _ (by decide),
        if_pos rfl, ws_append, parseObject_empty _ deep]
      rfl
  | .emptyArray opening closing, fuel + 1, depth, w, rest, _, fine, _ => by
      have deep : 1 ≤ maxDepth - depth := by simpa [Node.nests] using fine.nests
      rw [Node.spell, List.append_assoc, around_spell, around_spell, ws_append, parseValue_run _ _ _ _ (by decide),
        if_neg (by decide), if_pos rfl, ws_append, parseArray_empty _ deep]
      rfl
  | .object opening members closing, fuel + 1, depth, w, rest, enough, fine, _ => by
      have nests := fine.nests
      have distinct := fine.distinct
      simp only [Node.nests, Node.distinct, Bool.and_eq_true, decide_eq_true_eq] at nests distinct
      simp only [Node.spell, Around.spell, List.length_append, List.length_singleton] at enough
      obtain ⟨left, spelled⟩ := members_first members (closing.spell 0x7D ++ rest)
      rw [Node.spell, List.append_assoc, List.append_assoc, around_spell, ws_append,
        parseValue_run _ _ _ _ (by decide), if_pos rfl, spelled, parseObject_loop _ nests.1 _ (by decide) (by decide),
        ← spelled]
      exact parseMembers_complete maxDepth members fuel depth [] [] closing rest (by omega) ⟨nests.2, distinct.2, fine.paired⟩
        (by simpa using distinct.1)
  | .array opening items closing, fuel + 1, depth, w, rest, enough, fine, _ => by
      have nests := fine.nests
      simp only [Node.nests, Bool.and_eq_true, decide_eq_true_eq] at nests
      simp only [Node.spell, Around.spell, List.length_append, List.length_singleton] at enough
      obtain ⟨w', c, left, spelled, visible, open_⟩ := items_first items
      have whole : items.spell ++ (closing.spell 0x5D ++ rest) =
          w'.spell ++ c :: (left ++ (closing.spell 0x5D ++ rest)) := by
        rw [spelled, List.append_assoc]
        rfl
      obtain ⟨more, rfl⟩ : ∃ more, fuel = more + 2 := ⟨fuel - 2, by omega⟩
      rw [Node.spell, List.append_assoc, List.append_assoc, around_spell, ws_append,
        parseValue_run _ _ _ _ (by decide), if_neg (by decide), if_pos rfl, whole, ws_append opening.after,
        parseArray_loop _ nests.1 _ visible open_, ← parseItems_skips _ _ _ _ w' visible, ← whole]
      exact parseItems_complete maxDepth items _ depth [] [] closing rest (by omega) ⟨nests.2, fine.distinct, fine.paired⟩

theorem parseMembers_complete (maxDepth : Int) : ∀ (ms : Members) (fuel : Nat) (depth : Int)
    (before : List (ByteString × JsonValue)) (w : Ws) (closing : Around) (rest : ByteString),
    ms.spell.length + 1 < fuel → FineMembers (maxDepth - depth - 1) ms → (before.map Prod.fst ++ ms.names).Nodup →
    (parseMembers maxDepth fuel depth before).run (w.spell ++ (ms.spell ++ (closing.spell 0x7D ++ rest))) =
      .ok (.object (before ++ ms.denotes)) (closing.after.spell ++ rest)
  | _, 0, _, _, _, _, _, enough, _, _ => absurd enough (Nat.not_lt_zero _)
  | .one name colon value, fuel + 1, depth, before, w, closing, rest, enough, fine, apart => by
      have paired := fine.paired
      simp only [Members.paired, Bool.and_eq_true] at paired
      simp only [Members.spell, List.length_append] at enough
      have depths : maxDepth - (depth + 1) = maxDepth - depth - 1 := by omega
      have fresh : decoded name ∉ before.map Prod.fst := by
        have disjoint := (List.nodup_append.mp apart).2.2
        intro used
        exact disjoint _ used _ (by simp [Members.names]) rfl
      have fine : Fine (maxDepth - (depth + 1)) value := by
        rw [depths]
        exact ⟨fine.nest, fine.distinct, paired.2⟩
      have read := parseValue_complete maxDepth value fuel (depth + 1) colon.after (closing.spell 0x7D ++ rest)
        (by omega) fine (past_around closing (by decide) rest)
      simp only [Members.spell, List.append_assoc]
      rw [member_run paired.1 fresh w colon read, afterMember_close]
      rfl
  | .more name colon value comma members, fuel + 1, depth, before, w, closing, rest, enough, fine, apart => by
      have nest := fine.nest
      have distinct := fine.distinct
      have paired := fine.paired
      simp only [Members.nest, Members.distinct, Members.paired, Bool.and_eq_true] at nest distinct paired
      simp only [Members.spell, Around.spell, List.length_append, List.length_singleton] at enough
      have depths : maxDepth - (depth + 1) = maxDepth - depth - 1 := by omega
      have fresh : decoded name ∉ before.map Prod.fst := by
        have disjoint := (List.nodup_append.mp apart).2.2
        intro used
        exact disjoint _ used _ (by simp [Members.names]) rfl
      have fine : Fine (maxDepth - (depth + 1)) value := by
        rw [depths]
        exact ⟨nest.1, distinct.1, paired.1.2⟩
      have apart : ((before ++ [(decoded name, value.denotes)]).map Prod.fst ++ members.names).Nodup := by
        simpa [Members.names] using apart
      have read := parseValue_complete maxDepth value fuel (depth + 1) colon.after
        (comma.spell 0x2C ++ (members.spell ++ (closing.spell 0x7D ++ rest))) (by omega) fine
        (past_around comma (by decide) _)
      have others := parseMembers_complete maxDepth members fuel depth _ comma.after closing rest (by omega)
        ⟨nest.2, distinct.2, paired.2⟩ apart
      simp only [Members.spell, List.append_assoc]
      rw [member_run paired.1.1 fresh w colon read, afterMember_comma, others]
      simp [Members.denotes]

theorem parseItems_complete (maxDepth : Int) : ∀ (items : Items) (fuel : Nat) (depth : Int)
    (before : List JsonValue) (w : Ws) (closing : Around) (rest : ByteString),
    items.spell.length + 1 < fuel → FineItems (maxDepth - depth - 1) items →
    (parseItems maxDepth fuel depth before).run (w.spell ++ (items.spell ++ (closing.spell 0x5D ++ rest))) =
      .ok (.array (before ++ items.denotes)) (closing.after.spell ++ rest)
  | _, 0, _, _, _, _, _, enough, _ => absurd enough (Nat.not_lt_zero _)
  | .one value, fuel + 1, depth, before, w, closing, rest, enough, fine => by
      simp only [Items.spell] at enough
      have depths : maxDepth - (depth + 1) = maxDepth - depth - 1 := by omega
      have fine : Fine (maxDepth - (depth + 1)) value := by
        rw [depths]
        exact ⟨fine.nest, fine.distinct, fine.paired⟩
      have read := parseValue_complete maxDepth value fuel (depth + 1) w (closing.spell 0x5D ++ rest) (by omega) fine
        (past_around closing (by decide) rest)
      rw [Items.spell, item_run read, afterItem_close]
      rfl
  | .more value comma items, fuel + 1, depth, before, w, closing, rest, enough, fine => by
      have nest := fine.nest
      have distinct := fine.distinct
      have paired := fine.paired
      simp only [Items.nest, Items.distinct, Items.paired, Bool.and_eq_true] at nest distinct paired
      simp only [Items.spell, Around.spell, List.length_append, List.length_singleton] at enough
      have depths : maxDepth - (depth + 1) = maxDepth - depth - 1 := by omega
      have fine : Fine (maxDepth - (depth + 1)) value := by
        rw [depths]
        exact ⟨nest.1, distinct.1, paired.1⟩
      have read := parseValue_complete maxDepth value fuel (depth + 1) w
        (comma.spell 0x2C ++ (items.spell ++ (closing.spell 0x5D ++ rest))) (by omega) fine
        (past_around comma (by decide) _)
      have others := parseItems_complete maxDepth items fuel depth (before ++ [value.denotes]) comma.after closing rest
        (by omega) ⟨nest.2, distinct.2, paired.2⟩
      simp only [Items.spell, List.append_assoc]
      rw [item_run read, afterItem_comma, others]
      simp [Items.denotes]

end

/-! ## Texts -/

theorem past_blank (w : Ws) : Past continues w.spell := by
  cases w with
  | nil => exact .nil _
  | cons b w =>
      refine .cons ?_ _
      cases b <;> decide

theorem parseJson_sound {input : ByteString} {maxDepth : Int} {tree : JsonValue}
    (h : parseJson input maxDepth = .ok tree) :
    ∃ text : Text, text.spell = input ∧ Fine maxDepth text.value ∧ text.value.denotes = tree := by
  unfold parseJson parseText at h
  split at h
  · rename_i v rest run
    cases h
    obtain ⟨w, mid, split, _, run⟩ := skip_bind run
    obtain ⟨_, _, read, run⟩ := bind_eq_ok.mp run
    obtain ⟨w₁, v, taken, fine, rfl⟩ := (sound_at maxDepth _).value read
    obtain ⟨w₂, left, rfl, _, run⟩ := skip_bind run
    obtain ⟨_, _, ⟨⟩, run⟩ := bind_eq_ok.mp run
    split at run
    · cases run
    · rename_i ended
      obtain ⟨rfl, rfl⟩ := pure_eq_ok.mp run
      have ended := Decidable.not_not.mp ended
      refine ⟨⟨w ++ w₁, v, w₂⟩, ?_, by simpa using fine, rfl⟩
      rw [split, taken, ended]
      simp [Text.spell, Ws.spell]
  · cases h

theorem parseJson_complete {maxDepth : Int} (text : Text) (fine : Fine maxDepth text.value) :
    parseJson text.spell maxDepth = .ok text.value.denotes := by
  obtain ⟨before, value, after⟩ := text
  obtain ⟨w, c, left, spelled, visible, _⟩ := value_first value
  have whole : Text.spell ⟨before, value, after⟩ = (before ++ w : Ws).spell ++ c :: (left ++ after.spell) := by
    simp [Text.spell, spelled, Ws.spell]
  have enough : value.spell.length < 2 * (Text.spell ⟨before, value, after⟩).length + 2 := by
    simp only [Text.spell, List.length_append]
    omega
  have fine : Fine (maxDepth - 0) value := by simpa using fine
  have read := parseValue_complete maxDepth value _ 0 [] after.spell enough fine (past_blank after)
  have rest : ∀ v : JsonValue, (do
      skipWs
      if (← get) ≠ [] then throw (ascii "trailing characters after JSON value") else return v :
        JsonReader JsonValue).run ((trailing value).spell ++ after.spell) = .ok v [] := by
    intro v
    rw [show (trailing value).spell ++ after.spell = (trailing value ++ after : Ws).spell ++ [] by simp [Ws.spell],
      skip_run _ _ (.nil _)]
    rfl
  have begun : Ws.spell [] ++ (value.spell ++ after.spell) = w.spell ++ c :: (left ++ after.spell) := by
    rw [spelled, List.append_assoc]
    rfl
  rw [begun, parseValue_skips _ _ _ w visible] at read
  unfold parseJson parseText
  rw [whole, skip_run _ _ (.cons visible _), ← whole, bind_of_ok read, rest]

/-- The reader accepts the texts of the grammar whose containers do not nest too deep, in which no object
repeats a name and every surrogate is one of a pair, and gives the tree that the grammar denotes. -/
theorem parseJson_accepts_its_language (input : ByteString) (maxDepth : Int) (tree : JsonValue) :
    parseJson input maxDepth = .ok tree ↔ ∃ text : Text, text.spell = input ∧ text.value.nests maxDepth = true ∧
      text.value.distinct = true ∧ text.value.paired = true ∧ text.value.denotes = tree := by
  constructor
  · intro accepted
    obtain ⟨text, spelled, fine, denotes⟩ := parseJson_sound accepted
    exact ⟨text, spelled, fine.nests, fine.distinct, fine.paired, denotes⟩
  · rintro ⟨text, rfl, nests, distinct, pairs, rfl⟩
    exact parseJson_complete text ⟨nests, distinct, pairs⟩

end Zen.Proof
