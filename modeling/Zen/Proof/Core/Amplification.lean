import Zen.Proof.Core.Canonical
import Zen.Proof.Core.Conform
import Zen.Proof.Core.Wire
import Zen.Spec.Amplification

/-!
# What the native decoder builds is paid for

Every cell costs a byte: a leaf and a list have their own, a nested value has its presence mask, which is
empty only where its schema has no fields.
-/

namespace Zen.Proof
open Lib BinReader

/-! ## What the binary primitives take -/

theorem uvarint_takes : Takes 1 uvarint := by
  intro input
  obtain ⟨n, _, stop⟩ := uvarint_ended input
  cases ran : uvarint.run input with
  | ok v rest =>
      have bytes := uvarint_ok.mp ran
      have some := List.length_pos_of_ne_nil (putUvarint_ne_nil v.toNat)
      exact ⟨putUvarint v.toNat, bytes, by simpa using Nat.succ_le_of_lt some⟩
  | error e rest =>
      rw [ran] at stop
      have stop : rest = input.drop n := stop
      exact ⟨input.take n, by simp [stop], Nat.zero_le _⟩

theorem zigzag_takes : Takes 1 zigzag := uvarint_takes.bind fun zz => Pays.pure (unzigzag zz)

theorem take_takes (count : Nat) : Takes count (BinReader.take count) := by
  intro input
  simp only [BinReader.take, EStateM.run]
  split
  · rename_i ran
    split at ran
    · cases ran
    · cases ran
      exact ⟨input.take count, by simp, by simp; omega⟩
  · rename_i ran
    split at ran
    · cases ran
      exact ⟨[], rfl, Nat.le_refl _⟩
    · cases ran

theorem f64le_takes : Takes 1 f64le := by
  have word : Takes 8 u64le := (take_takes 8).bind fun s => Pays.pure (UInt64.ofNat (readLe s))
  have checked := word.bind fun bits => Pays.guard (c := (isNaN bits && bits != kCanonicalNaNBits) = true)
    (fun _ => Pays.throw 0 ()) fun _ => Pays.pure bits
  exact checked.mono (by omega)

theorem u8_takes : Takes 1 u8 := by
  intro input
  cases input with
  | nil => exact ⟨[], rfl, Nat.le_refl _⟩
  | cons b tail => exact ⟨[b], rfl, Nat.le_refl _⟩

end Zen.Proof

namespace Zen.Raw.BinaryDecoder
open Lib Zen.Proof

theorem presence_takes (n : Nat) (base : ByteString) : Takes (maskBytes n) (presence n base) := by
  have mask := (take_takes (maskBytes n)).orThrow
    (Error.mk .malformedBytes base [] "binary" "truncated presence bitmask")
  apply mask.bind (j := 0)
  intro mask
  exact Pays.guard (fun _ => Pays.throw 0 _) fun _ => Pays.pure mask

theorem octets_takes (path expected : ByteString) : Takes 1 (octets path expected) := by
  have length := uvarint_takes.orThrow
    (Error.mk .malformedField path expected "binary" "truncated or non-minimal length")
  apply length.bind (j := 0)
  intro len input
  simp only [EStateM.run]
  split
  · rename_i ran
    split at ran
    · cases ran
    · cases ran
      exact ⟨input.take len.toNat, by simp, Nat.zero_le _⟩
  · rename_i ran
    split at ran
    · cases ran
      exact ⟨[], rfl, Nat.le_refl _⟩
    · cases ran

theorem takes_within {m : Decoder Cell} {path : ByteString} {depth : Nat} (takes : Takes 1 m) :
    Takes 1 (if depth > kMaxBinaryDepth then fail .malformedBytes path [] "maximum nesting depth exceeded" else m) :=
  Pays.guard (fun _ => Pays.throw 1 _) fun _ => takes

theorem leaf_takes {t : TypeRef} (leaf : t.kind ≠ .message ∧ t.kind ≠ .list) (path : ByteString) (depth : Nat) :
    Takes 1 (value t path depth) := by
  cases t with
  | int =>
      rw [value]
      exact takes_within ((zigzag_takes.orThrow _).bind (j := 0) fun v => Pays.pure _)
  | float =>
      rw [value]
      exact takes_within ((f64le_takes.orThrow _).bind (j := 0) fun bits => Pays.pure _)
  | text =>
      rw [value]
      exact takes_within ((octets_takes path _).bind (j := 0)
        fun s => Pays.guard (fun _ => Pays.pure _) fun _ => Pays.throw 0 _)
  | bool =>
      rw [value]
      exact takes_within ((u8_takes.orThrow _).bind (j := 0)
        fun b => Pays.guard (fun _ => Pays.throw 0 _) fun _ => Pays.pure _)
  | bytes =>
      rw [value]
      exact takes_within ((octets_takes path _).bind (j := 0) fun s => Pays.pure _)
  | message schema => exact absurd rfl leaf.1
  | list element => exact absurd rfl leaf.2

/-! ## The account changes no result -/

theorem leaf_erases (t : TypeRef) (path : ByteString) (depth : Nat) :
    Erases (if depth > kMaxBinaryDepth then Audited.of (fail .malformedBytes path [] "maximum nesting depth exceeded")
      else Audited.booking (· + 1) (Audited.of (value t path depth))) (value t path depth) := by
  split
  · rename_i deep
    have refused : value t path depth = fail .malformedBytes path [] "maximum nesting depth exceeded" := by
      cases t <;> rw [value, if_pos deep]
    rw [refused]
    exact Erases.of _
  · exact Erases.booking _ (Erases.of _)

theorem countedFields_erases {fields : List Field}
    (each : ∀ f ∈ fields, ∀ path depth, Erases (countedValue f.type path depth) (value f.type path depth))
    (mask : ByteString) (i : Nat) (out : Value) (base : ByteString) (depth : Nat) :
    Erases (countedFields fields mask i out base depth) (bodyFields fields mask i out base depth) := by
  induction fields generalizing i out with
  | nil =>
      rw [countedFields, bodyFields]
      exact Erases.pure out
  | cons f fields ih =>
      obtain ⟨name, type, required⟩ := f
      have others := ih fun g hg => each g (List.mem_cons_of_mem _ hg)
      rw [countedFields, bodyFields]
      apply Erases.guard
      · exact (each ⟨name, type, required⟩ (by simp) _ _).bind fun c => others _ _
      · exact others _ _

theorem countedBody_erases {schema : Schema}
    (each : ∀ f ∈ schema.fields, ∀ path depth, Erases (countedValue f.type path depth) (value f.type path depth))
    (out : Value) (base : ByteString) (depth : Nat) :
    Erases (countedBody schema out base depth) (body schema out base depth) := by
  obtain ⟨name, version, fields⟩ := schema
  rw [countedBody, body]
  apply Erases.guard (Erases.of _)
  exact (Erases.of _).bind fun mask => countedFields_erases each mask 0 out base depth

theorem countedValue_erases (t : TypeRef) (path : ByteString) (depth : Nat) :
    Erases (countedValue t path depth) (value t path depth) := by
  induction t generalizing path depth with
  | int | float | text | bool | bytes =>
      rw [countedValue]
      exact leaf_erases _ path depth
  | message schema ih =>
      rw [countedValue, value]
      apply Erases.guard (Erases.of _)
      apply Erases.booking
      exact (countedBody_erases ih _ path (depth + 1)).bind fun v => Erases.pure (Cell.message v)
  | list element ih =>
      rw [countedValue, value]
      apply Erases.guard (Erases.of _)
      apply Erases.booking
      apply (Erases.of _).bind
      intro count
      apply Erases.guard (Erases.of _)
      exact (Erases.each (fun k => ih (indexPath path k) (depth + 1)) count.toNat 0).bind fun cells => Erases.pure (Cell.list cells)

/-! ## Every cell is paid for -/

theorem leaf_pays {t : TypeRef} (leaf : t.kind ≠ .message ∧ t.kind ≠ .list) (path : ByteString) (depth : Nat) :
    Balanced 0 (if depth > kMaxBinaryDepth then Audited.of (fail .malformedBytes path [] "maximum nesting depth exceeded")
      else Audited.booking (· + 1) (Audited.of (value t path depth))) := by
  apply Pays.guard
  · exact fun _ => Balanced.of (Pays.throw 0 _)
  · exact fun _ => Balanced.spend (Balanced.of (leaf_takes leaf path depth))

theorem countedFields_pays {fields : List Field} (each : ∀ f ∈ fields, ∀ path depth, Balanced 0 (countedValue f.type path depth))
    (mask : ByteString) (i : Nat) (out : Value) (base : ByteString) (depth : Nat) :
    Balanced 0 (countedFields fields mask i out base depth) := by
  induction fields generalizing i out with
  | nil =>
      rw [countedFields]
      exact Pays.pure out
  | cons f fields ih =>
      obtain ⟨name, type, required⟩ := f
      have others := ih fun g hg => each g (List.mem_cons_of_mem _ hg)
      rw [countedFields]
      apply Pays.guard
      · exact fun _ => (each ⟨name, type, required⟩ (by simp) _ _).bind fun c => others _ _
      · exact fun _ => others _ _

theorem countedBody_pays {schema : Schema} (each : ∀ f ∈ schema.fields, ∀ path depth, Balanced 0 (countedValue f.type path depth))
    (out : Value) (base : ByteString) (depth : Nat) :
    Balanced (maskBytes schema.fields.length) (countedBody schema out base depth) := by
  obtain ⟨name, version, fields⟩ := schema
  rw [countedBody]
  apply Pays.guard
  · exact fun _ => Balanced.of (Pays.throw _ _)
  · exact fun _ => (Balanced.of (presence_takes fields.length base)).bind
      fun mask => countedFields_pays each mask 0 out base depth

theorem countedValue_pays {t : TypeRef} (full : ∀ s ∈ t.schemas, s.fields ≠ []) (path : ByteString) (depth : Nat) :
    Balanced 0 (countedValue t path depth) := by
  induction t generalizing path depth with
  | int | float | text | bool | bytes =>
      rw [countedValue]
      exact leaf_pays (by decide) path depth
  | message schema ih =>
      rw [TypeRef.schemas, Schema.schemas_eq] at full
      obtain ⟨here, below⟩ := List.forall_mem_cons.mp full
      have each := fun f hf => ih f hf fun s hs => below s (mem_fieldSchemas hf hs)
      have some : 1 ≤ maskBytes schema.fields.length := by
        have := List.length_pos_of_ne_nil here
        unfold maskBytes
        omega
      rw [countedValue]
      apply Pays.guard
      · exact fun _ => Balanced.of (Pays.throw 0 _)
      · intro _
        have nested := (countedBody_pays each (Value.empty schema) path (depth + 1)).mono some
        exact Balanced.spend (nested.bind fun v => Pays.pure (Cell.message v))
  | list element ih =>
      rw [TypeRef.schemas] at full
      rw [countedValue]
      apply Pays.guard
      · exact fun _ => Balanced.of (Pays.throw 0 _)
      · intro _
        apply Balanced.spend
        apply (Balanced.of (uvarint_takes.orThrow _)).bind (j := 0)
        intro count
        apply Pays.guard
        · exact fun _ => Balanced.of (Pays.throw 0 _)
        · exact fun _ => (Balanced.each (fun k => ih full (indexPath path k) (depth + 1)) count.toNat 0).bind
            fun cells => Pays.pure (Cell.list cells)

/-! ## The account is the size of what is decoded -/

theorem slotsCells_append (slots more : List (Option Cell)) :
    slotsCells (slots ++ more) = slotsCells slots + slotsCells more := by
  induction slots with
  | nil => simp [slotsCells]
  | cons slot slots ih => cases slot <;> simp [slotsCells, ih, Nat.add_assoc]

theorem slotsCells_unset (n : Nat) : slotsCells (List.replicate n none) = 0 := by
  induction n with
  | zero => rfl
  | succ n ih => rw [List.replicate_succ, slotsCells, ih]

theorem cellsCells_eq (cells : List Cell) : cellsCells cells = (cells.map Cell.cells).sum := by
  induction cells with
  | nil => rfl
  | cons c cells ih => rw [cellsCells, ih, List.map_cons, List.sum_cons]

theorem leaf_cells {t : TypeRef} (leaf : t.kind ≠ .message ∧ t.kind ≠ .list) {path : ByteString} {depth : Nat}
    {input rest : ByteString} {c : Cell} (h : (value t path depth).run input = .ok c rest) : c.cells = 1 := by
  cases t with
  | int | float | bytes =>
      rw [value] at h
      split at h
      · cases h
      · obtain ⟨_, _, _, h⟩ := bind_eq_ok.mp h
        obtain ⟨rfl, _⟩ := pure_eq_ok.mp h
        rfl
  | text | bool =>
      rw [value] at h
      split at h
      · cases h
      · obtain ⟨_, _, _, h⟩ := bind_eq_ok.mp h
        split at h <;> cases h
        rfl
  | message schema => exact absurd rfl leaf.1
  | list element => exact absurd rfl leaf.2

theorem countedFields_books {schema : Schema} (nodup : (schema.fields.map Field.name).Nodup) {before fields : List Field}
    (split : schema.fields = before ++ fields) {done : List (Option Cell)} (aligned : done.length = before.length)
    {mask base : ByteString} {depth : Nat} (each : ∀ f ∈ fields, ∀ path depth, Books Cell.cells (countedValue f.type path depth))
    {s s' : ByteString × Nat} {v : Value} (h : (countedFields fields mask before.length
      ⟨schema, done ++ List.replicate fields.length none⟩ base depth).run s = .ok v s') :
    s'.2 + slotsCells done = s.2 + v.cells := by
  induction fields generalizing before done s with
  | nil =>
      rw [countedFields] at h
      cases h
      rw [Value.cells, slotsCells_append, List.length_nil, slotsCells_unset, Nat.add_zero]
  | cons f fields ih =>
      have split' : schema.fields = (before ++ [f]) ++ fields := by simp [split]
      have others := fun g hg => each g (List.mem_cons_of_mem f hg)
      obtain ⟨name, type, required⟩ := f
      rw [countedFields, List.length_cons] at h
      split at h
      · obtain ⟨c, mid, first, h⟩ := Audited.bind_ok h
        have booked := each ⟨name, type, required⟩ (by simp) _ _ s c mid first
        rw [set_next nodup split aligned, Option.getD_some] at h
        have aligned' : (done ++ [some c]).length = (before ++ [Field.mk name type required]).length := by simp [aligned]
        have later := ih split' aligned' others (s := mid) (by simpa using h)
        rw [slotsCells_append] at later
        simp only [slotsCells] at later
        omega
      · have aligned' : (done ++ [none]).length = (before ++ [Field.mk name type required]).length := by simp [aligned]
        have later := ih split' aligned' others (s := s) (by simpa [List.replicate_succ] using h)
        rw [slotsCells_append] at later
        simpa [slotsCells] using later

theorem countedBody_books {schema : Schema} (wf : schema.wf)
    (each : ∀ f ∈ schema.fields, ∀ path depth, Books Cell.cells (countedValue f.type path depth)) (base : ByteString)
    (depth : Nat) : Books Value.cells (countedBody schema (Value.empty schema) base depth) := by
  have nodup := (Schema.wf_iff.mp wf).2.1
  obtain ⟨name, version, fields⟩ := schema
  rw [countedBody]
  apply Books.guard
  · exact Books.of fun _ _ _ refused => by cases refused
  · apply Books.after
    intro mask s v s' h
    exact @countedFields_books ⟨name, version, fields⟩ nodup [] fields rfl [] rfl mask base depth each s s' v h

theorem cells_pos (c : Cell) : 0 < c.cells := by
  cases c <;> simp [Cell.cells]

theorem books_within {m : Counted Cell} {path : ByteString} {depth : Nat} (below : Books (fun c => c.cells - 1) m) :
    Books Cell.cells (if depth > kMaxBinaryDepth then
      Audited.of (fail .malformedBytes path [] "maximum nesting depth exceeded") else Audited.booking (· + 1) m) := by
  apply Books.guard
  · exact Books.of fun _ _ _ refused => by cases refused
  · exact below.spend fun c => (Nat.succ_pred_eq_of_pos (cells_pos c)).symm

theorem countedValue_books {t : TypeRef} (wf : t.wf) (path : ByteString) (depth : Nat) :
    Books Cell.cells (countedValue t path depth) := by
  induction t generalizing path depth with
  | int | float | text | bool | bytes =>
      rw [countedValue]
      apply books_within
      exact Books.of fun _ _ _ read => by rw [leaf_cells (by decide) read]
  | message schema ih =>
      rw [TypeRef.wf_message] at wf
      have fields := (Schema.wf_iff.mp wf).2.2
      have nested := countedBody_books wf (fun f hf => ih f hf (fields f hf)) path (depth + 1)
      rw [countedValue]
      apply books_within
      exact nested.map fun v => by rw [Cell.cells, Nat.add_sub_cancel]
  | list element ih =>
      rw [TypeRef.wf_list] at wf
      rw [countedValue]
      apply books_within
      apply Books.after
      intro count
      apply Books.guard
      · exact Books.of fun _ _ _ refused => by cases refused
      · have each := Books.each (fun k => ih wf (indexPath path k) (depth + 1)) count.toNat 0
        exact each.map fun cells => by rw [Cell.cells, Nat.add_sub_cancel, cellsCells_eq]

/-! ## A whole body -/

theorem countedDoor_erases (door : Zen.Schema) : Erases (countedDoor door) (body door.raw (.empty door.raw) [] 0) :=
  countedBody_erases (fun f _ => countedValue_erases f.type) _ [] 0

theorem countedDoor_books (door : Zen.Schema) : Books Value.cells (countedDoor door) :=
  countedBody_books door.wf (fun f hf => countedValue_books ((Schema.wf_iff.mp door.wf).2.2 f hf)) [] 0

theorem cellsDecoded_accepted {door : Zen.Schema} {bytes rest : ByteString} {v : Value}
    (h : (body door.raw (.empty door.raw) [] 0).run bytes = .ok v rest) : cellsDecoded door bytes = v.cells := by
  have same := countedDoor_erases door (bytes, 0)
  rw [h] at same
  cases ran : (countedDoor door).run (bytes, 0) with
  | ok v' s' =>
      rw [ran] at same
      cases same
      rw [cellsDecoded, ran]
      exact (countedDoor_books door (bytes, 0) v s' ran).trans (Nat.zero_add _)
  | error e s' =>
      rw [ran] at same
      cases same

theorem cells_paid_by_bytes {door : Zen.Schema} (full : ∀ s ∈ door.raw.schemas, s.fields ≠ []) (bytes : ByteString) :
    Erases (countedDoor door) (body door.raw (.empty door.raw) [] 0) ∧
      (∃ consumed, bytes = consumed ++ unread door bytes ∧ cellsDecoded door bytes ≤ consumed.length ∧
        consumed.length ≤ bytes.length) ∧
      ∀ v rest, (body door.raw (.empty door.raw) [] 0).run bytes = .ok v rest → cellsDecoded door bytes = v.cells := by
  refine ⟨countedDoor_erases door, ?_, fun v rest => cellsDecoded_accepted⟩
  rw [Schema.schemas_eq] at full
  have below := (List.forall_mem_cons.mp full).2
  have pays := countedBody_pays (fun f hf => countedValue_pays fun s hs => below s (mem_fieldSchemas hf hs))
    (Value.empty door.raw) [] 0
  obtain ⟨consumed, split, paid⟩ := pays.ended (bytes, 0)
  have stops : unread door bytes = (ended ((countedDoor door).run (bytes, 0))).1 := by
    rw [unread, ← countedDoor_erases door (bytes, 0)]
    cases (countedDoor door).run (bytes, 0) <;> rfl
  refine ⟨consumed, by rw [stops]; exact split, ?_, ?_⟩
  · exact paid.trans (Nat.le_of_eq (Nat.zero_add _))
  · rw [show bytes = consumed ++ _ from split, List.length_append]
    exact Nat.le_add_right _ _

-- a list that claims a thousand texts and brings one
theorem cells_paid_by_bytes_sample : cellsDecoded Sample [0x05, 0x00, 0xE8, 0x07, 0x00] ≤ 5 := by
  have full : ∀ s ∈ Sample.raw.schemas, s.fields ≠ [] := by decide
  obtain ⟨_, ⟨consumed, _, paid, within⟩, _⟩ := cells_paid_by_bytes full [0x05, 0x00, 0xE8, 0x07, 0x00]
  exact paid.trans within

end Zen.Raw.BinaryDecoder
