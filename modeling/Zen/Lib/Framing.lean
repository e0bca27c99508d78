import Mathlib.Data.List.Infix

/-!
# Frames on a byte stream

A sender writes the words of its frames one after the other; a receiver gets the stream in pieces of
any size and takes from what it has so far the frames that are complete. `Carries` says that nothing
is lost, doubled or out of order between the two: what the receiver has taken, followed by what is
still on the way, is what was sent.
-/

namespace Zen.Lib

variable {α β : Type}

/-- What stands at the front of an input: less than a frame, no frame at all, or a frame. -/
inductive Scan (α β : Type) where
  | short
  | bad
  | frame (a : α) (rest : List β)

/-- Takes frame after frame, and says what is left and whether it met no bad one. -/
def scanAll (scan : List β → Scan α β) : Nat → List β → List α × List β × Bool
  | 0, input => ([], input, true)
  | fuel + 1, input =>
      match scan input with
      | .short => ([], input, true)
      | .bad => ([], input, false)
      | .frame a rest =>
          let (taken, left, fine) := scanAll scan fuel rest
          (a :: taken, left, fine)

theorem scanAll_sizes {scan : List β → Scan α β} {size : α → Nat}
    (each : ∀ input a rest, scan input = .frame a rest → size a + rest.length ≤ input.length) (fuel : Nat)
    (input : List β) : (scanAll scan fuel input).2.1.length ≤ input.length ∧
      ∀ a ∈ (scanAll scan fuel input).1, size a ≤ input.length := by
  induction fuel generalizing input with
  | zero => exact ⟨Nat.le_refl _, by simp [scanAll]⟩
  | succ fuel ih =>
      unfold scanAll
      cases scanned : scan input with
      | short => exact ⟨Nat.le_refl _, by simp⟩
      | bad => exact ⟨Nat.le_refl _, by simp⟩
      | frame a rest =>
          have first := each input a rest scanned
          obtain ⟨left, others⟩ := ih rest
          refine ⟨Nat.le_trans left (by omega), ?_⟩
          intro b hb
          rcases List.mem_cons.mp hb with rfl | hb
          · omega
          · exact Nat.le_trans (others b hb) (by omega)

structure Framing (word : α → List β) (scan : List β → Scan α β) (good : α → Prop) : Prop where
  nonempty : ∀ a, word a ≠ []
  empty : scan [] = .short
  whole : ∀ a rest, good a → scan (word a ++ rest) = .frame a rest
  part : ∀ a input, good a → input <+: word a → input ≠ word a → scan input = .short

def words (word : α → List β) (as : List α) : List β := as.flatMap word

section
variable {word : α → List β} {scan : List β → Scan α β} {good : α → Prop}

@[simp] theorem words_nil : words word [] = [] := rfl

@[simp] theorem words_cons (a : α) (as : List α) : words word (a :: as) = word a ++ words word as := rfl

theorem words_append (as bs : List α) : words word (as ++ bs) = words word as ++ words word bs :=
  List.flatMap_append

namespace Framing

/-- An input that is a piece of the stream, at its front: a frame is complete in it or it is short. -/
theorem scan_front (framing : Framing word scan good) {pending : List α} {input later : List β}
    (admitted : ∀ a ∈ pending, good a) (stream : words word pending = input ++ later) :
    (scan input = .short ∨ input = [] ∧ pending = []) ∨
    ∃ a left rest, pending = a :: left ∧ scan input = .frame a rest ∧ input = word a ++ rest ∧
      words word left = rest ++ later := by
  cases pending with
  | nil =>
      have none := List.append_eq_nil_iff.mp stream.symm
      exact Or.inl (Or.inr ⟨none.1, rfl⟩)
  | cons a left =>
      have here : good a := admitted a (by simp)
      rw [words_cons] at stream
      rcases List.append_eq_append_iff.mp stream with ⟨rest, whole, tail⟩ | ⟨missing, part, tail⟩
      · subst whole
        exact Or.inr ⟨a, left, rest, rfl, framing.whole a rest here, rfl, tail⟩
      · by_cases all : input = word a
        · subst all
          have nothing : missing = [] := by simpa using part
          subst nothing
          have scanned := framing.whole a [] here
          rw [List.append_nil] at scanned
          exact Or.inr ⟨a, left, [], rfl, scanned, by simp, by simpa using tail.symm⟩
        · exact Or.inl (Or.inl (framing.part a input here ⟨missing, part.symm⟩ all))

/-- A receiver that has `input` so far takes the complete frames at its front and stops at a short one. -/
theorem scanAll_stream (framing : Framing word scan good) {fuel : Nat}
    {pending : List α} {input later : List β} (enough : input.length ≤ fuel)
    (admitted : ∀ a ∈ pending, good a) (stream : words word pending = input ++ later) :
    ∃ taken left rest, pending = taken ++ left ∧ scanAll scan fuel input = (taken, rest, true) ∧
      words word left = rest ++ later ∧ scan rest = .short := by
  induction fuel generalizing pending input with
  | zero =>
      have nothing : input = [] := List.length_eq_zero_iff.mp (Nat.le_zero.mp enough)
      subst nothing
      exact ⟨[], pending, [], rfl, rfl, stream, framing.empty⟩
  | succ fuel ih =>
      have stops : scan input = .short → ∃ taken left rest, pending = taken ++ left ∧
          scanAll scan (fuel + 1) input = (taken, rest, true) ∧ words word left = rest ++ later ∧
            scan rest = .short := by
        intro short
        exact ⟨[], pending, input, rfl, by rw [scanAll, short], stream, short⟩
      rcases framing.scan_front admitted stream with (short | ⟨nothing, _⟩) | ⟨a, left, rest, rfl, scanned, parts, tail⟩
      · exact stops short
      · exact stops (nothing ▸ framing.empty)
      · have shorter : rest.length ≤ fuel := by
          have positive := List.length_pos_iff.mpr (framing.nonempty a)
          rw [parts, List.length_append] at enough
          omega
        obtain ⟨taken, left', rest', rfl, all, tail', short⟩ :=
          ih shorter (fun b mem => admitted b (by simp [mem])) tail
        exact ⟨a :: taken, left', rest', rfl, by rw [scanAll, scanned]; simp only [all], tail', short⟩

end Framing

/-- `bytes` are on the way from the sender to the receiver. -/
def Carries (word : α → List β) (sent taken : List α) (bytes : List β) : Prop :=
  ∃ pending, sent = taken ++ pending ∧ words word pending = bytes

namespace Carries

variable {sent taken : List α} {bytes : List β}

theorem start : Carries word [] [] ([] : List β) := ⟨[], rfl, rfl⟩

theorem push (h : Carries word sent taken bytes) (a : α) :
    Carries word (sent ++ [a]) taken (bytes ++ word a) := by
  obtain ⟨pending, rfl, rfl⟩ := h
  exact ⟨pending ++ [a], by rw [List.append_assoc], by rw [words_append]; simp⟩

theorem taken_prefix (h : Carries word sent taken bytes) : taken <+: sent := by
  obtain ⟨pending, rfl, _⟩ := h
  exact List.prefix_append taken pending

/-- With all of the stream at the receiver, and less than a frame left there, nothing is on the way. -/
theorem drained (framing : Framing word scan good) (h : Carries word sent taken bytes)
    (admitted : ∀ a ∈ sent, good a) (short : scan bytes = .short) : taken = sent := by
  obtain ⟨pending, rfl, stream⟩ := h
  cases pending with
  | nil => exact (List.append_nil taken).symm
  | cons a left =>
      have scanned := framing.whole a (words word left) (admitted a (by simp))
      rw [words_cons] at stream
      rw [stream, short] at scanned
      cases scanned

theorem take (framing : Framing word scan good) {input later : List β}
    (h : Carries word sent taken (input ++ later)) (admitted : ∀ a ∈ sent, good a) {fuel : Nat}
    (enough : input.length ≤ fuel) :
    ∃ more rest, scanAll scan fuel input = (more, rest, true) ∧
      Carries word sent (taken ++ more) (rest ++ later) ∧ scan rest = .short := by
  obtain ⟨pending, rfl, stream⟩ := h
  obtain ⟨more, left, rest, rfl, scanned, tail, short⟩ :=
    framing.scanAll_stream enough (fun a mem => admitted a (by simp [mem])) stream
  exact ⟨more, rest, scanned, ⟨left, by rw [List.append_assoc], tail⟩, short⟩

theorem takeOne (framing : Framing word scan good) {input later rest : List β} {a : α}
    (h : Carries word sent taken (input ++ later)) (admitted : ∀ b ∈ sent, good b)
    (scanned : scan input = .frame a rest) :
    Carries word sent (taken ++ [a]) (rest ++ later) := by
  obtain ⟨pending, rfl, stream⟩ := h
  rcases framing.scan_front (fun b mem => admitted b (by simp [mem])) stream with
    (short | ⟨nothing, _⟩) | ⟨b, left, rest', rfl, again, _, tail⟩
  · rw [short] at scanned
    cases scanned
  · rw [nothing, framing.empty] at scanned
    cases scanned
  · rw [scanned] at again
    cases again
    exact ⟨left, by rw [List.append_assoc]; rfl, tail⟩

end Carries
end
end Zen.Lib
