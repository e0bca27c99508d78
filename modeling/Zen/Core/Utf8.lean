import Zen.Core.Bytes

namespace Zen

-- the continuation bytes of one sequence: `extra` of them, folded into `cp`
def utf8Tail : (extra : Nat) → (cp : Nat) → ByteString → Option (Nat × ByteString)
  | 0, cp, s => some (cp, s)
  | _ + 1, _, [] => none
  | extra + 1, cp, cc :: s =>
      if cc &&& 0xC0 != 0x80 then none
      else utf8Tail extra ((cp <<< 6) ||| (cc &&& 0x3F).toNat) s

theorem utf8Tail_length {extra cp cp' : Nat} {s s' : ByteString}
    (h : utf8Tail extra cp s = some (cp', s')) : s'.length ≤ s.length := by
  induction extra generalizing cp s with
  | zero =>
      cases h
      exact Nat.le_refl _
  | succ extra ih =>
      cases s with
      | nil => cases h
      | cons cc s =>
          rw [utf8Tail] at h
          split at h
          · cases h
          · have := ih h
            simp only [List.length_cons]
            omega

def validUtf8 : ByteString → Bool
  | [] => true
  | c :: s =>
      if c < 0x80 then validUtf8 s
      else
        let sequence : Option (Nat × Nat × Nat × Nat) :=
          if c &&& 0xE0 == 0xC0 then some (1, (c &&& 0x1F).toNat, 0x80, 0x7FF)
          else if c &&& 0xF0 == 0xE0 then some (2, (c &&& 0x0F).toNat, 0x800, 0xFFFF)
          else if c &&& 0xF8 == 0xF0 then some (3, (c &&& 0x07).toNat, 0x10000, 0x10FFFF)
          else none
        match sequence with
        | none => false
        | some (extra, cp, lo, hi) =>
            match _h : utf8Tail extra cp s with
            | none => false
            | some (cp, s') =>
                if cp < lo || cp > hi then false
                else if 0xD800 ≤ cp && cp ≤ 0xDFFF then false
                else validUtf8 s'
termination_by s => s.length
decreasing_by
  · simp
  · have := utf8Tail_length _h
    simp only [List.length_cons]
    omega

end Zen
