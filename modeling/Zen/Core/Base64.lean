import Zen.Core.Bytes

/-!
# Base64
-/

namespace Zen

def kAlphabet : ByteString :=
  ascii "ABCDEFGHIJKLMNOPQRSTUVWXYZabcdefghijklmnopqrstuvwxyz0123456789+/"

def symbol (n : Nat) : UInt8 := kAlphabet.getD (n &&& 0x3F) 0

-- 0xFF where the source's table has no symbol
def reverseTable (c : UInt8) : UInt8 :=
  if c ∈ kAlphabet then UInt8.ofNat (kAlphabet.idxOf c) else 0xFF

def base64Encode : ByteString → ByteString
  | b₀ :: b₁ :: b₂ :: data =>
      let n := (b₀.toNat <<< 16) ||| (b₁.toNat <<< 8) ||| b₂.toNat
      [symbol (n >>> 18), symbol (n >>> 12), symbol (n >>> 6), symbol n] ++ base64Encode data
  | [b₀, b₁] =>
      let n := (b₀.toNat <<< 16) ||| (b₁.toNat <<< 8)
      [symbol (n >>> 18), symbol (n >>> 12), symbol (n >>> 6), 0x3D]
  | [b₀] =>
      let n := b₀.toNat <<< 16
      [symbol (n >>> 18), symbol (n >>> 12), 0x3D, 0x3D]
  | [] => []

def decodeQuad (c₀ c₁ c₂ c₃ : UInt8) (lastQuad : Bool) : Option ByteString :=
  let pad₂ := c₂ == 0x3D
  let pad₃ := c₃ == 0x3D
  if (pad₂ || pad₃) && !lastQuad then none
  else if pad₂ && !pad₃ then none
  else
    let v₀ := reverseTable c₀
    let v₁ := reverseTable c₁
    if v₀ == 0xFF || v₁ == 0xFF then none
    else
      let first := UInt8.ofNat ((v₀.toNat <<< 2) ||| (v₁.toNat >>> 4))
      if pad₃ && pad₂ then
        if v₁ &&& 0x0F != 0 then none else some [first]
      else
        let v₂ := reverseTable c₂
        if v₂ == 0xFF then none
        else
          let second := UInt8.ofNat ((v₁.toNat <<< 4) ||| (v₂.toNat >>> 2))
          if pad₃ then
            if v₂ &&& 0x03 != 0 then none else some [first, second]
          else
            let v₃ := reverseTable c₃
            if v₃ == 0xFF then none
            else some [first, second, UInt8.ofNat ((v₂.toNat <<< 6) ||| v₃.toNat)]

def decodeQuads : ByteString → Option ByteString
  | c₀ :: c₁ :: c₂ :: c₃ :: text => do
      let out ← decodeQuad c₀ c₁ c₂ c₃ text.isEmpty
      return out ++ (← decodeQuads text)
  | _ => some []

def base64Decode (text : ByteString) : Option ByteString :=
  if text.length % 4 ≠ 0 then none else decodeQuads text

end Zen
