import Splice.Codec.Basic

set_option autoImplicit false

namespace Splice.Codec.Utf8

/-- The continuation bytes of a sequence with the range allowed for the next one. `value` holds the
bits read so far, `size` the bytes read so far and `left` the bytes still to come. -/
def continueFrom (value size : Nat) (low high : Nat) : (left : Nat) → List UInt8 → Front
  | 0, _ => .char (Char.ofNat value) size
  | _ + 1, [] => .fault size .ending
  | left + 1, b :: bs =>
    if low ≤ b.toNat ∧ b.toNat ≤ high then
      continueFrom (value * 64 + (b.toNat - 0x80)) (size + 1) 0x80 0xBF left bs
    else .fault size .continuation

/-- The character or fault at the front. The second byte of some sequences has a narrower range,
which keeps out long forms, surrogates and numbers beyond the last code point. -/
def front (b : UInt8) (bs : List UInt8) : Front :=
  let n := b.toNat
  if n < 0x80 then .char (Char.ofNat n) 1
  else if n < 0xC2 then .fault 1 .start
  else if n < 0xE0 then continueFrom (n - 0xC0) 1 0x80 0xBF 1 bs
  else if n < 0xF0 then
    continueFrom (n - 0xE0) 1 (if n = 0xE0 then 0xA0 else 0x80) (if n = 0xED then 0x9F else 0xBF) 2
      bs
  else if n < 0xF5 then
    continueFrom (n - 0xF0) 1 (if n = 0xF0 then 0x90 else 0x80) (if n = 0xF4 then 0x8F else 0xBF) 3
      bs
  else .fault 1 .start

def bytes (c : Char) : List UInt8 :=
  let n := c.toNat
  if n < 0x80 then [n.toUInt8]
  else if n < 0x800 then [(0xC0 + n / 64).toUInt8, (0x80 + n % 64).toUInt8]
  else if n < 0x10000 then
    [(0xE0 + n / 4096).toUInt8, (0x80 + n / 64 % 64).toUInt8, (0x80 + n % 64).toUInt8]
  else
    [(0xF0 + n / 262144).toUInt8, (0x80 + n / 4096 % 64).toUInt8, (0x80 + n / 64 % 64).toUInt8,
      (0x80 + n % 64).toUInt8]

def name : Text := "utf-8".toList

def decode (bytes : List UInt8) : Except Fault Text := Codec.decode name front 0 bytes

def encode (t : Text) : List UInt8 := t.flatMap bytes

end Splice.Codec.Utf8
