import Splice.Codec.Basic

set_option autoImplicit false

namespace Splice.Codec.Utf16

inductive Order where
  | little | big
  deriving DecidableEq, Repr

def Order.name : Order → Text
  | .little => "utf-16-le".toList
  | .big => "utf-16-be".toList

def Order.word : Order → UInt8 → UInt8 → Nat
  | .little, a, b => a.toNat + 256 * b.toNat
  | .big, a, b => 256 * a.toNat + b.toNat

def Order.bytes : Order → Nat → List UInt8
  | .little, n => [(n % 256).toUInt8, (n / 256).toUInt8]
  | .big, n => [(n / 256).toUInt8, (n % 256).toUInt8]

def front (o : Order) (a : UInt8) : List UInt8 → Front
  | [] => .fault 1 .truncated
  | b :: rest =>
    let high := o.word a b
    if high < 0xD800 ∨ 0xE000 ≤ high then .char (Char.ofNat high) 2
    else if 0xDC00 ≤ high then .fault 2 .illegal
    else
      match rest with
      | [] => .fault 2 .ending
      | [_] => .fault 3 .ending
      | c :: d :: _ =>
        let low := o.word c d
        if 0xDC00 ≤ low ∧ low < 0xE000 then
          .char (Char.ofNat (0x10000 + (high - 0xD800) * 1024 + (low - 0xDC00))) 4
        else .fault 2 .surrogate

def bytes (o : Order) (c : Char) : List UInt8 :=
  let n := c.toNat
  if n < 0x10000 then o.bytes n
  else o.bytes (0xD800 + (n - 0x10000) / 1024) ++ o.bytes (0xDC00 + (n - 0x10000) % 1024)

def decode (o : Order) (position : Nat) (bytes : List UInt8) : Except Fault Text :=
  Codec.decode o.name (front o) position bytes

def encode (o : Order) (t : Text) : List UInt8 := t.flatMap (bytes o)

end Splice.Codec.Utf16
