import Splice.Text.Basic

set_option autoImplicit false

namespace Splice.Codec

inductive Reason where
  | start | continuation | ending | range | truncated | illegal | surrogate
  deriving DecidableEq, Repr

def Reason.text : Reason → Text
  | .start => "invalid start byte".toList
  | .continuation => "invalid continuation byte".toList
  | .ending => "unexpected end of data".toList
  | .range => "ordinal not in range(128)".toList
  | .truncated => "truncated data".toList
  | .illegal => "illegal encoding".toList
  | .surrogate => "illegal UTF-16 surrogate".toList

structure Fault where
  codec : Text
  byte : UInt8
  position : Nat
  size : Nat
  reason : Reason
  deriving DecidableEq, Repr

def Fault.message (f : Fault) : Text :=
  ['\''] ++ f.codec ++ "' codec can't decode ".toList ++
    (if f.size ≤ 1 then
      "byte 0x".toList ++ Text.hex 2 f.byte.toNat ++ " in position ".toList ++
        Text.ofNat f.position
    else
      "bytes in position ".toList ++ Text.ofNat f.position ++ ['-'] ++
        Text.ofNat (f.position + f.size - 1)) ++
    ": ".toList ++ f.reason.text

/-- What stands at the front of the bytes. Sizes count the bytes taken and are never zero. -/
inductive Front where
  | char (c : Char) (size : Nat)
  | fault (size : Nat) (reason : Reason)
  deriving DecidableEq, Repr

/-- Reads units one after the other. `skip` counts the bytes of the last unit that are still to be
passed over, `position` the bytes read so far. -/
def decodeFrom (codec : Text) (front : UInt8 → List UInt8 → Front) (skip position : Nat) :
    List UInt8 → Except Fault Text
  | [] => .ok []
  | b :: bs =>
    match skip with
    | skip + 1 => decodeFrom codec front skip (position + 1) bs
    | 0 =>
      match front b bs with
      | .fault size reason => .error ⟨codec, b, position, size, reason⟩
      | .char c size =>
        match decodeFrom codec front (size - 1) (position + 1) bs with
        | .ok t => .ok (c :: t)
        | .error f => .error f

def decode (codec : Text) (front : UInt8 → List UInt8 → Front) (position : Nat)
    (bytes : List UInt8) : Except Fault Text :=
  decodeFrom codec front 0 position bytes

end Splice.Codec
