import Splice.Codec.Utf8
import Splice.Codec.Utf16

set_option autoImplicit false

namespace Splice

inductive Encoding where
  | utf8 | utf8Marked | latin1 | ascii | utf16 | utf16Little | utf16Big
  deriving DecidableEq, Repr

namespace Encoding

def names : List (String × Encoding) :=
  [("utf_8", utf8), ("utf_8_sig", utf8Marked), ("latin_1", latin1), ("ascii", ascii),
    ("utf_16", utf16), ("utf_16_le", utf16Little), ("utf_16_be", utf16Big)]

/-- Their other names. In these a point may stand for an underscore. -/
def otherNames : List (String × Encoding) :=
  [("utf8", utf8), ("u8", utf8), ("utf", utf8), ("utf8_ucs2", utf8), ("utf8_ucs4", utf8),
    ("cp65001", utf8), ("latin1", latin1), ("latin", latin1), ("l1", latin1),
    ("iso_8859_1", latin1), ("iso8859_1", latin1), ("iso8859", latin1), ("8859", latin1),
    ("cp819", latin1), ("csisolatin1", latin1), ("ibm819", latin1), ("iso_8859_1_1987", latin1),
    ("iso_ir_100", latin1), ("646", ascii), ("us", ascii), ("us_ascii", ascii),
    ("ansi_x3.4_1968", ascii), ("ansi_x3_4_1968", ascii), ("ansi_x3.4_1986", ascii),
    ("cp367", ascii), ("csascii", ascii), ("ibm367", ascii), ("iso646_us", ascii),
    ("iso_646.irv_1991", ascii), ("iso_ir_6", ascii), ("utf16", utf16), ("u16", utf16),
    ("utf_16le", utf16Little), ("unicodelittleunmarked", utf16Little), ("utf_16be", utf16Big),
    ("unicodebigunmarked", utf16Big)]

/-- The spelling under which a name is looked up. `pending` says that an underscore is due. -/
def nameKeyFrom (started pending : Bool) : Text → Text
  | [] => []
  | c :: t =>
    if c.isAlphanum ∨ c = '.' then
      (if started && pending then ['_'] else []) ++ c.toLower :: nameKeyFrom true false t
    else nameKeyFrom started true t

def nameKey (name : Text) : Text := nameKeyFrom false false name

def ofName? (name : Text) : Option Encoding :=
  let key := nameKey name
  let find (names : List (String × Encoding)) (key : Text) : Option Encoding :=
    (names.find? fun p => p.1 == String.ofList key).map Prod.snd
  find otherNames key <|> find otherNames (Text.substitute '.' '_' key) <|> find names key

def decode : Encoding → List UInt8 → Except Codec.Fault Text
  | .utf8, bs => Codec.Utf8.decode bs
  | .utf8Marked, bs =>
    match bs with
    | 0xEF :: 0xBB :: 0xBF :: rest => Codec.Utf8.decode rest
    | _ => Codec.Utf8.decode bs
  | .latin1, bs => .ok (bs.map fun b => Char.ofNat b.toNat)
  | .ascii, bs =>
    Codec.decode "ascii".toList
      (fun b _ => if b < 0x80 then .char (Char.ofNat b.toNat) 1 else .fault 1 .range) 0 bs
  | .utf16, bs =>
    match bs with
    | 0xFF :: 0xFE :: rest => Codec.Utf16.decode .little 2 rest
    | 0xFE :: 0xFF :: rest => Codec.Utf16.decode .big 2 rest
    | _ => Codec.Utf16.decode .little 0 bs
  | .utf16Little, bs => Codec.Utf16.decode .little 0 bs
  | .utf16Big, bs => Codec.Utf16.decode .big 0 bs

def encodeBelow (limit : Nat) : Text → Option (List UInt8)
  | [] => some []
  | c :: t => if c.toNat < limit then (encodeBelow limit t).map (c.toNat.toUInt8 :: ·) else none

/-- Writes a text as bytes; there is no result if a character is outside the encoding. -/
def encode : Encoding → Text → Option (List UInt8)
  | .utf8, t => some (Codec.Utf8.encode t)
  | .utf8Marked, t => some (0xEF :: 0xBB :: 0xBF :: Codec.Utf8.encode t)
  | .latin1, t => encodeBelow 256 t
  | .ascii, t => encodeBelow 128 t
  | .utf16, t => some (0xFF :: 0xFE :: Codec.Utf16.encode .little t)
  | .utf16Little, t => some (Codec.Utf16.encode .little t)
  | .utf16Big, t => some (Codec.Utf16.encode .big t)

end Encoding
end Splice
