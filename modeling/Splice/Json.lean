import Splice.Value

/-!
Reading JSON. Besides the standard forms, `NaN`, `Infinity` and `-Infinity` are numbers. White space
is the space, the tab, the line feed and the carriage return; control characters in strings are
refused; of equal keys in an object the last one counts. An integer with too many digits and
brackets that are nested too deeply are faults of their own, found where the reader meets them.
-/

set_option autoImplicit false

namespace Splice.Json

inductive Bracket where
  | array | object
  deriving DecidableEq, Repr

inductive Fault where
  | malformed
  | longInteger (digits : Nat)
  | tooDeep (bracket : Bracket)
  deriving DecidableEq, Repr

def depthLimit : Nat := 990

def skip (t : Text) : Text := t.dropWhile fun c => c = ' ' ∨ c = '\t' ∨ c = '\n' ∨ c = '\r'

/-- The characters of a list of UTF-16 numbers and code points. A text holds no surrogate, so one
that stands alone is replaced, and keys that differ in such a number only become one key. -/
def joinSurrogates : List Nat → Text
  | [] => []
  | [n] => [if 0xD800 ≤ n ∧ n < 0xE000 then '\ufffd' else Char.ofNat n]
  | h :: l :: r =>
    if 0xD800 ≤ h ∧ h < 0xDC00 ∧ 0xDC00 ≤ l ∧ l < 0xE000 then
      Char.ofNat (0x10000 + (h - 0xD800) * 1024 + (l - 0xDC00)) :: joinSurrogates r
    else if 0xD800 ≤ h ∧ h < 0xE000 then '\ufffd' :: joinSurrogates (l :: r)
    else Char.ofNat h :: joinSurrogates (l :: r)

def escape? (c : Char) : Option Nat :=
  if c = '"' ∨ c = '\\' ∨ c = '/' then some c.toNat
  else if c = 'b' then some 8
  else if c = 'f' then some 12
  else if c = 'n' then some 10
  else if c = 'r' then some 13
  else if c = 't' then some 9
  else none

def hex4? (a b c d : Char) : Option Nat := do
  let a ← Text.hexDigit? a
  let b ← Text.hexDigit? b
  let c ← Text.hexDigit? c
  let d ← Text.hexDigit? d
  pure (a * 4096 + b * 256 + c * 16 + d)

def units? : Text → Option (List Nat × Text)
  | [] => none
  | '"' :: t => some ([], t)
  | '\\' :: 'u' :: a :: b :: c :: d :: t =>
    match hex4? a b c d, units? t with
    | some n, some (ns, rest) => some (n :: ns, rest)
    | _, _ => none
  | '\\' :: c :: t =>
    match escape? c, units? t with
    | some n, some (ns, rest) => some (n :: ns, rest)
    | _, _ => none
  | c :: t =>
    if c.toNat < 0x20 ∨ c = '\\' then none
    else
      match units? t with
      | some (ns, rest) => some (c.toNat :: ns, rest)
      | none => none

def string? (t : Text) : Option (Text × Text) :=
  (units? t).map fun p => (joinSurrogates p.1, p.2)

def digits (t : Text) : Text × Text := (t.takeWhile Char.isDigit, t.dropWhile Char.isDigit)

def fraction? : Text → Option (Text × Text)
  | '.' :: t =>
    match digits t with
    | ([], _) => none
    | ds => some ds
  | _ => none

def exponent? : Text → Option (Int × Text)
  | c :: t =>
    if c = 'e' ∨ c = 'E' then
      let (negative, t) :=
        match t with
        | '-' :: t => (true, t)
        | '+' :: t => (false, t)
        | t => (false, t)
      match digits t with
      | ([], _) => none
      | (ds, rest) =>
        let n : Int := Text.decimal ds
        some (if negative then -n else n, rest)
    else none
  | [] => none

def number (negative : Bool) (t : Text) : Except Fault (Value × Text) :=
  let (whole, rest) :=
    match t with
    | '0' :: t => (['0'], t)
    | t => digits t
  if whole = [] then .error .malformed
  else
    let (part, rest₁) := (fraction? rest).getD ([], rest)
    let (power, rest₂) := (exponent? rest₁).getD (0, rest₁)
    if part = [] ∧ (exponent? rest₁).isNone then
      if Value.digitLimit < whole.length then .error (.longInteger whole.length)
      else
        let n : Int := Text.decimal whole
        .ok (.int (if negative then -n else n), rest)
    else
      let ds := Text.decimal (whole ++ part)
      .ok (.float (.ofDecimal negative ds (power - part.length)), rest₂)

def words : List (Text × Value) :=
  [("null".toList, .null), ("true".toList, .bool true), ("false".toList, .bool false),
    ("NaN".toList, .float .nan), ("Infinity".toList, .float (.infinite false)),
    ("-Infinity".toList, .float (.infinite true))]

def word? (t : Text) : Option (Value × Text) :=
  words.findSome? fun p => (Text.after? p.1 t).map fun rest => (p.2, rest)

mutual

/-- A value at the front, inside which brackets may be nested `depth` deep, and what follows it. -/
def value : (fuel depth : Nat) → Text → Except Fault (Value × Text)
  | 0, _, _ => .error .malformed
  | fuel + 1, depth, t =>
    match t with
    | '"' :: t =>
      match string? t with
      | some (s, rest) => .ok (.text s, rest)
      | none => .error .malformed
    | '[' :: t =>
      match depth, skip t with
      | 0, _ => .error (.tooDeep .array)
      | _ + 1, ']' :: rest => .ok (.list [], rest)
      | depth + 1, t => (items fuel depth t).map fun p => (.list p.1, p.2)
    | '\x7b' :: t =>
      match depth, skip t with
      | 0, _ => .error (.tooDeep .object)
      | _ + 1, '\x7d' :: rest => .ok (.table [], rest)
      | depth + 1, t => (members fuel depth t).map fun p => (.table (Keyed.putAll [] p.1), p.2)
    | _ =>
      match word? t with
      | some p => .ok p
      | none =>
        match t with
        | '-' :: t => number true t
        | t => number false t

def items : (fuel depth : Nat) → Text → Except Fault (List Value × Text)
  | 0, _, _ => .error .malformed
  | fuel + 1, depth, t =>
    match value fuel depth t with
    | .error f => .error f
    | .ok (v, t) =>
      match skip t with
      | ']' :: rest => .ok ([v], rest)
      | ',' :: t => (items fuel depth (skip t)).map fun p => (v :: p.1, p.2)
      | _ => .error .malformed

def members : (fuel depth : Nat) → Text → Except Fault (List (Text × Value) × Text)
  | 0, _, _ => .error .malformed
  | fuel + 1, depth, t =>
    match t with
    | '"' :: t =>
      match string? t with
      | none => .error .malformed
      | some (k, t) =>
        match skip t with
        | ':' :: t =>
          match value fuel depth (skip t) with
          | .error f => .error f
          | .ok (v, t) =>
            match skip t with
            | '\x7d' :: rest => .ok ([(k, v)], rest)
            | ',' :: t => (members fuel depth (skip t)).map fun p => ((k, v) :: p.1, p.2)
            | _ => .error .malformed
        | _ => .error .malformed
    | _ => .error .malformed

end

/-- The value of a whole text. Every step of the reader passes a character, so twice the length of
the text is enough fuel. -/
def parse (t : Text) : Except Fault Value :=
  match value (2 * t.length + 2) depthLimit (skip t) with
  | .ok (v, rest) => if skip rest = [] then .ok v else .error .malformed
  | .error f => .error f

end Splice.Json
