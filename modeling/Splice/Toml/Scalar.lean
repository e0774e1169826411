import Splice.Value

set_option autoImplicit false

namespace Splice.Toml

def moreDigits (isDigit : Char → Bool) : Text → Text × Text
  | '_' :: c :: t =>
    if isDigit c then (c :: (moreDigits isDigit t).1, (moreDigits isDigit t).2)
    else ([], '_' :: c :: t)
  | c :: t =>
    if isDigit c then (c :: (moreDigits isDigit t).1, (moreDigits isDigit t).2) else ([], c :: t)
  | [] => ([], [])

def digits? (isDigit : Char → Bool) : Text → Option (Text × Text)
  | c :: t =>
    if isDigit c then some (c :: (moreDigits isDigit t).1, (moreDigits isDigit t).2) else none
  | [] => none

def base? (c : Char) : Option Nat :=
  if c = 'x' then some 16 else if c = 'o' then some 8 else if c = 'b' then some 2 else none

def isDigitOf (base : Nat) (c : Char) : Bool :=
  match Text.hexDigit? c with
  | some d => d < base
  | none => false

def based? : Text → Option (Value × Text)
  | c :: t =>
    match base? c with
    | none => none
    | some base =>
      match digits? (isDigitOf base) t with
      | none => none
      | some (ds, rest) =>
        let n := ds.foldl (fun n d => base * n + (Text.hexDigit? d).getD 0) 0
        some (.int n, rest)
  | [] => none

def sign : Text → Bool × Text
  | '-' :: t => (true, t)
  | '+' :: t => (false, t)
  | t => (false, t)

def whole? : Text → Option (Text × Text)
  | '0' :: t => some (['0'], t)
  | t => digits? Char.isDigit t

def fraction? : Text → Option (Text × Text)
  | '.' :: t => digits? Char.isDigit t
  | _ => none

def power? : Text → Option (Int × Text)
  | c :: t =>
    if c = 'e' ∨ c = 'E' then
      let (negative, t) := sign t
      (digits? Char.isDigit t).map fun p =>
        (if negative then -(Text.decimal p.1 : Int) else Text.decimal p.1, p.2)
    else none
  | [] => none

def decimal? (t : Text) : Option (Value × Text) :=
  let (negative, t) := sign t
  match whole? t with
  | none => none
  | some (whole, rest) =>
    match fraction? rest with
    | some (part, rest) =>
      let (power, rest) := (power? rest).getD (0, rest)
      let ds := Text.decimal (whole ++ part)
      some (.float (.ofDecimal negative ds (power - part.length)), rest)
    | none =>
      match power? rest with
      | some (power, rest) => some (.float (.ofDecimal negative (Text.decimal whole) power), rest)
      | none =>
        let n : Int := Text.decimal whole
        some (.int (if negative then -n else n), rest)

def wordFloat? (t : Text) : Option (Value × Text) :=
  let (negative, t) := sign t
  match t with
  | 'i' :: 'n' :: 'f' :: t => some (.float (.infinite negative), t)
  | 'n' :: 'a' :: 'n' :: t => some (.float .nan, t)
  | _ => none

def number? (t : Text) : Option (Value × Text) :=
  match t with
  | '0' :: r => based? r <|> decimal? t
  | t => decimal? t <|> wordFloat? t

def fixed? (count : Nat) (t : Text) : Option (Nat × Text) :=
  let ds := t.take count
  if ds.length = count ∧ ds.all Char.isDigit then some (Text.decimal ds, t.drop count) else none

/-- Microseconds after a point; further digits are dropped. -/
def microseconds (t : Text) : Nat × Text :=
  match t with
  | '.' :: r =>
    match r.takeWhile Char.isDigit with
    | [] => (0, t)
    | ds => (Text.decimal ((ds ++ List.replicate 6 '0').take 6), r.dropWhile Char.isDigit)
  | t => (0, t)

def time? (t : Text) : Option (Time × Text) := do
  let (hour, t) ← fixed? 2 t
  let (minute, t) ← Text.after? [':'] t >>= fixed? 2
  let (second, t) ← Text.after? [':'] t >>= fixed? 2
  if hour < 24 ∧ minute < 60 ∧ second < 60 then
    let (micro, t) := microseconds t
    pure (⟨hour, minute, second, micro⟩, t)
  else none

def date? (t : Text) : Option (Date × Text) := do
  let (year, t) ← fixed? 4 t
  let (month, t) ← Text.after? ['-'] t >>= fixed? 2
  let (day, t) ← Text.after? ['-'] t >>= fixed? 2
  pure (⟨year, month, day⟩, t)

def zone (t : Text) : Option Zone × Text :=
  let distance (r : Text) : Option ((Nat × Nat) × Text) := do
    let (hours, r) ← fixed? 2 r
    let (minutes, r) ← Text.after? [':'] r >>= fixed? 2
    if hours < 24 ∧ minutes < 60 then pure ((hours, minutes), r) else none
  match t with
  | 'Z' :: r | 'z' :: r => (some .universal, r)
  | '+' :: r => ((distance r).map fun p => (some (.ahead p.1.1 p.1.2), p.2)).getD (none, t)
  | '-' :: r => ((distance r).map fun p => (some (.behind p.1.1 p.1.2), p.2)).getD (none, t)
  | t => (none, t)

def dated? (t : Text) : Option (Stamp × Text) :=
  match date? t with
  | none => none
  | some (d, t) =>
    if !d.isReal then none
    else
      match t with
      | c :: r =>
        if c = 'T' ∨ c = 't' ∨ c = ' ' then
          match time? r with
          | some (time, r) =>
            let (z, r) := zone r
            some (.moment d time z, r)
          | none => some (.date d, t)
        else some (.date d, t)
      | [] => some (.date d, [])

def stamp? (t : Text) : Option (Stamp × Text) :=
  dated? t <|> (time? t).map fun p => (.time p.1, p.2)

def scalar? (t : Text) : Option (Value × Text) :=
  ((stamp? t).map fun p => (.stamp p.1, p.2)) <|> number? t

end Splice.Toml
