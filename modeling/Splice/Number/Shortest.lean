import Splice.Number.Binary64

/-!
Shortest decimals: the fewest digits that read back as the same number, and of those the nearest
to it. Decimal exponents from -4 to 15 are written positionally.
-/

set_option autoImplicit false

namespace Splice.Binary64

/-- Bounds around `mantissa * 2 ^ exponent` in quarters of its last place: the decimals between them
read back as the number, and the bounds themselves if the mantissa is even. -/
structure Interval where
  low : Nat
  value : Nat
  high : Nat
  closed : Bool
  deriving DecidableEq, Repr

def interval (mantissa : Nat) (exponent : Int) : Interval :=
  { low := 4 * mantissa - (if mantissa = Nat.pow 2 52 ∧ exponent > -1074 then 1 else 2)
    value := 4 * mantissa
    high := 4 * mantissa + 2
    closed := mantissa % 2 = 0 }

def Interval.holds (i : Interval) (step c : Nat) (quarter : Nat) : Bool :=
  let x := c * step
  if i.closed then i.low * quarter ≤ x && x ≤ i.high * quarter
  else i.low * quarter < x && x < i.high * quarter

def Interval.pick (i : Interval) (step quarter : Nat) : Option Nat :=
  let v := i.value * quarter
  let c := v / step
  let below := v - c * step
  let above := (c + 1) * step - v
  match i.holds step c quarter, i.holds step (c + 1) quarter with
  | true, true => some (if below < above ∨ (below = above ∧ c % 2 = 0) then c else c + 1)
  | true, false => some c
  | false, true => some (c + 1)
  | false, false => none

/-- Tries `count` grids from the one with `10 ^ power` as its step downwards. The number is
`value * quarter / one` in quarters and units of the scale. -/
def searchGrid (i : Interval) (quarter one : Nat) : Nat → Int → Nat × Int
  | 0, power => (i.value * quarter / one, power)
  | count + 1, power =>
    let (step, quarter') :=
      if power < 0 then (one, quarter * Nat.pow 10 (-power).toNat)
      else (one * Nat.pow 10 power.toNat, quarter)
    match i.pick step quarter' with
    | some c => (c, power)
    | none => searchGrid i quarter one count (power - 1)

def stripZeros : Nat → Nat → Int → Nat × Int
  | 0, c, power => (c, power)
  | fuel + 1, c, power =>
    if c ≠ 0 ∧ c % 10 = 0 then stripZeros fuel (c / 10) (power + 1) else (c, power)

/-- The shortest decimal `c * 10 ^ power` of a finite number that is not zero. -/
def shortest (mantissa : Nat) (exponent : Int) : Nat × Int :=
  let i := interval mantissa exponent
  let e := exponent - 2
  let (quarter, one) := if e < 0 then (1, Nat.pow 2 (-e).toNat) else (Nat.pow 2 e.toNat, 1)
  let whole := i.value * quarter / one
  let start : Int :=
    if whole > 0 then (Text.ofNat whole).length
    else 1 - ((Text.ofNat (one / (i.value * quarter))).length : Int)
  let (c, power) := searchGrid i quarter one 19 start
  stripZeros (Text.ofNat c).length c power

def written (c : Nat) (power : Int) : Text :=
  let digits := Text.ofNat c
  let point : Int := digits.length + power
  if -4 < point ∧ point ≤ 16 then
    if point ≤ 0 then
      ['0', '.'] ++ List.replicate (-point).toNat '0' ++ digits
    else if digits.length ≤ point.toNat then
      digits ++ List.replicate (point.toNat - digits.length) '0' ++ ['.', '0']
    else digits.take point.toNat ++ ['.'] ++ digits.drop point.toNat
  else
    let e := point - 1
    let size := Text.ofNat e.natAbs
    digits.take 1 ++ (if digits.length = 1 then [] else '.' :: digits.drop 1) ++
      ['e', if e < 0 then '-' else '+'] ++ (if size.length < 2 then '0' :: size else size)

def text : Binary64 → Text
  | .nan => ['n', 'a', 'n']
  | .infinite negative => (if negative then ['-'] else []) ++ ['i', 'n', 'f']
  | .finite negative m e =>
    (if negative then ['-'] else []) ++
      (if m = 0 then ['0', '.', '0'] else
        let (c, power) := shortest m e
        written c power)

end Splice.Binary64
