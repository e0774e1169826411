import Splice.Text.Quoted

set_option autoImplicit false

namespace Splice

structure Date where
  year : Nat
  month : Nat
  day : Nat
  deriving DecidableEq, Repr

structure Time where
  hour : Nat
  minute : Nat
  second : Nat
  microsecond : Nat
  deriving DecidableEq, Repr

inductive Zone where
  | universal
  | ahead (hours minutes : Nat)
  | behind (hours minutes : Nat)
  deriving DecidableEq, Repr

/-- A date, a time of day, or both in a zone that need not be known. -/
inductive Stamp where
  | date (d : Date)
  | time (t : Time)
  | moment (d : Date) (t : Time) (zone : Option Zone)
  deriving DecidableEq, Repr

namespace Date

def isLeap (year : Nat) : Bool := year % 4 = 0 && (year % 100 ≠ 0 || year % 400 = 0)

def daysIn (year month : Nat) : Nat :=
  if month = 2 then (if isLeap year then 29 else 28)
  else if month ∈ [4, 6, 9, 11] then 30 else 31

def isReal (d : Date) : Bool :=
  1 ≤ d.year && 1 ≤ d.month && d.month ≤ 12 && 1 ≤ d.day && d.day ≤ daysIn d.year d.month

end Date

def padded (width n : Nat) : Text :=
  let digits := Text.ofNat n
  List.replicate (width - digits.length) '0' ++ digits

def Date.text (d : Date) : Text :=
  padded 4 d.year ++ ['-'] ++ padded 2 d.month ++ ['-'] ++ padded 2 d.day

def Time.text (t : Time) : Text :=
  padded 2 t.hour ++ [':'] ++ padded 2 t.minute ++ [':'] ++ padded 2 t.second ++
    (if t.microsecond = 0 then [] else '.' :: padded 6 t.microsecond)

def distance (sign : Char) (hours minutes : Nat) : Text :=
  sign :: padded 2 hours ++ [':'] ++ padded 2 minutes

namespace Zone

def text : Zone → Text
  | universal => distance '+' 0 0
  | ahead h m => distance '+' h m
  | behind h m => distance (if h = 0 ∧ m = 0 then '+' else '-') h m

def name : Zone → Text
  | universal => "UTC".toList
  | ahead h m => distance '+' h m
  | behind h m => distance '-' h m

def seconds : Zone → Int
  | universal => 0
  | ahead h m => 3600 * h + 60 * m
  | behind h m => -(3600 * h + 60 * m)

/-- The zone as it is shown in messages: its distance, of which only days count backward, and its
name. -/
def shown (z : Zone) : Text :=
  let span :=
    if z.seconds = 0 then ['0']
    else if z.seconds < 0 then
      "days=-1, seconds=".toList ++ Text.ofInt (86400 + z.seconds)
    else "seconds=".toList ++ Text.ofInt z.seconds
  "datetime.timezone(datetime.timedelta(".toList ++ span ++ "), ".toList ++ Text.quoted z.name ++
    [')']

end Zone

def Time.parts (t : Time) : List Nat :=
  [t.hour, t.minute] ++
    if t.microsecond ≠ 0 then [t.second, t.microsecond]
    else if t.second ≠ 0 then [t.second]
    else []

def Date.parts (d : Date) : List Nat := [d.year, d.month, d.day]

namespace Stamp

def text : Stamp → Text
  | date d => d.text
  | time t => t.text
  | moment d t zone => d.text ++ ['T'] ++ t.text ++ (zone.map Zone.text).getD []

def shown (s : Stamp) : Text :=
  let call (kind : String) (ts : List Text) : Text :=
    "datetime.".toList ++ kind.toList ++ ['('] ++ Text.join [',', ' '] ts ++ [')']
  match s with
  | date d => call "date" (d.parts.map Text.ofNat)
  | time t => call "time" (t.parts.map Text.ofNat)
  | moment d t zone =>
    call "datetime" ((d.parts ++ t.parts).map Text.ofNat ++
      zone.toList.map fun z => "tzinfo=".toList ++ z.shown)

end Stamp
end Splice
