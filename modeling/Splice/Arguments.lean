import Splice.Keyed
import Splice.Text.Digit
import Splice.Text.Quoted

set_option autoImplicit false

namespace Splice

inductive Operand where
  | none
  | one
  | tail
  deriving DecidableEq, Repr

structure Grammar (κ : Type) where
  spellings : List (Text × κ)
  takesValue : κ → Bool
  choices : κ → List Text
  isFinal : κ → Bool
  operand : Operand

inductive Misuse where
  | ambiguous (argument : Text) (candidates : List Text)
  | unusedValue (label value : Text)
  | missingValue (label : Text)
  | badChoice (label value : Text) (choices : List Text)
  | missingOperand (name : Text)
  | unrecognized (arguments : List Text)
  deriving DecidableEq, Repr

def Misuse.message : Misuse → Text
  | .ambiguous a cs =>
    "ambiguous option: ".toList ++ a ++ " could match ".toList ++ Text.join [',', ' '] cs
  | .unusedValue l v =>
    "argument ".toList ++ l ++ ": ignored explicit argument ".toList ++ Text.quoted v
  | .missingValue l => "argument ".toList ++ l ++ ": expected one argument".toList
  | .badChoice l v cs =>
    "argument ".toList ++ l ++ ": invalid choice: ".toList ++ Text.quoted v ++
      " (choose from ".toList ++ Text.join [',', ' '] (cs.map Text.quoted) ++ [')']
  | .missingOperand n => "the following arguments are required: ".toList ++ n
  | .unrecognized as => "unrecognized arguments: ".toList ++ Text.join [' '] as

inductive Halt (κ : Type) where
  | misuse (m : Misuse)
  | final (key : κ)

inductive Mark (κ : Type) where
  | plain
  | dashes
  | option (key : κ) (spelling : Text) (value : Option Text)
  | unknown

/-- What was read. An option that takes a value but was given two dashes for it has none. -/
structure Parsed (κ : Type) where
  settings : List (κ × Option Text)
  operand : List Text
  extras : List Text

namespace Grammar

variable {κ : Type} [DecidableEq κ] (g : Grammar κ)

def dashes : Text := ['-', '-']

def label (k : κ) : Text :=
  Text.join ['/'] ((g.spellings.filter fun p => p.2 = k).map Prod.fst)

def key? (spelling : Text) : Option κ := Keyed.get? spelling g.spellings

/-- The options that an argument may be short for: with two dashes those that start with what
precedes an equals sign; else the one of its first letter with the rest as its value, and those that
start with the whole. -/
def readings (a : Text) : List (κ × Text × Option Text) :=
  if Text.startsWith dashes a then
    let (start, v) := Text.cut '=' a
    g.spellings.filterMap fun p => if Text.startsWith start p.1 then some (p.2, p.1, v) else none
  else
    g.spellings.filterMap fun p =>
      if p.1 = a.take 2 then some (p.2, p.1, some (a.drop 2))
      else if Text.startsWith a p.1 then some (p.2, p.1, none)
      else none

def guess (a : Text) : Except Misuse (Mark κ) :=
  match g.readings a with
  | [] => .ok (if Text.isNegativeNumber a ∨ ' ' ∈ a then .plain else .unknown)
  | [(k, s, v)] => .ok (.option k s v)
  | rs => .error (.ambiguous a (rs.map fun r => r.2.1))

def mark (a : Text) : Except Misuse (Mark κ) :=
  if a.head? ≠ some '-' then .ok .plain
  else
    match g.key? a with
    | some k => .ok (.option k a none)
    | none =>
      if a = ['-'] then .ok .plain
      else
        match Text.cut '=' a with
        | (s, some v) =>
          match g.key? s with
          | some k => .ok (.option k s (some v))
          | none => g.guess a
        | (_, none) => g.guess a

/-- What each argument is. After two dashes all are plain. -/
def marks : List Text → Except Misuse (List (Text × Mark κ))
  | [] => .ok []
  | a :: as =>
    if a = dashes then .ok ((a, .dashes) :: as.map fun b => (b, .plain))
    else
      match g.mark a with
      | .error m => .error m
      | .ok m =>
        match marks as with
        | .error e => .error e
        | .ok ms => .ok ((a, m) :: ms)

/-- The options that an argument with an attached text stands for. After a short option without a
value the text goes on with further ones. The last option may still want a value. -/
def unpack (k : κ) (isShort : Bool) (attached : Text) : Except Misuse (List (κ × Option Text)) :=
  if g.takesValue k then .ok [(k, some attached)]
  else
    match attached with
    | [] => .error (.unusedValue (g.label k) [])
    | c :: rest =>
      if isShort then
        match g.key? ['-', c] with
        | none => .error (.unusedValue (g.label k) (c :: rest))
        | some next =>
          if rest = [] then .ok [(k, none), (next, none)]
          else (unpack next true rest).map ((k, none) :: ·)
      else .error (.unusedValue (g.label k) (c :: rest))

def isShort (spelling : Text) : Bool := !Text.startsWith dashes spelling

/-- Takes in options with their values. A value of two dashes is dropped. -/
def accept : List (κ × Option Text) → Parsed κ → Except (Halt κ) (Parsed κ)
  | [], p => .ok p
  | (k, v) :: uses, p =>
    if g.isFinal k then .error (.final k)
    else
      match v with
      | none => accept uses { p with settings := p.settings ++ [(k, none)] }
      | some t =>
        if t = dashes then accept uses { p with settings := p.settings ++ [(k, none)] }
        else if g.choices k ≠ [] ∧ t ∉ g.choices k then
          .error (.misuse (.badChoice (g.label k) t (g.choices k)))
        else accept uses { p with settings := p.settings ++ [(k, some t)] }

def supply (v : Text) : List (κ × Option Text) → List (κ × Option Text)
  | [] => []
  | [(k, _)] => [(k, some v)]
  | use :: uses => use :: supply v uses

def wanting? (uses : List (κ × Option Text)) : Option κ :=
  match uses.getLast? with
  | some (k, none) => if g.takesValue k then some k else none
  | _ => none

def consume : List (Text × Mark κ) → Parsed κ → Except (Halt κ) (Parsed κ)
  | [], p => .ok p
  | (a, .unknown) :: rest, p => consume rest { p with extras := p.extras ++ [a] }
  | (_, .option k s v) :: rest, p =>
    let uses : Except Misuse (List (κ × Option Text)) := match v with
      | none => .ok [(k, none)]
      | some t => g.unpack k (isShort s) t
    match uses with
    | .error m => .error (.misuse m)
    | .ok uses =>
      match g.wanting? uses, rest with
      | none, rest =>
        match g.accept uses p with
        | .error h => .error h
        | .ok p => consume rest p
      | some _, (v, .plain) :: rest =>
        match g.accept (supply v uses) p with
        | .error h => .error h
        | .ok p => consume rest p
      | some k, _ => .error (.misuse (.missingValue (g.label k)))
  | (a, .plain) :: rest, p =>
    if p.operand ≠ [] then consume rest { p with extras := p.extras ++ [a] }
    else
      match g.operand, rest with
      | .tail, rest => .ok { p with operand := a :: rest.map Prod.fst }
      | .one, (_, .dashes) :: rest => consume rest { p with operand := [a] }
      | .one, rest => consume rest { p with operand := [a] }
      | .none, rest => consume rest { p with extras := p.extras ++ [a] }
  | (a, .dashes) :: rest, p =>
    match g.operand, p.operand, rest with
    | .tail, [], b :: rest => .ok { p with operand := a :: b.1 :: rest.map Prod.fst }
    | .one, [], b :: rest => consume rest { p with operand := [b.1] }
    | _, _, rest => consume rest { p with extras := p.extras ++ [a] }

def parse (arguments : List Text) : Except (Halt κ) (Parsed κ) :=
  match g.marks arguments with
  | .error m => .error (.misuse m)
  | .ok ms => g.consume ms ⟨[], [], []⟩

end Grammar
end Splice
