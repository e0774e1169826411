import Splice.Toml.Quoted
import Splice.Toml.Scalar
import Splice.Toml.Table

set_option autoImplicit false

namespace Splice.Toml

def isBare (c : Char) : Bool := c.isAlphanum || c = '-' || c = '_'

def keyPart? (t : Text) : Option (Text × Text) :=
  match t.takeWhile isBare with
  | [] => line? t
  | k => some (k, t.dropWhile isBare)

def keyFrom? : Nat → Text → Option (List Text × Text)
  | 0, _ => none
  | fuel + 1, t =>
    match keyPart? t with
    | none => none
    | some (k, t) =>
      match skipSpace t with
      | '.' :: t => (keyFrom? fuel (skipSpace t)).map fun p => (k :: p.1, p.2)
      | t => some ([k], t)

def key? (t : Text) : Option (List Text × Text) := keyFrom? (t.length + 1) t

def comment? : Text → Option Text
  | '#' :: t =>
    let body := t.takeWhile (· ≠ '\n')
    if body.any isControl then none else some (t.dropWhile (· ≠ '\n'))
  | t => some t

def gap? : Nat → Text → Option Text
  | 0, _ => none
  | fuel + 1, t =>
    match skipLines t with
    | '#' :: t => (comment? ('#' :: t)).bind (gap? fuel)
    | t => some t

def isCompound : Value → Bool
  | .list _ | .table _ => true
  | _ => false

/-- Puts an entry with a dotted key into a table written in one piece. Such a table has no arrays of
tables to lead through. -/
def addEntry (path : List Text) (v : Value) (t : Table) (m : Marks) : Option (Table × Marks) :=
  match path.getLast? with
  | none => none
  | some k =>
    if m.isFrozen path then none
    else
      (within (define k v) path.dropLast t).map fun t =>
        (t, if isCompound v then m.freeze path else m)

mutual

def value? : Nat → Text → Option (Value × Text)
  | 0, _ => none
  | fuel + 1, t =>
    match t with
    | '"' :: _ | '\'' :: _ => (string? t).map fun p => (.text p.1, p.2)
    | 't' :: 'r' :: 'u' :: 'e' :: t => some (.bool true, t)
    | 'f' :: 'a' :: 'l' :: 's' :: 'e' :: t => some (.bool false, t)
    | '[' :: t =>
      (gap? (t.length + 1) t).bind fun t => (items? fuel t).map fun p => (.list p.1, p.2)
    | '\x7b' :: t =>
      match skipSpace t with
      | '\x7d' :: t => some (.table [], t)
      | t => (entries? fuel t [] .empty).map fun p => (.table p.1, p.2)
    | t => scalar? t

def items? : Nat → Text → Option (List Value × Text)
  | 0, _ => none
  | fuel + 1, t =>
    match t with
    | ']' :: t => some ([], t)
    | t =>
      match value? fuel t with
      | none => none
      | some (v, t) =>
        match gap? (t.length + 1) t with
        | some (']' :: t) => some ([v], t)
        | some (',' :: t) =>
          (gap? (t.length + 1) t).bind fun t =>
            (items? fuel t).map fun p => (v :: p.1, p.2)
        | _ => none

def entries? : Nat → Text → Table → Marks → Option (Table × Text)
  | 0, _, _, _ => none
  | fuel + 1, t, table, marks =>
    match key? t with
    | some (path, '=' :: t) =>
      match value? fuel (skipSpace t) with
      | none => none
      | some (v, t) =>
        match addEntry path v table marks with
        | none => none
        | some (table, marks) =>
          match skipSpace t with
          | '\x7d' :: t => some (table, t)
          | ',' :: t => entries? fuel (skipSpace t) table marks
          | _ => none
    | _ => none

end

/-- A key with its value and what follows. Every step of the reader passes a character, so twice the
length of the text is enough fuel. -/
def pair? (t : Text) : Option (List Text × Value × Text) :=
  match key? t with
  | some (path, '=' :: t) =>
    (value? (2 * t.length + 2) (skipSpace t)).map fun p => (path, p.1, p.2)
  | _ => none

end Splice.Toml
