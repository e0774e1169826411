import Splice.Failure
import Splice.Text.Line
import Splice.Toml.Item

/-!
Documents of TOML: lines with an entry, a table header or nothing, each with a comment if any. An
entry belongs to the table of the last header. A table is declared once; tables made on the way by a
dotted key cannot be declared after the next header.
-/

set_option autoImplicit false

namespace Splice.Toml

structure Draft where
  root : Table
  marks : Marks
  header : List Text
  pending : List (List Text)

namespace Draft

def empty : Draft := ⟨[], .empty, [], []⟩

def addEntry (d : Draft) (path : List Text) (v : Value) : Option Draft :=
  match path.getLast? with
  | none => none
  | some k =>
    let made := (starts path).map (d.header ++ ·)
    let place := d.header ++ path.dropLast
    if made.any d.marks.isDeclared ∨ d.marks.isFrozen place then none
    else
      (within (define k v) place d.root).map fun root =>
        { d with
          root := root
          marks := if isCompound v then d.marks.freeze (d.header ++ path) else d.marks
          pending := made ++ d.pending }

/-- What dotted keys have made counts as declared from the next header on. -/
def settled (d : Draft) : Draft := { d with marks := d.marks.declare d.pending, pending := [] }

def openTable (d : Draft) (path : List Text) : Option Draft :=
  if d.marks.isDeclared path ∨ d.marks.isFrozen path then none
  else
    (within some path d.root).map fun root =>
      { d with root := root, marks := d.marks.declare [path], header := path }

def openElement (d : Draft) (path : List Text) : Option Draft :=
  match path.getLast? with
  | none => none
  | some k =>
    if d.marks.isFrozen path then none
    else
      (within (addElement k) path.dropLast d.root).map fun root =>
        { d with root := root, marks := (d.marks.forget path).declare [path], header := path }

end Draft

def header? (d : Draft) : Text → Option (Draft × Text)
  | '[' :: t =>
    match key? (skipSpace t) with
    | some (path, ']' :: ']' :: t) => (d.openElement path).map fun d => (d, t)
    | _ => none
  | t =>
    match key? (skipSpace t) with
    | some (path, ']' :: t) => (d.openTable path).map fun d => (d, t)
    | _ => none

def statement? (d : Draft) (t : Text) : Option (Draft × Text) :=
  match t with
  | [] | '\n' :: _ | '#' :: _ => some (d, t)
  | '[' :: t => header? d.settled t
  | t =>
    match pair? t with
    | some (path, v, t) => (d.addEntry path v).map fun d => (d, t)
    | none => none

/-- Reads lines to the end. Each passes a character, so the length of the text is enough fuel. -/
def statements? : Nat → Draft → Text → Option Draft
  | 0, _, _ => none
  | fuel + 1, d, t =>
    match statement? d (skipSpace t) with
    | none => none
    | some (d, t) =>
      match comment? (skipSpace t) with
      | some [] => some d
      | some ('\n' :: t) => statements? fuel d t
      | _ => none

def parse (t : Text) : Except Failure Table :=
  match statements? (t.length + 1) .empty (Text.unixLines t) with
  | some d => .ok d.root
  | none => .error .badToml

end Splice.Toml
