import Splice.Value

set_option autoImplicit false

namespace Splice.Toml

/-- Changes the table at the end of a path. There is no result if something else than a table is met
on the way or the change itself has none. -/
def within (change : Table → Option Table) : List Text → Table → Option Table
  | [], t => change t
  | k :: path, t =>
    match Keyed.get? k t with
    | none => (within change path []).map fun u => Keyed.put k (.table u) t
    | some (.table u) => (within change path u).map fun u => Keyed.put k (.table u) t
    | some (.list vs) =>
      match vs.getLast? with
      | some (.table u) =>
        (within change path u).map fun u => Keyed.put k (.list (vs.dropLast ++ [.table u])) t
      | _ => none
    | some _ => none

def define (k : Text) (v : Value) (t : Table) : Option Table :=
  if k ∈ Keyed.keys t then none else some (Keyed.put k v t)

def addElement (k : Text) (t : Table) : Option Table :=
  match Keyed.get? k t with
  | none => some (Keyed.put k (.list [.table []]) t)
  | some (.list vs) => some (Keyed.put k (.list (vs ++ [.table []])) t)
  | some _ => none

/-- What is known about paths while a document is read. -/
structure Marks where
  /-- Paths at and below which nothing can be added: values written in one piece. -/
  frozen : List (List Text)
  declared : List (List Text)
  deriving DecidableEq, Repr

namespace Marks

def empty : Marks := ⟨[], []⟩

def isFrozen (m : Marks) (path : List Text) : Bool := m.frozen.any (·.isPrefixOf path)

def isDeclared (m : Marks) (path : List Text) : Bool := path ∈ m.declared

def freeze (m : Marks) (path : List Text) : Marks := { m with frozen := path :: m.frozen }

def declare (m : Marks) (paths : List (List Text)) : Marks :=
  { m with declared := paths ++ m.declared }

def forget (m : Marks) (path : List Text) : Marks :=
  ⟨m.frozen.filter (!path.isPrefixOf ·), m.declared.filter (!path.isPrefixOf ·)⟩

end Marks

def starts (path : List Text) : List (List Text) :=
  (List.range (path.length - 1)).map fun n => path.take (n + 1)

end Splice.Toml
