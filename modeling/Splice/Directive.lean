import Splice.Failure
import Splice.Text.Blank

set_option autoImplicit false

namespace Splice

/-- The text that starts a comment; it is never empty. -/
structure Marker where
  text : Text
  nonempty : text ≠ []
  deriving DecidableEq

inductive Kind where
  | searched | relative
  deriving DecidableEq, Repr

structure Include where
  kind : Kind
  name : Text
  deriving DecidableEq, Repr

inductive Reading where
  | plain
  | inclusion (directive : Include)
  | malformed (message : Text)
  deriving DecidableEq, Repr

def Include.reference (d : Include) (includer : Identity) : Reference :=
  match d.kind with
  | .searched => .searched d.name
  | .relative => .relative d.name includer

def enclosed? (opening closing : Char) : Text → Option Text
  | [] => none
  | c :: t =>
    if c = opening ∧ t.getLast? = some closing then some t.dropLast else none

def includeWord : Text := ['i', 'n', 'c', 'l', 'u', 'd', 'e']

def readCommand (rest : Text) : Reading :=
  match Text.after? includeWord (Text.trimLeft rest) with
  | none => .malformed ("invalid preproc statement `".toList ++ rest ++ ['`'])
  | some tail =>
    let target := Text.trim tail
    match enclosed? '<' '>' target with
    | some name => .inclusion ⟨.searched, name⟩
    | none =>
      match enclosed? '"' '"' target with
      | some name => .inclusion ⟨.relative, name⟩
      | none => .malformed ("invalid include statement `".toList ++ rest ++ ['`'])

namespace Marker

def ofText (t : Text) : Except Failure Marker :=
  if h : t = [] then .error .emptyMarker else .ok ⟨t, h⟩

def default : Marker := ⟨['/', '/'], by simp⟩

def shown (m : Marker) : Text := "CommentParser(".toList ++ Text.quoted m.text ++ [')']

def read (m : Marker) (line : Text) : Reading :=
  match Text.after? (m.text ++ ['&']) line with
  | none => .plain
  | some rest => readCommand rest

end Marker

/-- Collects the directives of lines numbered from `index`, up to the first malformed line. -/
def scanFrom (read : Text → Reading) (identity : Option Identity) (index : Nat) :
    List Text → Except Failure (List (Nat × Include))
  | [] => .ok []
  | l :: ls =>
    match read l with
    | .plain => scanFrom read identity (index + 1) ls
    | .malformed message => .error (.malformed index message identity)
    | .inclusion d =>
      match scanFrom read identity (index + 1) ls with
      | .ok ds => .ok ((index, d) :: ds)
      | .error e => .error e

def scan (read : Text → Reading) (identity : Option Identity) (ls : List Text) :
    Except Failure (List (Nat × Include)) :=
  scanFrom read identity 0 ls

end Splice
