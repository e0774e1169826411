import Splice.Text.Basic

set_option autoImplicit false

namespace Splice

/-- A spelled path: zero, one or two leading slashes, then names. -/
structure Route where
  slashes : Nat
  names : List Text
  deriving DecidableEq, Repr

namespace Route

/-- Exactly two leading slashes count as two, any other number of them as one. -/
def leading (t : Text) : Nat :=
  match (t.takeWhile (· = '/')).length with
  | 0 => 0
  | 2 => 2
  | _ => 1

def namesOf (t : Text) : List Text :=
  (Text.pieces '/' t).filter fun s => s ≠ [] ∧ s ≠ ['.']

def ofText (t : Text) : Route := ⟨leading t, namesOf t⟩

/-- The spelling of a route; a route without slashes and names is the single point. -/
def text (r : Route) : Text :=
  if r.slashes = 0 ∧ r.names = [] then ['.']
  else List.replicate r.slashes '/' ++ Text.join ['/'] r.names

def isAbsolute (r : Route) : Bool := r.slashes ≠ 0

def append (a b : Route) : Route :=
  if b.isAbsolute then b else ⟨a.slashes, a.names ++ b.names⟩

def parent (r : Route) : Route := { r with names := r.names.dropLast }

def name (r : Route) : Text := r.names.getLastD []

/-- The name cut at its last point, if that point is neither its first nor its last character. -/
def stem (name : Text) : Text :=
  let tail := name.reverse.takeWhile (· ≠ '.')
  let start := name.take (name.length - tail.length - 1)
  if tail ≠ [] ∧ tail.length < name.length ∧ start ≠ [] then start else name

/-- A suffix is empty, or a point followed by something without a slash. -/
def isSuffix (s : Text) : Bool := s = [] || (s.head? = some '.' && s ≠ ['.'] && '/' ∉ s)

def withSuffix (r : Route) (suffix : Text) : Route :=
  { r with names := r.names.dropLast ++ [stem r.name ++ suffix] }

end Route
end Splice
