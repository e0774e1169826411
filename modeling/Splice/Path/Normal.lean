import Splice.Path.Route

set_option autoImplicit false

namespace Splice.Path

def up : Text := ['.', '.']

def settle (absolute : Bool) (past : List Text) (name : Text) : List Text :=
  if name ≠ up then name :: past
  else
    match past with
    | [] => if absolute then [] else [up]
    | last :: rest => if last = up then up :: past else rest

def cancel (absolute : Bool) (names : List Text) : List Text :=
  (names.foldl (settle absolute) []).reverse

def normal (t : Text) : Text :=
  let r := Route.ofText t
  Route.text ⟨r.slashes, cancel r.isAbsolute r.names⟩

/-- One path after another; an absolute one replaces the whole. -/
def join (a b : Text) : Text :=
  if b.head? = some '/' then b
  else if a = [] ∨ a.getLast? = some '/' then a ++ b
  else a ++ ['/'] ++ b

/-- Everything before the last slash. Slashes at its end go too, unless there is nothing else. -/
def directory (t : Text) : Text :=
  let head := (t.reverse.dropWhile (· ≠ '/')).reverse
  if head.all (· = '/') then head else (head.reverse.dropWhile (· = '/')).reverse

def canonical (t : Text) : Text := normal (Text.substitute '\\' '/' t)

end Splice.Path
