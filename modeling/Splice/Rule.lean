import Splice.Event

set_option autoImplicit false

namespace Splice

structure Rule where
  text : Text
  events : List Event
  deriving DecidableEq, Repr

namespace Rule

/-- An identity without a given start. An empty start removes nothing; another one is reported if
the identity does not have it. -/
def strip (start : Text) (i : Identity) : Identity × List Event :=
  if start = [] then (i, [])
  else
    match Text.after? start i with
    | some rest => (rest, [])
    | none => (i, [.unstripped start i])

def make (target : Text) (identities : List Identity) (start : Text) : Rule :=
  let names := identities.map (strip start)
  { text := Text.substitute '\\' '/'
      (target ++ [':', ' '] ++ Text.join [' '] (names.map Prod.fst))
    events := names.flatMap Prod.snd }

/-- The rule if what is to be removed can be any value. A value that does not count as given removes
nothing; any other value that is no text fails at the first file. -/
def makeBy (target : Text) (identities : List Identity) (start : Value) : Except Failure Rule :=
  match start with
  | .text t => .ok (make target identities t)
  | v =>
    if v.isGiven ∧ identities ≠ [] then .error .mistyped else .ok (make target identities [])

end Rule
end Splice
