import Splice.Text.Basic

set_option autoImplicit false

namespace Splice

/-- The name under which a file is known once it has been found. -/
abbrev Identity := Text

inductive Reference where
  | searched (name : Text)
  | relative (name parent : Text)
  deriving DecidableEq, Repr

def Reference.text : Reference → Text
  | .searched name => ['<'] ++ name ++ ['>']
  | .relative name parent => ['"'] ++ name ++ "\" (local to ".toList ++ parent ++ [')']

/-- A plain file name given as the start is relative to the working directory. -/
def Reference.ofSeed (name : Text) : Reference := .relative name "./".toList

end Splice
