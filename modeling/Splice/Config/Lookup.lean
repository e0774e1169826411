import Splice.Config
import Splice.Path.Real
import Splice.Toml.Document

set_option autoImplicit false

namespace Splice.Config

/-- The configuration file in the directory with the given leading slashes and names, last name
first, or in the nearest directory above it that has one. -/
def nearest (d : Disk) (slashes : Nat) : List Text → Except Failure (Option Route)
  | [] => check []
  | n :: above =>
    match check (n :: above) with
    | .ok none => nearest d slashes above
    | found => found
where
  check (names : List Text) : Except Failure (Option Route) :=
    let candidate : Route := ⟨slashes, names.reverse ++ [fileName]⟩
    match d.isFile candidate with
    | .ok true => .ok (some candidate)
    | .ok false => .ok none
    | .error e => .error e

def find (d : Disk) (start : Route) : Except Failure (Option Route) :=
  match d.real start with
  | .ok r => nearest d r.slashes r.names.reverse
  | .error e => .error e

/-- Every line end becomes a line feed. -/
def plainLines : Text → Text
  | '\r' :: '\n' :: t => '\n' :: plainLines t
  | c :: t => (if c = '\r' then '\n' else c) :: plainLines t
  | [] => []

def load (d : Disk) (path : Route) (reader : Reader := Toml.parse) : Except Failure Table :=
  match d.read path with
  | .error e => .error e
  | .ok bytes =>
    match Codec.Utf8.decode bytes with
    | .error f => .error (.undecodable f)
    | .ok t => reader (plainLines t) >>= mergeTables defaults

def effective (d : Disk) (environment : Environment) (path : Option Route) (start : Option Route)
    (reader : Reader := Toml.parse) : Except Failure Table := do
  let path ← match path with
    | some p => pure (some p)
    | none => find d (start.getD ⟨1, d.cwd⟩)
  let config ← match path with
    | some p => load d p reader
    | none => pure defaults
  applyEnvironment config environment

end Splice.Config
