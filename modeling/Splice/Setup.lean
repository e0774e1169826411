import Splice.Config
import Splice.Discovery
import Splice.Locator

set_option autoImplicit false

namespace Splice

def Value.members : Value → Except Failure (List Value)
  | .list vs => .ok vs
  | .table es => .ok (es.map fun p => .text p.1)
  | .text t => .ok (t.map fun c => .text [c])
  | _ => .error .mistyped

def routesOf : List Value → Except Failure (List Route)
  | [] => .ok []
  | .text t :: vs => (routesOf vs).map (.ofText t :: ·)
  | _ :: _ => .error .mistyped

/-- The locator of a configuration. Search paths that are given come before the configured ones; a
text that is configured is a single path. -/
def Locator.ofConfig (config given : Value) : Except Failure Locator := do
  let heading ← Config.lookup "preprocess".toList (.table []) config
  let configured ← Config.lookup "include_paths".toList (.list []) heading
  let encoding ← Config.lookup "encoding".toList (.text "utf-8".toList) heading
  let first ← if given.isGiven then given.members else pure []
  let second ← match configured with
    | .text t => pure [.text t]
    | v => v.members
  let paths ← routesOf (first ++ second)
  pure ⟨paths, .ofText ['.'], encoding⟩

abbrev Scanner := Option Identity → List Text → Except Failure (List (Nat × Include))

/-- How directives are found by a marker. One that is no text fails at the first line. -/
def Scanner.ofValue : Value → Except Failure Scanner
  | .text t => (Marker.ofText t).map fun m i ls => scan m.read i ls
  | v =>
    if v.isGiven then .ok fun _ ls => if ls = [] then .ok [] else .error .mistyped
    else .error .emptyMarker

def scannerOf (config given : Value) : Except Failure Scanner := do
  let marker ←
    if given.isGiven then pure given
    else Config.setting "preprocess".toList "comment".toList (.text "//".toList) config
  Scanner.ofValue marker

def Search.ofConfig (d : Disk) (config paths marker : Value) : Except Failure Search := do
  let l ← Locator.ofConfig config paths
  let scanner ← scannerOf config marker
  pure ⟨l.source d, fun i => scanner (some i)⟩

def discover (d : Disk) (config paths marker : Value) (seed : Reference) : Outcome Built :=
  match Search.ofConfig d config paths marker with
  | .ok s => s.run seed
  | .error e => ⟨[], .error e⟩

end Splice
