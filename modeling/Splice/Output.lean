import Splice.Config
import Splice.Path.Route

set_option autoImplicit false

namespace Splice

def Route.replaceSuffix (r : Route) (suffix : Text) : Except Failure Route :=
  if !Route.isSuffix suffix then .error (.badSuffix (Text.quoted suffix))
  else if r.name = [] then .error (.noName r.text)
  else .ok (r.withSuffix suffix)

/-- Puts a configured suffix in the place of the last one. Of the values that are no texts, lists
and tables fail by what they hold. -/
def Route.replaceSuffixBy (r : Route) (suffix : Value) : Except Failure Route :=
  let collection (members : List Text) (isEmpty : Bool) : Except Failure Route :=
    if ['/'] ∈ members then
      .error (if suffix.isShowable then .badSuffix suffix.shown else .longInteger none)
    else if !isEmpty then .error .notTable
    else if r.name = [] then .error (.noName r.text)
    else .error .mistyped
  match suffix with
  | .text s => r.replaceSuffix s
  | .list vs =>
    collection (vs.filterMap fun
      | .text t => some t
      | _ => none) vs.isEmpty
  | .table es => collection (Keyed.keys es) es.isEmpty
  | _ => .error .mistyped

namespace Config

def outputSuffix (config : Value) : Except Failure Value :=
  setting "preprocess".toList "output_suffix".toList (.text ".i".toList) config

def outputPath (file : Text) (config : Value) : Except Failure Route :=
  match outputSuffix config with
  | .ok suffix => (Route.ofText file).replaceSuffixBy suffix
  | .error e => .error e

/-- What is to be removed from the front of names: what was asked for, else what is configured. A
value that does not count as given removes nothing. -/
def removedStart (asked : Option Value) (config : Value) : Except Failure (Option Value) :=
  let counted (v : Value) : Option Value := if v.isGiven then some v else none
  match asked with
  | some v => .ok (counted v)
  | none => (setting "depfile".toList "strip_prefix".toList .null config).map counted

end Config
end Splice
