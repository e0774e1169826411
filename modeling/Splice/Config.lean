import Splice.Failure
import Splice.Text.LowerCase

set_option autoImplicit false

namespace Splice.Config

abbrev Reader := Text → Except Failure Table

def fileName : Text := ".preproc.toml".toList

def defaults : Table :=
  [("preprocess".toList,
      .table
        [("comment".toList, .text "//".toList), ("include_paths".toList, .list []),
          ("output_suffix".toList, .text ".i".toList), ("encoding".toList, .text "utf-8".toList)]),
    ("depfile".toList, .table [("strip_prefix".toList, .text [])])]

mutual

def overlay : Option Value → Value → Value
  | some (.table base), .table changes => .table (merge base changes)
  | _, v => v
termination_by structural _ v => v

/-- The base with all changes made, nested tables key by key. New keys come last. -/
def merge : Table → Table → Table
  | base, [] => base
  | base, (k, v) :: changes => merge (Keyed.put k (overlay (Keyed.get? k base) v) base) changes
termination_by structural _ changes => changes

end

/-- The most calls that can be nested while configurations are merged. -/
def callLimit : Nat := 990

mutual

/-- How deeply calls are nested in the merge of two tables. It copies the base and then goes through
the changes. -/
def mergeCalls : Table → Table → Nat
  | base, [] => (Value.table base).copyCalls + 1
  | base, (k, v) :: changes =>
    max (overlayCalls (Keyed.get? k base) v + 1) (mergeCalls base changes)
termination_by structural _ changes => changes

def overlayCalls : Option Value → Value → Nat
  | some (.table base), .table changes => mergeCalls base changes
  | _, v => v.copyCalls
termination_by structural _ v => v

end

/-- The merge of two tables, unless its calls are nested too deeply. -/
def mergeTables (base changes : Table) : Except Failure Table :=
  if callLimit < mergeCalls base changes then .error (.tooDeep .copies)
  else .ok (merge base changes)

def copied (v : Value) : Except Failure Value :=
  if callLimit < v.copyCalls + 1 then .error (.tooDeep .copies) else .ok v

/-- Merging of any two values. Without changes the base stays as it is, whatever it is. -/
def mergeValues (base changes : Value) : Except Failure Value :=
  match base, changes with
  | .table b, .table c => (mergeTables b c).map .table
  | b, .table [] => copied b
  | b, .table ((_, .table _) :: _) => copied b >>= fun _ => .error .notTable
  | b, .table ((_, v) :: _) => copied b >>= fun _ => copied v >>= fun _ => .error .mistyped
  | b, _ => copied b >>= fun _ => .error .notTable

def lookup (key : Text) (default : Value) : Value → Except Failure Value
  | .table t => .ok ((Keyed.get? key t).getD default)
  | _ => .error .notTable

def setting (heading key : Text) (default : Value) (config : Value) : Except Failure Value :=
  match lookup heading (.table []) config with
  | .ok s => lookup key default s
  | .error e => .error e

abbrev Environment := List (Text × Text)

def variableStart : Text := "PREPROC_".toList

/-- The section and the key that a variable addresses: the rest of its name in small letters, cut at
the first underscore. -/
def address? (name : Text) : Option (Text × Text) :=
  match Text.after? variableStart name with
  | none => none
  | some rest =>
    match Text.cut '_' (Text.lower rest) with
    | (s, some k) => if s = [] ∨ k = [] then none else some (s, k)
    | (_, none) => none

/-- The value of a variable: a truth value in any case, JSON if it starts as a list or a table and
is well formed, else the text itself. -/
def variableValue (raw : Text) : Except Failure Value :=
  let low := Text.lower raw
  if low = "true".toList then .ok (.bool true)
  else if low = "false".toList then .ok (.bool false)
  else if raw.head? = some '[' ∨ raw.head? = some '\x7b' then
    match Json.parse raw with
    | .ok v => .ok v
    | .error .malformed => .ok (.text raw)
    | .error (.longInteger n) => .error (.longInteger (some n))
    | .error (.tooDeep b) => .error (.tooDeep (.brackets b))
  else .ok (.text raw)

def assign (config : Table) (heading key : Text) (v : Value) : Except Failure Table :=
  match Keyed.get? heading config with
  | none => .ok (Keyed.put heading (.table [(key, v)]) config)
  | some (.table s) => .ok (Keyed.put heading (.table (Keyed.put key v s)) config)
  | some _ => .error .mistyped

def applyEnvironment (config : Table) : Environment → Except Failure Table
  | [] => .ok config
  | (name, raw) :: rest =>
    match address? name with
    | none => applyEnvironment config rest
    | some (s, k) =>
      match variableValue raw with
      | .error e => .error e
      | .ok v =>
        match assign config s k v with
        | .ok config => applyEnvironment config rest
        | .error e => .error e

/-- The variables over any value. Without one that matters the value stays as it is, whatever it
is. -/
def applyEnvironmentTo (config : Value) (environment : Environment) : Except Failure Value :=
  match config with
  | .table t => (applyEnvironment t environment).map .table
  | v =>
    match environment.find? fun p => (address? p.1).isSome with
    | none => .ok v
    | some (_, raw) =>
      match variableValue raw with
      | .error e => .error e
      | .ok _ => .error .notTable

end Splice.Config
