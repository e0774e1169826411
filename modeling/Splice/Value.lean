import Splice.Keyed
import Splice.Number.Shortest
import Splice.Stamp
import Splice.Text.Quoted

set_option autoImplicit false

namespace Splice

inductive Value where
  | null
  | bool (b : Bool)
  | int (i : Int)
  | float (x : Binary64)
  | text (t : Text)
  | stamp (s : Stamp)
  | list (vs : List Value)
  | table (entries : List (Text × Value))
  deriving Repr, Inhabited

abbrev Table := List (Text × Value)

namespace Value

/-- Whether a value counts as given: not null, false, zero or empty. -/
def isGiven : Value → Bool
  | null => false
  | bool b => b
  | int i => i ≠ 0
  | float (.finite _ m _) => m ≠ 0
  | float _ => true
  | text t => t ≠ []
  | stamp _ => true
  | list vs => !vs.isEmpty
  | table es => !es.isEmpty

/-- The most digits of an integer that is read from a decimal numeral or shown as one. -/
def digitLimit : Nat := 4300

mutual

def isShowable : Value → Bool
  | int i => (Text.ofNat i.natAbs).length ≤ digitLimit
  | list vs => areShowable vs
  | table es => areEntriesShowable es
  | _ => true

def areShowable : List Value → Bool
  | [] => true
  | v :: vs => isShowable v && areShowable vs

def areEntriesShowable : List (Text × Value) → Bool
  | [] => true
  | (_, v) :: es => isShowable v && areEntriesShowable es

end

mutual

def shown : Value → Text
  | null => "None".toList
  | bool true => "True".toList
  | bool false => "False".toList
  | int i => Text.ofInt i
  | float x => x.text
  | text t => Text.quoted t
  | stamp s => s.shown
  | list vs => '[' :: Text.join [',', ' '] (shownAll vs) ++ [']']
  | table es => '\x7b' :: Text.join [',', ' '] (shownEntries es) ++ ['\x7d']

def shownAll : List Value → List Text
  | [] => []
  | v :: vs => shown v :: shownAll vs

def shownEntries : List (Text × Value) → List Text
  | [] => []
  | (k, v) :: es => (Text.quoted k ++ [':', ' '] ++ shown v) :: shownEntries es

end

mutual

/-- How deeply calls are nested while the value is copied: two for each list or table, and one for
what stands inside. -/
def copyCalls : Value → Nat
  | list vs => copyCallsOfAll vs + 2
  | table es => copyCallsOfEntries es + 2
  | _ => 1

def copyCallsOfAll : List Value → Nat
  | [] => 0
  | v :: vs => max (copyCalls v) (copyCallsOfAll vs)

def copyCallsOfEntries : List (Text × Value) → Nat
  | [] => 0
  | (_, v) :: es => max (copyCalls v) (copyCallsOfEntries es)

end

end Value
end Splice
