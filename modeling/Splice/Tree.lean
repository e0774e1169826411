import Splice.Codec.Utf8
import Splice.Failure
import Splice.Keyed
import Splice.Path.Normal

/-!
Trees of files, directories and symbolic links. A place is given by the names that lead to it from
the root. Walking a path follows every link on the way, so the place where a walk ends is free of
links.
-/

set_option autoImplicit false

namespace Splice

inductive Entry where
  | file (bytes : List UInt8)
  | directory
  | link (target : Text)
  deriving DecidableEq, Repr

/-- The names that lead from the root to a place. -/
abbrev Place := List Text

def Place.level : Place → Place → Bool
  | [], [] => true
  | _ :: p, _ :: q => level p q
  | _, _ => false

def Place.agree : Place → Place → Bool
  | n :: p, m :: q => if n = m then agree p q else false
  | _, _ => true

/-- Compares two places. Most are told apart by their levels, without a look at the names. -/
def Place.same (p q : Place) : Bool := if level p q then agree p q else false

theorem Place.same_iff {p q : Place} : same p q = true ↔ p = q := by
  induction p generalizing q with
  | nil => cases q <;> simp [same, level, agree]
  | cons n p ih =>
    cases q with
    | nil => simp [same, level]
    | cons m q =>
      have h := ih (q := q)
      simp only [same] at h
      by_cases hn : n = m <;> by_cases hl : level p q <;> simp_all [same, level, agree]

instance Place.decidableEq : DecidableEq Place := fun _ _ => decidable_of_iff _ Place.same_iff

def Place.text (p : Place) : Text := '/' :: Text.join ['/'] p

structure Tree where
  entries : List (Place × Entry)
  deriving DecidableEq, Repr

inductive Spot where
  | file (place : Place) (bytes : List UInt8)
  | directory (place : Place)
  | vacant (place : Place)
  deriving DecidableEq, Repr

namespace Tree

def empty : Tree := ⟨[]⟩

def node? (t : Tree) (p : Place) : Option Entry :=
  if p = [] then some .directory else Keyed.get? p t.entries

def put (t : Tree) (p : Place) (e : Entry) : Tree := ⟨Keyed.put p e t.entries⟩

def erase (t : Tree) (p : Place) : Tree := ⟨t.entries.filter fun q => q.1 ≠ p⟩

def nameLimit : Nat := 255

/-- The least number of bytes that a path cannot have. -/
def pathLimit : Nat := 4096

def linkLimit : Nat := 40

def byteCount (t : Text) : Nat := (Codec.Utf8.encode t).length

theorem length_le_byteCount (t : Text) : t.length ≤ byteCount t := by
  induction t with
  | nil => exact Nat.le_refl 0
  | cons c t ih =>
    have hc : 1 ≤ (Codec.Utf8.bytes c).length := by
      unfold Codec.Utf8.bytes
      simp only
      split
      · exact Nat.le_refl 1
      split
      · exact Nat.le_succ 1
      split <;> simp
    have he : byteCount (c :: t) = (Codec.Utf8.bytes c).length + byteCount t := by
      simp [byteCount, Codec.Utf8.encode]
    rw [he, List.length_cons]
    omega

def linkStart (p : Place) (target : Text) : Place := if target.head? = some '/' then [] else p

/-- The steps of a link. A slash at its end is a last step without a name. -/
def linkSteps (target : Text) : List Text :=
  (Text.pieces '/' target).filter (· ≠ []) ++
    if target.getLast? = some '/' then [[]] else []

/-- Takes steps from a directory; `follow` goes on where a link leads. A point and a step without a
name stay where they are. Where a file is to be made, the last name cannot have a slash behind it,
whatever stands there. -/
def walkWith (t : Tree) (making : Bool) (follow : Place → List Text → Except PathFault Spot) :
    Place → List Text → Except PathFault Spot
  | p, [] => .ok (.directory p)
  | p, n :: rest =>
    if n = [] ∨ n = ['.'] then walkWith t making follow p rest
    else if n = Path.up then walkWith t making follow p.dropLast rest
    else if making ∧ rest = [[]] then .error .isDirectory
    else if nameLimit < byteCount n then .error .tooLong
    else
      match t.node? (p ++ [n]) with
      | none => if rest = [] then .ok (.vacant (p ++ [n])) else .error .missing
      | some .directory => walkWith t making follow (p ++ [n]) rest
      | some (.file b) => if rest = [] then .ok (.file (p ++ [n]) b) else .error .notDirectory
      | some (.link target) => follow (linkStart p target) (linkSteps target ++ rest)

def walk (t : Tree) (making : Bool) : (links : Nat) → Place → List Text → Except PathFault Spot
  | 0 => t.walkWith making fun _ _ => .error .tooManyLinks
  | links + 1 => t.walkWith making (t.walk making links)

theorem node?_of_walkWith {t : Tree} {making : Bool}
    {follow : Place → List Text → Except PathFault Spot}
    (hf : ∀ {p steps q b}, follow p steps = .ok (.file q b) → t.node? q = some (.file b))
    {p : Place} {steps : List Text} {q : Place} {b : List UInt8}
    (h : t.walkWith making follow p steps = .ok (.file q b)) : t.node? q = some (.file b) := by
  induction steps generalizing p with
  | nil => simp [walkWith] at h
  | cons n rest ih =>
    unfold walkWith at h
    split at h
    · exact ih h
    split at h
    · exact ih h
    split at h
    · cases h
    split at h
    · cases h
    split at h
    · split at h <;> cases h
    · exact ih h
    · split at h
      · cases h
        assumption
      · cases h
    · exact hf h

theorem node?_of_walk {t : Tree} {making : Bool} {links : Nat} {p : Place} {steps : List Text}
    {q : Place} {b : List UInt8} (h : t.walk making links p steps = .ok (.file q b)) :
    t.node? q = some (.file b) := by
  induction links generalizing p steps q b with
  | zero => exact node?_of_walkWith (fun h => by cases h) h
  | succ links ih => exact node?_of_walkWith (fun h => ih h) h

end Tree
end Splice
