import Splice.Disk
import Splice.Path.Spelling

/-!
Real paths: absolute paths with all links resolved, whether anything stands there or not. Names that
lead nowhere are kept, and so is a link that is met at too long a path to be looked at. Where a link
leads back to itself, it is left as it is with all that follows. Links may lead to further links, up
to a depth.
-/

set_option autoImplicit false

namespace Splice.Disk

def above (r : Route) : Route :=
  { r with names := (Path.settle r.isAbsolute r.names.reverse Path.up).reverse }

def absolute (d : Disk) (t : Text) : Route := .ofText (Path.normal (Path.join d.cwd.text t))

def target? (d : Disk) (r : Route) : Option Text :=
  match d.tree.node? (d.absolute r.text).names with
  | some (.link target) => some target
  | _ => none

/-- The target of the link that is seen at a resolved route. Nothing is seen at a path that is too
long. -/
def linkAt? (d : Disk) (r : Route) : Option Text :=
  if Tree.pathLimit ≤ Tree.byteCount r.text then none else d.target? r

abbrev Resolved := List (Route × Route)

inductive Snag where
  | loop (left : Text)
  | tooDeep
  deriving DecidableEq, Repr

/-- Resolves names one after the other, beyond a route that is resolved. `ongoing` are the links
that are being resolved, `known` those that are resolved already, and `follow` resolves a further
one, so that none is resolved twice. -/
def traceWith (d : Disk)
    (follow : List Route → Resolved → Route → Text → Except Snag (Route × Resolved))
    (ongoing : List Route) : Resolved → Route → List Text → Except Snag (Route × Resolved)
  | known, r, [] => .ok (r, known)
  | known, r, n :: rest =>
    if n = [] ∨ n = ['.'] then traceWith d follow ongoing known r rest
    else if n = Path.up then traceWith d follow ongoing known (above r) rest
    else
      let next : Route := { r with names := r.names ++ [n] }
      match d.linkAt? next, Keyed.get? next known with
      | none, _ => traceWith d follow ongoing known next rest
      | some _, some q => traceWith d follow ongoing known q rest
      | some target, none =>
        if next ∈ ongoing then .error (.loop (Path.join next.text (Text.join ['/'] rest)))
        else
          match follow (next :: ongoing) known r target with
          | .ok (q, known) => traceWith d follow ongoing (Keyed.put next q known) q rest
          | .error (.loop t) => .error (.loop (Path.join t (Text.join ['/'] rest)))
          | .error .tooDeep => .error .tooDeep

def trace (d : Disk) :
    (depth : Nat) → List Route → Resolved → Route → Text → Except Snag (Route × Resolved)
  | 0, _, _, _, _ => .error .tooDeep
  | depth + 1, ongoing, known, r, t =>
    d.traceWith (d.trace depth) ongoing known (if t.head? = some '/' then ⟨1, []⟩ else r)
      (Text.pieces '/' t)

/-- The least number of links that cannot lead to one another. -/
def depthLimit : Nat := 989

def real (d : Disk) (r : Route) : Except Failure Route :=
  let settled (t : Text) : Except Failure Route :=
    let resolved := d.absolute t
    match d.locate resolved with
    | .error .tooManyLinks => .error (.linkLoop resolved.text)
    | _ => .ok resolved
  if hasZero r then .error .zeroInPath
  else
    match d.trace depthLimit [] [] ⟨0, []⟩ r.text with
    | .ok (q, _) => settled q.text
    | .error (.loop left) => settled left
    | .error .tooDeep => .error (.tooDeep .links)

theorem ofText_text_of_real {d : Disk} {r q : Route} (h : d.real r = .ok q) :
    Route.ofText q.text = q := by
  obtain ⟨t, rfl⟩ : ∃ t, q = d.absolute t := by
    unfold real at h
    simp only at h
    split at h
    · cases h
    split at h
    · split at h <;> cases h
      exact ⟨_, rfl⟩
    · split at h <;> cases h
      exact ⟨_, rfl⟩
    · cases h
  exact Route.ofText_text (Route.leading_le _) fun n => Route.isName_of_mem_namesOf

end Splice.Disk
