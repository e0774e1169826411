import Splice.Path.Route
import Splice.Tree

set_option autoImplicit false

namespace Splice

structure Disk where
  tree : Tree
  cwd : Place
  deriving DecidableEq, Repr

namespace Disk

def origin (d : Disk) (r : Route) : Place := if r.isAbsolute then [] else d.cwd

/-- Where a route leads, if a file is to be made there or not. -/
def reach (d : Disk) (making : Bool) (r : Route) : Except PathFault Spot :=
  if Tree.pathLimit ≤ Tree.byteCount r.text then .error .tooLong
  else d.tree.walk making Tree.linkLimit (d.origin r) r.names

def locate (d : Disk) (r : Route) : Except PathFault Spot := d.reach false r

def hasZero (r : Route) : Bool := '\x00' ∈ r.text

/-- The file that a route leads to. A path with the character zero, one that does not lead anywhere
and one that leads through too many links lead to no file; one that is too long is a failure. -/
def file? (d : Disk) (r : Route) : Except Failure (Option Place) :=
  if hasZero r then .ok none
  else
    match d.locate r with
    | .ok (.file p _) => .ok (some p)
    | .ok _ => .ok none
    | .error .tooLong => .error (.access .tooLong r.text)
    | .error _ => .ok none

def isFile (d : Disk) (r : Route) : Except Failure Bool := (d.file? r).map Option.isSome

def isPresent (d : Disk) (r : Route) : Except Failure Bool :=
  if hasZero r then .ok false
  else
    match d.locate r with
    | .ok (.vacant _) => .ok false
    | .ok _ => .ok true
    | .error .tooLong => .error (.access .tooLong r.text)
    | .error _ => .ok false

def read (d : Disk) (r : Route) : Except Failure (List UInt8) :=
  if hasZero r then .error .zeroInPath
  else
    match d.locate r with
    | .ok (.file _ b) => .ok b
    | .ok (.directory _) => .error (.access .isDirectory r.text)
    | .ok (.vacant _) => .error (.access .missing r.text)
    | .error fault => .error (.access fault r.text)

/-- Makes or replaces the file at a route. -/
def write (d : Disk) (r : Route) (bytes : List UInt8) : Except Failure Disk :=
  if hasZero r then .error .zeroInPath
  else
    match d.reach true r with
    | .ok (.file p _) | .ok (.vacant p) => .ok { d with tree := d.tree.put p (.file bytes) }
    | .ok (.directory _) => .error (.access .isDirectory r.text)
    | .error fault => .error (.access fault r.text)

theorem short_of_read {d : Disk} {r : Route} {bytes : List UInt8} (h : d.read r = .ok bytes) :
    Tree.byteCount r.text < Tree.pathLimit := by
  refine Nat.lt_of_not_le fun hl => ?_
  have he : d.locate r = .error .tooLong := if_pos hl
  unfold read at h
  split at h
  · cases h
  · rw [he] at h
    cases h

end Disk
end Splice
