import Splice.Disk

set_option autoImplicit false

namespace Splice.Disk

def refuse (fault : PathFault) (r : Route) : Failure :=
  if hasZero r then .zeroInPath else .access fault r.text

def move (d : Disk) (r : Route) : Except Failure Disk :=
  match d.locate r with
  | .ok (.directory p) => .ok { d with cwd := p }
  | .ok (.file ..) => .error (refuse .notDirectory r)
  | .ok (.vacant _) => .error (refuse .missing r)
  | .error fault => .error (refuse fault r)

/-- Goes from a place, which has the given route, along names, and makes the directories that are
missing. What stands in the way is found taken if it is the last name; else the next name cannot be
reached through it. -/
def furnish (d : Disk) (p : Place) (r : Route) : List Text → Except Failure (Disk × Place)
  | [] => .ok (d, p)
  | n :: rest =>
    let next : Route := { r with names := r.names ++ [n] }
    let blocked (fault : PathFault) : Except Failure (Disk × Place) :=
      match rest with
      | [] => .error (refuse .taken next)
      | m :: _ => .error (refuse fault { next with names := next.names ++ [m] })
    match d.tree.walk false Tree.linkLimit p [n] with
    | .ok (.directory q) => furnish d q next rest
    | .ok (.vacant q) =>
      if hasZero next then .error .zeroInPath
      else if q = p ++ [n] then
        furnish { d with tree := d.tree.put q .directory } q next rest
      else blocked .missing
    | .ok (.file ..) => blocked .notDirectory
    | .error .tooLong => .error (refuse .tooLong next)
    | .error fault => blocked fault

def link (d : Disk) (p : Place) (r : Route) (n target : Text) : Except Failure Disk :=
  if hasZero r ∨ '\x00' ∈ target then .error .zeroInPath
  else if n ∈ [[], ['.'], Path.up] ∨ (d.tree.node? (p ++ [n])).isSome then
    .error (.unlinkable .taken target r.text)
  else if Tree.nameLimit < Tree.byteCount n then .error (.unlinkable .tooLong target r.text)
  else if target = [] then .error (.unlinkable .missing target r.text)
  else .ok { d with tree := d.tree.put (p ++ [n]) (.link target) }

/-- Puts an entry at the end of a path from a place, and makes the directories that lead to it. A
file is written through links and replaces another file; a directory may be there already. -/
def plant (d : Disk) (p : Place) (names : List Text) (e : Entry) : Except Failure Disk :=
  let base : Route := ⟨1, p⟩
  let r : Route := ⟨1, p ++ names⟩
  match furnish d p base names.dropLast with
  | .error f => .error f
  | .ok (d, q) =>
    match e with
    | .directory => (furnish d p base names).map Prod.fst
    | .file bytes => d.write r bytes
    | .link target => d.link q r (names.getLast?.getD []) target

/-- Removes the file or the link at the end of a path from a place. Links on the way are followed. A
directory is not removed. -/
def uproot (d : Disk) (p : Place) (names : List Text) : Except Failure Disk :=
  let r : Route := ⟨1, p ++ names⟩
  match names.getLast?, d.tree.walk false Tree.linkLimit p names.dropLast with
  | _, .error fault => .error (refuse fault r)
  | _, .ok (.vacant _) => .error (refuse .missing r)
  | _, .ok (.file ..) => .error (refuse .notDirectory r)
  | none, .ok (.directory _) => .error (refuse .isDirectory r)
  | some n, .ok (.directory q) =>
    if n = Path.up then .error (refuse .isDirectory r)
    else if Tree.nameLimit < Tree.byteCount n then .error (refuse .tooLong r)
    else
      match d.tree.node? (q ++ [n]) with
      | none => .error (refuse .missing r)
      | some .directory => .error (refuse .isDirectory r)
      | some _ => .ok { d with tree := d.tree.erase (q ++ [n]) }

end Splice.Disk
