import Splice.Codec.Encoding
import Splice.Exhaustion
import Splice.Path.Real
import Splice.Source
import Splice.Value

/-!
Finding files on a disk. A searched name is taken as it is if it is absolute, from the working
directory if it starts with a point and a slash, and else along the search paths and last in the
default directory. A relative name starts from the directory of its parent if that is a file, and
from the parent itself otherwise. The identity of a file is its absolute path free of links.
-/

set_option autoImplicit false

namespace Splice

structure Locator where
  searchPaths : List Route
  fallback : Route
  /-- The name of the encoding of the files; a value that is no text fails when a file is read. -/
  encoding : Value

namespace Locator

def default : Locator := ⟨[], .ofText ['.'], .text "utf-8".toList⟩

def addPath (l : Locator) (path : Text) : Locator :=
  { l with searchPaths := l.searchPaths ++ [.ofText path] }

def firstFile (d : Disk) : List Route → Except Failure (Option Route)
  | [] => .ok none
  | r :: rs =>
    match d.isFile r with
    | .error e => .error e
    | .ok true => .ok (some r)
    | .ok false => firstFile d rs

def candidates (l : Locator) (d : Disk) (name : Text) : List Route :=
  let r := Route.ofText name
  if r.isAbsolute then [r]
  else if Text.startsWith ['.', '/'] name then [(Route.mk 1 d.cwd).append r]
  else (l.searchPaths ++ [l.fallback]).map (·.append r)

def base (d : Disk) (parent : Text) : Except Failure Route :=
  let p := Route.ofText parent
  match d.isFile p with
  | .error e => .error e
  | .ok true => .ok p.parent
  | .ok false => .ok p

def route? (l : Locator) (d : Disk) : Reference → Except Failure (Option Route)
  | .searched name => firstFile d (l.candidates d name)
  | .relative name parent =>
    match base d parent with
    | .error e => .error e
    | .ok b => firstFile d [b.append (.ofText name)]

/-- Reads bytes in an encoding. No bytes are the empty text in any encoding that can be named. -/
def decode (encoding : Value) (bytes : List UInt8) : Except Failure Content :=
  match encoding with
  | .text name =>
    if '\x00' ∈ name then .error .zeroInName
    else if bytes = [] then .ok (.text [])
    else
      match Encoding.ofName? name with
      | none => .error (.unknownEncoding name)
      | some e =>
        match e.decode bytes with
        | .ok t => .ok (.text t)
        | .error f => .ok (.unreadable (.undecodable f))
  | _ => .error .mistyped

def resolve (l : Locator) (d : Disk) (r : Reference) : Except Failure (Option Identity) :=
  match l.route? d r with
  | .error e => .error e
  | .ok none => .ok none
  | .ok (some route) => (d.real route).map fun q => some q.text

/-- The text of the file of an identity. An identity can be too long to be followed, though a
shorter path leads to the file. -/
def contents (l : Locator) (d : Disk) (i : Identity) : Except Failure Content :=
  match d.read (.ofText i) with
  | .ok b => decode l.encoding b
  | .error (.access fault path) => .ok (.unreadable (.access fault path))
  | .error e => .error e

theorem text_ofText_of_resolve {l : Locator} {d : Disk} {r : Reference} {i : Identity}
    (h : l.resolve d r = .ok (some i)) : (Route.ofText i).text = i := by
  unfold resolve at h
  split at h
  · cases h
  · cases h
  · rename_i route _
    cases hq : d.real route with
    | error e =>
      rw [hq] at h
      cases h
    | ok q =>
      rw [hq] at h
      cases h
      rw [Disk.ofText_text_of_real hq]

theorem short_of_contents {l : Locator} {d : Disk} {i : Identity} {t : Text}
    (h : l.contents d i = .ok (.text t)) :
    Tree.byteCount (Route.ofText i).text < Tree.pathLimit := by
  unfold contents at h
  split at h
  · rename_i b hb
    exact Disk.short_of_read hb
  · cases h
  · cases h

/-- The files of a disk as a source. What can be read has a short path, and there are finitely many
of these. -/
def source (l : Locator) (d : Disk) : Source where
  resolve := l.resolve d
  read := l.contents d
  finite := by
    obtain ⟨texts, htexts⟩ := exists_words mem_characters Tree.pathLimit
    refine ⟨texts, ?_⟩
    intro r i t hr ht
    have hs := short_of_contents ht
    rw [text_ofText_of_resolve hr] at hs
    exact htexts i (Nat.le_of_lt (Nat.lt_of_le_of_lt (Tree.length_le_byteCount i) hs))

end Locator
end Splice
