import Splice.Keyed
import Splice.Path.Normal
import Splice.Source

set_option autoImplicit false

namespace Splice

structure Bundle where
  files : List (Identity × Text)
  deriving DecidableEq, Repr

namespace Bundle

def empty : Bundle := ⟨[]⟩

/-- Adds a file, or replaces the one of the same normal name. -/
def add (b : Bundle) (name content : Text) : Bundle :=
  ⟨Keyed.put (Path.canonical name) content b.files⟩

def ofList (l : List (Text × Text)) : Bundle := l.foldl (fun b p => b.add p.1 p.2) empty

def names (b : Bundle) : List Identity := Keyed.keys b.files

def content? (b : Bundle) (i : Identity) : Option Text := Keyed.get? i b.files

def contains (b : Bundle) (name : Text) : Bool := Path.canonical name ∈ b.names

def base (b : Bundle) (parent : Text) : Text :=
  let p := Path.canonical parent
  if p ∈ b.names then Path.directory p else p

def target (b : Bundle) : Reference → Identity
  | .searched name => Path.canonical name
  | .relative name parent => Path.canonical (Path.join (b.base parent) name)

def resolve (b : Bundle) (r : Reference) : Option Identity :=
  if b.target r ∈ b.names then some (b.target r) else none

theorem mem_of_resolve {b : Bundle} {r : Reference} {i : Identity} (h : b.resolve r = some i) :
    i ∈ b.names := by
  unfold resolve at h
  split at h
  · cases h; assumption
  · cases h

def source (b : Bundle) : Source where
  resolve r := .ok (b.resolve r)
  read i := .ok (.text ((b.content? i).getD []))
  finite := ⟨b.names, fun hr _ => mem_of_resolve (Except.ok.inj hr)⟩

end Bundle
end Splice
