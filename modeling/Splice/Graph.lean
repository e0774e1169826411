import Splice.Keyed
import Splice.Failure

set_option autoImplicit false

namespace Splice

/-- The number of a directive line, counted from zero, and the file that replaces it. -/
structure Point where
  line : Int
  target : Identity
  deriving DecidableEq, Repr

structure Record where
  text : Text
  points : List Point
  deriving DecidableEq, Repr

namespace Record

/-- Stands for a file whose directives are still being followed. -/
def placeholder : Record := ⟨[], []⟩

def targets (r : Record) : List Identity := r.points.map Point.target

end Record

structure Graph where
  records : List (Identity × Record)
  distinct : (Keyed.keys records).Nodup
  deriving DecidableEq

namespace Graph

def empty : Graph := ⟨[], by simp⟩

def keys (g : Graph) : List Identity := Keyed.keys g.records

def get? (g : Graph) (i : Identity) : Option Record := Keyed.get? i g.records

def get (g : Graph) (i : Identity) : Except Failure Record :=
  match g.get? i with
  | some r => .ok r
  | none => .error (.noRecord i)

def put (g : Graph) (i : Identity) (r : Record) : Graph :=
  ⟨Keyed.put i r g.records, Keyed.nodup_keys_put g.distinct⟩

/-- The graph of a list of records. The last record of an identity counts, at the place of the
first. -/
def ofRecords (l : List (Identity × Record)) : Graph :=
  ⟨Keyed.putAll [] l, Keyed.nodup_keys_putAll (by simp)⟩

/-- The records of both graphs; those of the second replace those of the first. -/
def merge (g h : Graph) : Graph :=
  ⟨Keyed.putAll g.records h.records, Keyed.nodup_keys_putAll g.distinct⟩

def edges (g : Graph) : List (Identity × Identity) :=
  g.records.flatMap fun p => p.2.targets.map fun t => (p.1, t)

def targets (g : Graph) : List Identity := g.edges.map Prod.snd

/-- The files that no file includes, in order; if there is none, the first file. -/
def roots (g : Graph) : List Identity :=
  let targets := g.targets
  match g.keys.filter (· ∉ targets) with
  | [] => g.keys.take 1
  | rs => rs

def shown (g : Graph) : Text :=
  "DependencyGraph([".toList ++ Text.join [',', ' '] (g.keys.map Text.quoted) ++ "])".toList

theorem mem_keys_put {g : Graph} {i j : Identity} {r : Record} :
    j ∈ (g.put i r).keys ↔ j = i ∨ j ∈ g.keys :=
  Keyed.mem_keys_put

@[simp] theorem keys_empty : empty.keys = [] := rfl

theorem mem_keys_put_self (g : Graph) (i : Identity) (r : Record) : i ∈ (g.put i r).keys :=
  mem_keys_put.2 (.inl rfl)

theorem mem_keys_put_of_mem {g : Graph} {i j : Identity} {r : Record} (h : j ∈ g.keys) :
    j ∈ (g.put i r).keys :=
  mem_keys_put.2 (.inr h)

theorem keys_put_of_mem {g : Graph} {i : Identity} {r : Record} (h : i ∈ g.keys) :
    (g.put i r).keys = g.keys :=
  (Keyed.keys_put i r g.records).trans (if_pos h)

theorem keys_put_of_not_mem {g : Graph} {i : Identity} {r : Record} (h : i ∉ g.keys) :
    (g.put i r).keys = g.keys ++ [i] :=
  (Keyed.keys_put i r g.records).trans (if_neg h)

theorem get?_put (g : Graph) (i j : Identity) (r : Record) :
    (g.put i r).get? j = if j = i then some r else g.get? j :=
  Keyed.get?_put j i r g.records

theorem mem_keys_of_get? {g : Graph} {i : Identity} {r : Record} (h : g.get? i = some r) :
    i ∈ g.keys :=
  Keyed.mem_keys_of_get? h

theorem mem_targets_of_get? {g : Graph} {i u : Identity} {r : Record} (h : g.get? i = some r)
    (hu : u ∈ r.targets) : u ∈ g.targets := by
  simp only [targets, edges, List.map_flatMap, List.mem_flatMap]
  exact ⟨(i, r), Keyed.mem_of_get? h, by simpa using hu⟩

/-- A graph whose first file includes, directly or not, all others has that file as its root, also
when the file is itself included. -/
theorem roots_eq_singleton {g : Graph} {i : Identity} {rest : List Identity}
    (hk : g.keys = i :: rest) (ht : ∀ j ∈ rest, j ∈ g.targets) : g.roots = [i] := by
  have hrest : rest.filter (· ∉ g.targets) = [] := by
    rw [List.filter_eq_nil_iff]
    intro j hj
    simpa using ht j hj
  simp only [roots, hk]
  by_cases hi : i ∈ g.targets
  · rw [List.filter_cons_of_neg (by simpa using hi), hrest]
    rfl
  · rw [List.filter_cons_of_pos (by simpa using hi), hrest]

end Graph
end Splice
