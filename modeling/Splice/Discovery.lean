import Splice.Directive
import Splice.Exhaustion
import Splice.Graph
import Splice.Source
import Splice.Text.Line

/-!
Discovery of the files that belong to a start file. Files are visited depth first: the directives of
a file are followed in the order of its lines, and a file met for the first time is scanned to its
end, and all that it includes with it, before its includer goes on. A placeholder is put into the
graph when a file is opened, so a file that is still being visited is not opened again.

The search keeps its own stack of frames. Each step finishes a frame or follows one directive.
`Search.loop` repeats steps; it ends because every opened file is new to the graph and the source
has finitely many to open.
-/

set_option autoImplicit false

namespace Splice

/-- What discovery works with: where files come from, and how directives are found in the lines of
the file of a given identity. -/
structure Search where
  source : Source
  scan : Identity → List Text → Except Failure (List (Nat × Include))

structure Frame where
  identity : Identity
  text : Text
  points : List Point
  pending : List (Nat × Include)
  deriving DecidableEq, Repr

structure Search.State where
  graph : Graph
  stack : List Frame
  events : List Event
  deriving DecidableEq

inductive Search.Turn where
  | next (state : Search.State)
  | failed (failure : Failure) (events : List Event)
  deriving DecidableEq

/-- The outcome of a run that reports events: those events, and a result or a failure. -/
structure Outcome (α : Type) where
  events : List Event
  result : Except Failure α

structure Built where
  seed : Identity
  graph : Graph
  deriving DecidableEq

namespace Search

/-- Opens the file that a reference resolved to: reads it, puts its placeholder into the graph,
scans its lines and puts a frame on the stack. -/
def openFile (s : Search) (r : Reference) (i : Identity) (st : State) : Turn :=
  match s.source.read i with
  | .error e => .failed e st.events
  | .ok (.unreadable e) => .failed (.notFound r) (st.events ++ [.unreadable i e])
  | .ok (.text t) =>
    match s.scan i (Text.lines t) with
    | .error e => .failed e st.events
    | .ok ds =>
      .next
        { graph := st.graph.put i .placeholder
          stack := ⟨i, t, [], ds⟩ :: st.stack
          events := st.events ++ [.scanned i ds.length] }

def follow (s : Search) (f : Frame) (n : Nat) (d : Include) (rest : List Frame) (st : State) :
    Turn :=
  let r := d.reference f.identity
  match s.source.resolve r with
  | .error e => .failed e st.events
  | .ok none => .failed (.notFound r) st.events
  | .ok (some t) =>
    if t ∈ f.points.map Point.target then
      .next { st with stack := f :: rest, events := st.events ++ [.duplicate f.identity n t] }
    else
      let f := { f with points := f.points ++ [⟨n, t⟩] }
      if t ∈ st.graph.keys then .next { st with stack := f :: rest }
      else s.openFile r t { st with stack := f :: rest }

/-- One step with `f` on top of the stack: finishes the frame if all its directives were followed,
else follows the next one. -/
def step (s : Search) (f : Frame) (rest : List Frame) (st : State) : Turn :=
  match f.pending with
  | [] => .next { st with graph := st.graph.put f.identity ⟨f.text, f.points⟩, stack := rest }
  | (n, d) :: pending => s.follow { f with pending := pending } n d rest st

noncomputable def State.unopened (s : Search) (st : State) : Nat :=
  unmarked s.source.known st.graph.keys

def State.work (st : State) : Nat := st.stack.foldr (fun f n => f.pending.length + 1 + n) 0

theorem unopened_openFile {s : Search} {r : Reference} {i : Identity} {st st' : State}
    (hr : s.source.resolve r = .ok (some i)) (hn : i ∉ st.graph.keys)
    (h : s.openFile r i st = .next st') : st'.unopened s < st.unopened s := by
  unfold openFile at h
  split at h <;> try cases h
  rename_i t ht
  split at h <;> cases h
  exact unmarked_lt (fun b hb => Graph.mem_keys_put_of_mem hb) (Source.mem_known hr ht) hn
    (Graph.mem_keys_put_self _ _ _)

theorem step_lt {s : Search} {f : Frame} {rest : List Frame} {st st' : State}
    (hs : st.stack = f :: rest) (h : s.step f rest st = .next st') :
    st'.unopened s < st.unopened s ∨ st'.unopened s ≤ st.unopened s ∧ st'.work < st.work := by
  unfold step at h
  split at h
  · cases h
    exact .inr ⟨unmarked_le fun b hb => Graph.mem_keys_put_of_mem hb, by simp [State.work, hs]⟩
  · rename_i n d pending hp
    unfold follow at h
    simp only at h
    split at h
    · cases h
    · cases h
    · rename_i t ht
      split at h
      · cases h
        exact .inr ⟨Nat.le_refl _, by simp [State.work, hs, hp]⟩
      · split at h
        · cases h
          exact .inr ⟨Nat.le_refl _, by simp [State.work, hs, hp]⟩
        · rename_i hn
          have := unopened_openFile ht (by exact hn) h
          exact .inl this

def loop (s : Search) (st : State) : Outcome Graph :=
  match _hs : st.stack with
  | [] => ⟨st.events, .ok st.graph⟩
  | f :: rest =>
    match _h : s.step f rest st with
    | .next st' => loop s st'
    | .failed e events => ⟨events, .error e⟩
termination_by (st.unopened s, st.work)
decreasing_by
  have := step_lt _hs _h
  simp only [Prod.lex_def]
  omega

def run (s : Search) (seed : Reference) : Outcome Built :=
  match s.source.resolve seed with
  | .error e => ⟨[], .error e⟩
  | .ok none => ⟨[], .error (.notFound seed)⟩
  | .ok (some i) =>
    match s.openFile seed i ⟨.empty, [], []⟩ with
    | .failed e events => ⟨events, .error e⟩
    | .next st =>
      match s.loop st with
      | ⟨events, .error e⟩ => ⟨events, .error e⟩
      | ⟨events, .ok g⟩ => ⟨events ++ [.built i g.keys.length], .ok ⟨i, g⟩⟩

end Search
end Splice
