import Splice.Exhaustion
import Splice.Graph
import Splice.Text.Line

/-!
Assembly of a graph into one text. The lines of a file are copied, and each point is replaced by the
expansion of its target. A file is emitted at most once, so a second inclusion of it, also one that
closes a cycle, adds nothing. The line of a point itself is never copied.

The walk keeps its own stack of cursors. It ends because every entered file is new to the visited
ones and the graph has finitely many.
-/

set_option autoImplicit false

namespace Splice

/-- A bound of a range of `n` elements: counted from the end if negative, and kept within. -/
def clamp (n : Nat) (i : Int) : Nat := if i < 0 then (i + n).toNat else min i.toNat n

def between {α : Type} (l : List α) (low high : Int) : List α :=
  (l.take (clamp l.length high)).drop (clamp l.length low)

def onward {α : Type} (l : List α) (low : Int) : List α := l.drop (clamp l.length low)

/-- A file that is being emitted: its lines, the next line to copy and the points to come. -/
structure Cursor where
  lines : List Text
  position : Int
  points : List Point
  deriving DecidableEq, Repr

namespace Assembly

structure State where
  stack : List Cursor
  visited : List Identity
  output : List Text
  deriving DecidableEq, Repr

def enter (g : Graph) (i : Identity) (st : State) : Except Failure State :=
  if i ∈ st.visited then .ok st
  else
    match g.get? i with
    | none => .error (.noRecord i)
    | some r =>
      .ok { st with
        stack := ⟨Text.lines r.text, 0, r.points⟩ :: st.stack
        visited := i :: st.visited }

/-- One step with `c` on top of the stack: copies the lines before the next point and enters its
target, or copies the rest of the lines. -/
def step (g : Graph) (c : Cursor) (rest : List Cursor) (st : State) : Except Failure State :=
  match c.points with
  | [] => .ok { st with stack := rest, output := st.output ++ onward c.lines c.position }
  | p :: points =>
    enter g p.target
      { st with
        stack := ⟨c.lines, p.line + 1, points⟩ :: rest
        output := st.output ++ between c.lines c.position p.line }

def State.unvisited (g : Graph) (st : State) : Nat := unmarked g.keys st.visited

def State.work (st : State) : Nat := st.stack.foldr (fun c n => c.points.length + 1 + n) 0

theorem enter_lt {g : Graph} {i : Identity} {st st' : State} (h : enter g i st = .ok st') :
    st'.unvisited g < st.unvisited g ∨ st' = st := by
  unfold enter at h
  split at h
  · cases h
    exact .inr rfl
  · rename_i hn
    split at h
    · cases h
    · rename_i r hr
      cases h
      exact .inl (unmarked_lt (fun b hb => List.mem_cons_of_mem _ hb) (Graph.mem_keys_of_get? hr)
        hn (List.mem_cons_self ..))

theorem step_lt {g : Graph} {c : Cursor} {rest : List Cursor} {st st' : State}
    (hs : st.stack = c :: rest) (h : step g c rest st = .ok st') :
    st'.unvisited g < st.unvisited g ∨
      st'.unvisited g ≤ st.unvisited g ∧ st'.work < st.work := by
  unfold step at h
  split at h
  · cases h
    exact .inr ⟨Nat.le_refl _, by simp [State.work, hs]⟩
  · rename_i p points hp
    rcases enter_lt h with h | rfl
    · exact .inl h
    · exact .inr ⟨Nat.le_refl _, by simp [State.work, hs, hp]⟩

def loop (g : Graph) (st : State) : Except Failure State :=
  match _hs : st.stack with
  | [] => .ok st
  | c :: rest =>
    match _h : step g c rest st with
    | .error e => .error e
    | .ok st' => loop g st'
termination_by (st.unvisited g, st.work)
decreasing_by
  have := step_lt _hs _h
  simp only [Prod.lex_def]
  omega

def emit (g : Graph) (st : State) (i : Identity) : Except Failure State :=
  match enter g i st with
  | .error e => .error e
  | .ok st => loop g st

/-- Emits files one after the other, with the same visited files. -/
def emitAll (g : Graph) (st : State) : List Identity → Except Failure State
  | [] => .ok st
  | i :: is =>
    match emit g st i with
    | .error e => .error e
    | .ok st => emitAll g st is

end Assembly

def Graph.emitted (g : Graph) (roots : List Identity) : Except Failure (List Text) :=
  if g.keys = [] then .error .emptyGraph
  else
    match Assembly.emitAll g ⟨[], [], []⟩ roots with
    | .error e => .error e
    | .ok st => .ok st.output

def Graph.assembleFrom (g : Graph) (roots : List Identity) : Except Failure Text :=
  match g.emitted roots with
  | .error e => .error e
  | .ok ls => .ok (Text.unlines ls)

def Graph.assemble (g : Graph) : Except Failure Text := g.assembleFrom g.roots

end Splice
