import Splice.Assembly

/-!
Assembly as a recursion. Emitting a file that was not visited marks it, copies its lines up to each
point, emits the target of the point in the place of its line, and copies the rest. A recursion
without an end is `none`. The loop over a stack of cursors gives what the recursion gives, on every
graph: cyclic or not, with targets that have no record and points at any lines.
-/

set_option autoImplicit false

namespace Splice

/-- What a recursion over files has done: the files it visited, the latest first, and the lines it
emitted. -/
structure Emitted where
  visited : List Identity
  lines : List Text
  deriving DecidableEq, Repr

def Emitted.after (ls : List Text) (x : Emitted) : Emitted := ⟨x.visited, ls ++ x.lines⟩

@[simp] theorem Emitted.visited_after (ls : List Text) (x : Emitted) :
    (x.after ls).visited = x.visited := rfl

@[simp] theorem Emitted.lines_after (ls : List Text) (x : Emitted) :
    (x.after ls).lines = ls ++ x.lines := rfl

namespace Graph

mutual

def splice (g : Graph) (visited : List Identity) (i : Identity) :
    Option (Except Failure Emitted) :=
  if i ∈ visited then some (.ok ⟨visited, []⟩)
  else
    match g.get? i with
    | none => some (.error (.noRecord i))
    | some r => g |>.splicePoints (Text.lines r.text) 0 (i :: visited) r.points
partial_fixpoint

def splicePoints (g : Graph) (lines : List Text) (position : Int) (visited : List Identity)
    (points : List Point) : Option (Except Failure Emitted) :=
  match points with
  | [] => some (.ok ⟨visited, onward lines position⟩)
  | p :: points => do
    match ← g |>.splice visited p.target with
    | .error e => some (.error e)
    | .ok x =>
      let y ← g |>.splicePoints lines (p.line + 1) x.visited points
      some (y.map (.after (between lines position p.line ++ x.lines)))
partial_fixpoint

end

def spliceAll (g : Graph) (visited : List Identity) :
    List Identity → Option (Except Failure Emitted)
  | [] => some (.ok ⟨visited, []⟩)
  | i :: is => do
    match ← g.splice visited i with
    | .error e => some (.error e)
    | .ok x =>
      let y ← spliceAll g x.visited is
      some (y.map (.after x.lines))

variable {g : Graph} {lines : List Text} {position : Int} {visited : List Identity} {i : Identity}

theorem splice_of_mem (h : i ∈ visited) : g.splice visited i = some (.ok ⟨visited, []⟩) := by
  rw [splice, if_pos h]

theorem splice_of_get? {r : Record} (h : i ∉ visited) (hr : g.get? i = some r) :
    g.splice visited i = g.splicePoints (Text.lines r.text) 0 (i :: visited) r.points := by
  rw [splice, if_neg h, hr]

theorem splicePoints_nil :
    g.splicePoints lines position visited [] = some (.ok ⟨visited, onward lines position⟩) := by
  rw [splicePoints]

theorem splicePoints_cons {p : Point} {points : List Point} :
    g.splicePoints lines position visited (p :: points) =
      (g.splice visited p.target).bind fun
        | .error e => some (.error e)
        | .ok x => (g.splicePoints lines (p.line + 1) x.visited points).map
          (Except.map (.after (between lines position p.line ++ x.lines))) := by
  rw [splicePoints]
  cases g.splice visited p.target with
  | none => rfl
  | some x =>
    cases x with
    | error e => rfl
    | ok x => cases h : g.splicePoints lines (p.line + 1) x.visited points <;> simp [h]

theorem splice_of_absent (h : i ∉ visited) (hr : g.get? i = none) :
    g.splice visited i = some (.error (.noRecord i)) := by
  rw [splice, if_neg h, hr]

/-- Induction over the recursion: what holds of every way in which emitting can go, given that it
holds of what is emitted inside, holds whenever the recursion ends. -/
theorem splice_induct (g : Graph)
    {P : List Identity → Identity → Except Failure Emitted → Prop}
    {Q : List Text → Int → List Identity → List Point → Except Failure Emitted → Prop}
    (skipped : ∀ visited i, i ∈ visited → P visited i (.ok ⟨visited, []⟩))
    (absent : ∀ visited i, i ∉ visited → g.get? i = none → P visited i (.error (.noRecord i)))
    (entered : ∀ visited i r x, i ∉ visited → g.get? i = some r →
      Q (Text.lines r.text) 0 (i :: visited) r.points x → P visited i x)
    (nil : ∀ lines position visited,
      Q lines position visited [] (.ok ⟨visited, onward lines position⟩))
    (failed : ∀ lines position visited p points e, P visited p.target (.error e) →
      Q lines position visited (p :: points) (.error e))
    (next : ∀ lines position visited p points x y, P visited p.target (.ok x) →
      Q lines (p.line + 1) x.visited points y →
      Q lines position visited (p :: points)
        (y.map (.after (between lines position p.line ++ x.lines)))) :
    (∀ visited i x, g.splice visited i = some x → P visited i x) ∧
      ∀ lines position visited points x,
        g.splicePoints lines position visited points = some x →
          Q lines position visited points x := by
  refine splice.mutual_partial_correctness g P Q ?_ ?_
  · intro splicePoints ih visited i x h
    by_cases hv : i ∈ visited
    · rw [if_pos hv] at h
      cases h
      exact skipped visited i hv
    rw [if_neg hv] at h
    cases hr : g.get? i with
    | none =>
      rw [hr] at h
      cases h
      exact absent visited i hv hr
    | some r =>
      rw [hr] at h
      exact entered visited i r x hv hr (ih _ _ _ _ x h)
  · intro splice splicePoints ihs ihp lines position visited points x h
    cases points with
    | nil =>
      cases h
      exact nil lines position visited
    | cons p points =>
      simp only [Option.bind_eq_bind, Option.bind_eq_some_iff] at h
      obtain ⟨y, hy, h⟩ := h
      cases y with
      | error e =>
        cases h
        exact failed lines position visited p points e (ihs _ _ _ hy)
      | ok y =>
        simp only [Option.bind_eq_some_iff, Option.some.injEq] at h
        obtain ⟨z, hz, rfl⟩ := h
        exact next lines position visited p points y z (ihs _ _ _ hy) (ihp _ _ _ _ z hz)

theorem spliceAll_induct (g : Graph)
    {R : List Identity → List Identity → Except Failure Emitted → Prop}
    (nil : ∀ visited, R visited [] (.ok ⟨visited, []⟩))
    (failed : ∀ visited i is e, g.splice visited i = some (.error e) →
      R visited (i :: is) (.error e))
    (next : ∀ visited i is x y, g.splice visited i = some (.ok x) → R x.visited is y →
      R visited (i :: is) (y.map (.after x.lines)))
    {visited roots : List Identity} {x : Except Failure Emitted}
    (h : g.spliceAll visited roots = some x) : R visited roots x := by
  induction roots generalizing visited x with
  | nil =>
    cases h
    exact nil visited
  | cons i is ih =>
    simp only [spliceAll, Option.bind_eq_bind, Option.bind_eq_some_iff] at h
    obtain ⟨y, hy, h⟩ := h
    cases y with
    | error e =>
      cases h
      exact failed visited i is e hy
    | ok y =>
      simp only [Option.bind_eq_some_iff, Option.some.injEq] at h
      obtain ⟨z, hz, rfl⟩ := h
      exact next visited i is y z hy (ih hz)

end Graph

section Slices

variable {α : Type} {l : List α} {a : α} {rest : List α} {c k : Nat}

theorem clamp_natCast (n k : Nat) : clamp n k = min k n := by
  rw [clamp, if_neg (by omega), Int.toNat_natCast]

theorem onward_natCast (l : List α) (c : Nat) : onward l c = l.drop c := by
  rw [onward, clamp_natCast]
  rcases Nat.le_total c l.length with h | h
  · rw [Nat.min_eq_left h]
  · rw [Nat.min_eq_right h, List.drop_length, List.drop_eq_nil_of_le h]

theorem between_natCast (l : List α) (c k : Nat) : between l c k = (l.take k).drop c := by
  rw [between, clamp_natCast, clamp_natCast]
  have hk : l.take (min k l.length) = l.take k := by
    rw [← List.take_take, List.take_length]
  rw [hk]
  rcases Nat.le_total c l.length with h | h
  · rw [Nat.min_eq_left h]
  · have hl : (l.take k).length ≤ l.length := List.length_take_le' k l
    rw [Nat.min_eq_right h, List.drop_eq_nil_of_le hl, List.drop_eq_nil_of_le (Nat.le_trans hl h)]

theorem between_self (l : List α) (k : Nat) : between l k k = [] := by
  rw [between_natCast]
  exact List.drop_eq_nil_of_le (List.length_take_le k l)

theorem drop_succ (h : l.drop k = a :: rest) : l.drop (k + 1) = rest := by
  rw [← List.drop_drop, h]
  rfl

theorem between_succ (h : l.drop k = a :: rest) (hc : c ≤ k) :
    between l c (k + 1 : Nat) = between l c k ++ [a] := by
  have ha : l[k]? = some a := by
    rw [← Nat.add_zero k, ← List.getElem?_drop, h]
    rfl
  obtain ⟨hk, -⟩ := List.getElem?_eq_some_iff.1 ha
  rw [between_natCast, between_natCast, List.take_add_one, ha]
  refine List.drop_append_of_le_length ?_
  rw [List.length_take]
  omega

theorem between_of_drop_nil (h : l.drop k = []) (c : Nat) : between l c k = onward l c := by
  have hk : l.length ≤ k := by simpa using h
  rw [between_natCast, onward_natCast, List.take_of_length_le hk]

end Slices

namespace Assembly

variable {g : Graph} {i : Identity} {visited : List Identity} {output : List Text}
  {rest : List Cursor} {c : Cursor}

theorem loop_nil : loop g ⟨[], visited, output⟩ = .ok ⟨[], visited, output⟩ := by
  rw [loop]

theorem loop_cons :
    loop g ⟨c :: rest, visited, output⟩ =
      match step g c rest ⟨c :: rest, visited, output⟩ with
      | .error e => .error e
      | .ok st => loop g st := by
  rw [loop]
  split
  · rename_i h
    cases h
  · rename_i h
    cases h
    split <;> simp [*]

/-- How an assembly goes on when the file on top of its stack is left with a result. -/
def Resumes (g : Graph) (st : State) (rest : List Cursor) : Except Failure Emitted → Prop
  | .error e => loop g st = .error e
  | .ok x =>
    (∀ j ∈ st.visited, j ∈ x.visited) ∧ loop g st = loop g ⟨rest, x.visited, st.output ++ x.lines⟩

/-- A cursor on top of the stack does what remains to be emitted of its file: the recursion over
its points ends, and the assembly goes on below the cursor with what the recursion gives. -/
theorem loop_cursor (lines : List Text) (position : Int) (points : List Point)
    (visited : List Identity) (rest : List Cursor) (output : List Text) :
    ∃ x, g.splicePoints lines position visited points = some x ∧
      Resumes g ⟨⟨lines, position, points⟩ :: rest, visited, output⟩ rest x := by
  -- Either a file that was not visited is entered, or a point is passed.
  induction hN : unmarked g.keys visited using Nat.strongRecOn
    generalizing lines position points visited rest output with
  | _ N ih =>
    induction points generalizing position output with
    | nil =>
      refine ⟨.ok ⟨visited, onward lines position⟩, by rw [Graph.splicePoints], fun _ h => h, ?_⟩
      rw [loop_cons]
      rfl
    | cons p points ihp =>
      rw [Graph.splicePoints, Graph.splice]
      by_cases hv : p.target ∈ visited
      · obtain ⟨y, hy, hres⟩ := ihp (p.line + 1) (output ++ between lines position p.line)
        have hl : loop g ⟨⟨lines, position, p :: points⟩ :: rest, visited, output⟩ = loop g
            ⟨⟨lines, p.line + 1, points⟩ :: rest, visited,
              output ++ between lines position p.line⟩ := by
          rw [loop_cons]
          simp only [step, enter, if_pos hv]
        simp only [if_pos hv, hy, Option.bind_eq_bind, Option.bind_some]
        cases y with
        | error e => exact ⟨.error e, rfl, hl.trans hres⟩
        | ok y =>
          refine ⟨_, rfl, hres.1, hl.trans (hres.2.trans ?_)⟩
          simp [List.append_assoc]
      simp only [if_neg hv]
      cases hr : g.get? p.target with
      | none =>
        refine ⟨.error (.noRecord p.target), rfl, ?_⟩
        simp only [Resumes, loop_cons, step, enter, if_neg hv, hr]
      | some r =>
        have hl : loop g ⟨⟨lines, position, p :: points⟩ :: rest, visited, output⟩ = loop g
            ⟨⟨Text.lines r.text, 0, r.points⟩ :: ⟨lines, p.line + 1, points⟩ :: rest,
              p.target :: visited, output ++ between lines position p.line⟩ := by
          rw [loop_cons]
          simp only [step, enter, if_neg hv, hr]
        have hlt : ∀ visited' : List Identity, (∀ j ∈ p.target :: visited, j ∈ visited') →
            unmarked g.keys visited' < N := by
          intro visited' hk
          rw [← hN]
          exact unmarked_lt (fun j hj => hk j (List.mem_cons_of_mem _ hj))
            (Graph.mem_keys_of_get? hr) hv (hk p.target List.mem_cons_self)
        obtain ⟨x, hx, hres⟩ := ih _ (hlt _ fun _ h => h) (Text.lines r.text) 0 r.points
          (p.target :: visited) (⟨lines, p.line + 1, points⟩ :: rest)
          (output ++ between lines position p.line) rfl
        simp only [hx, Option.bind_eq_bind, Option.bind_some]
        cases x with
        | error e => exact ⟨.error e, rfl, hl.trans hres⟩
        | ok x =>
          obtain ⟨hk, hl'⟩ := hres
          obtain ⟨y, hy, hres'⟩ := ih _ (hlt _ hk) lines (p.line + 1) points x.visited rest
            (output ++ between lines position p.line ++ x.lines) rfl
          simp only [hy, Option.bind_some]
          cases y with
          | error e => exact ⟨.error e, rfl, hl.trans (hl'.trans hres')⟩
          | ok y =>
            refine ⟨_, rfl, fun j hj => hres'.1 j (hk j (List.mem_cons_of_mem _ hj)), ?_⟩
            refine hl.trans (hl'.trans (hres'.2.trans ?_))
            simp [List.append_assoc]

theorem emit_eq (g : Graph) (visited : List Identity) (output : List Text) (i : Identity) :
    ∃ x, g.splice visited i = some x ∧
      emit g ⟨[], visited, output⟩ i = x.map fun y => ⟨[], y.visited, output ++ y.lines⟩ := by
  rw [Graph.splice]
  by_cases hv : i ∈ visited
  · refine ⟨.ok ⟨visited, []⟩, by rw [if_pos hv], ?_⟩
    simp [emit, enter, hv, loop_nil, Except.map]
  · cases hr : g.get? i with
    | none =>
      refine ⟨.error (.noRecord i), by rw [if_neg hv], ?_⟩
      simp [emit, enter, hv, hr, Except.map]
    | some r =>
      obtain ⟨x, hx, hres⟩ := loop_cursor (g := g) (Text.lines r.text) 0 r.points (i :: visited) []
        output
      refine ⟨x, by rw [if_neg hv]; exact hx, ?_⟩
      simp only [emit, enter, if_neg hv, hr]
      cases x with
      | error e => exact hres
      | ok y => exact hres.2.trans loop_nil

theorem emitAll_eq (g : Graph) (visited : List Identity) (output : List Text)
    (roots : List Identity) :
    ∃ x, g.spliceAll visited roots = some x ∧
      emitAll g ⟨[], visited, output⟩ roots =
        x.map fun y => ⟨[], y.visited, output ++ y.lines⟩ := by
  induction roots generalizing visited output with
  | nil => exact ⟨.ok ⟨visited, []⟩, rfl, by simp [emitAll, Except.map]⟩
  | cons i is ih =>
    obtain ⟨x, hx, he⟩ := emit_eq g visited output i
    simp only [Graph.spliceAll, emitAll, hx, he]
    cases x with
    | error e => exact ⟨.error e, rfl, rfl⟩
    | ok x =>
      obtain ⟨y, hy, he'⟩ := ih x.visited (output ++ x.lines)
      simp only [Except.map, hy, he', Option.bind_eq_bind, Option.bind_some]
      cases y with
      | error e => exact ⟨.error e, rfl, rfl⟩
      | ok y => exact ⟨_, rfl, by simp [List.append_assoc]⟩

end Assembly

namespace Graph

def spliceText (g : Graph) (roots : List Identity) : Option (Except Failure Text) :=
  if g.keys = [] then some (.error .emptyGraph)
  else (g.spliceAll [] roots).map (Except.map fun x => Text.unlines x.lines)

theorem emitted_of_spliceAll {g : Graph} {roots : List Identity} {x : Except Failure Emitted}
    (hk : g.keys ≠ []) (hx : g.spliceAll [] roots = some x) :
    g.emitted roots = x.map Emitted.lines := by
  obtain ⟨y, hy, he⟩ := Assembly.emitAll_eq g [] [] roots
  cases hx.symm.trans hy
  rw [emitted, if_neg hk, he]
  cases x with
  | error e => rfl
  | ok x => simp [Except.map]

/-- On every graph and from any roots, given or computed, the loop over cursors assembles the text
that the recursion emits, or fails as the recursion fails; so both come to an end. -/
theorem spliceText_eq_assembleFrom (g : Graph) (roots : List Identity) :
    g.spliceText roots = some (g.assembleFrom roots) ∧
      g.spliceText g.roots = some g.assemble := by
  have h : ∀ roots, g.spliceText roots = some (g.assembleFrom roots) := by
    intro roots
    by_cases hk : g.keys = []
    · simp only [spliceText, assembleFrom, emitted, if_pos hk]
    · obtain ⟨x, hx, -⟩ := Assembly.emitAll_eq g [] [] roots
      rw [spliceText, if_neg hk, hx, assembleFrom, emitted_of_spliceAll hk hx]
      cases x <;> rfl
  exact ⟨h roots, h g.roots⟩

end Graph
end Splice
