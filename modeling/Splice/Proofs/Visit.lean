import Splice.Bundle
import Splice.Discovery

/-!
Discovery as a recursion. A visit to a file that has no record puts its placeholder, scans the
whole file, follows its directives in the order of the lines and puts the finished record. Nothing
in the definition bounds how deep visits are nested: a recursion without an end is `none`. The
loop over a stack of frames gives what the recursion gives, so the recursion ends on every source.
-/

set_option autoImplicit false

namespace Splice

def Bundle.search (b : Bundle) (m : Marker) : Search := ⟨b.source, fun i => scan m.read (some i)⟩

namespace Search

def withPoint (points : List Point) (n : Nat) (u : Identity) : List Point :=
  if u ∈ points.map Point.target then points else points ++ [⟨n, u⟩]

mutual

def visit (s : Search) (g : Graph) (r : Reference) (i : Identity) :
    Option (Except Failure Graph) :=
  if i ∈ g.keys then some (.ok g)
  else
    match s.source.read i with
    | .error e => some (.error e)
    | .ok (.unreadable _) => some (.error (.notFound r))
    | .ok (.text t) =>
      match s.scan i (Text.lines t) with
      | .error e => some (.error e)
      | .ok ds => do
        match ← s |>.visitAll i (g.put i .placeholder) [] ds with
        | .error e => some (.error e)
        | .ok (g, points) => some (.ok (g.put i ⟨t, points⟩))
partial_fixpoint

/-- Follows directives of the file `i`, which has the given points so far: each is resolved, gets a
point if its target has none in the file, and has its target visited before the next one. -/
def visitAll (s : Search) (i : Identity) (g : Graph) (points : List Point)
    (ds : List (Nat × Include)) : Option (Except Failure (Graph × List Point)) :=
  match ds with
  | [] => some (.ok (g, points))
  | (n, d) :: ds =>
    match s.source.resolve (d.reference i) with
    | .error e => some (.error e)
    | .ok none => some (.error (.notFound (d.reference i)))
    | .ok (some u) => do
      match ← s |>.visit g (d.reference i) u with
      | .error e => some (.error e)
      | .ok g => s |>.visitAll i g (withPoint points n u) ds
partial_fixpoint

end

def visitFrom (s : Search) (seed : Reference) : Option (Except Failure Built) :=
  match s.source.resolve seed with
  | .error e => some (.error e)
  | .ok none => some (.error (.notFound seed))
  | .ok (some i) => do
    match ← s.visit .empty seed i with
    | .error e => some (.error e)
    | .ok g => some (.ok ⟨i, g⟩)

def Opens (s : Search) (i : Identity) (t : Text) (ds : List (Nat × Include)) : Prop :=
  s.source.read i = .ok (.text t) ∧ s.scan i (Text.lines t) = .ok ds

inductive Shut (s : Search) (r : Reference) (i : Identity) : Failure → Prop
  | read {e : Failure} : s.source.read i = .error e → Shut s r i e
  | unreadable {e : Failure} : s.source.read i = .ok (.unreadable e) → Shut s r i (.notFound r)
  | scan {t : Text} {e : Failure} :
    s.source.read i = .ok (.text t) → s.scan i (Text.lines t) = .error e → Shut s r i e

inductive Lost (s : Search) (r : Reference) : Failure → Prop
  | failed {e : Failure} : s.source.resolve r = .error e → Lost s r e
  | missing : s.source.resolve r = .ok none → Lost s r (.notFound r)

theorem opens_or_shut (s : Search) (r : Reference) (i : Identity) :
    (∃ t ds, s.Opens i t ds) ∨ ∃ e, s.Shut r i e := by
  cases hr : s.source.read i with
  | error e => exact .inr ⟨e, .read hr⟩
  | ok c =>
    cases c with
    | unreadable e => exact .inr ⟨_, .unreadable hr⟩
    | text t =>
      cases hd : s.scan i (Text.lines t) with
      | error e => exact .inr ⟨e, .scan hr hd⟩
      | ok ds => exact .inl ⟨t, ds, hr, hd⟩

theorem resolves_or_lost (s : Search) (r : Reference) :
    (∃ u, s.source.resolve r = .ok (some u)) ∨ ∃ e, s.Lost r e := by
  cases hr : s.source.resolve r with
  | error e => exact .inr ⟨e, .failed hr⟩
  | ok target =>
    cases target with
    | none => exact .inr ⟨_, .missing hr⟩
    | some u => exact .inl ⟨u, rfl⟩

variable {s : Search} {g : Graph} {r : Reference} {i u : Identity} {t : Text} {points : List Point}
  {n : Nat} {d : Include} {ds : List (Nat × Include)} {e : Failure}

theorem visit_of_mem (hi : i ∈ g.keys) : s.visit g r i = some (.ok g) := by
  rw [visit, if_pos hi]

theorem visit_of_shut (hi : i ∉ g.keys) (h : s.Shut r i e) : s.visit g r i = some (.error e) := by
  rw [visit, if_neg hi]
  cases h with
  | read hr => rw [hr]
  | unreadable hr => rw [hr]
  | scan hr hd => simp only [hr, hd]

theorem visit_of_opens (hi : i ∉ g.keys) (h : s.Opens i t ds) :
    s.visit g r i = (s.visitAll i (g.put i .placeholder) [] ds).map
      (Except.map fun p => p.1.put i ⟨t, p.2⟩) := by
  rw [visit, if_neg hi]
  simp only [h.1, h.2]
  cases s.visitAll i (g.put i .placeholder) [] ds with
  | none => rfl
  | some x => cases x <;> rfl

theorem visitAll_of_lost (h : s.Lost (d.reference i) e) :
    s.visitAll i g points ((n, d) :: ds) = some (.error e) := by
  rw [visitAll]
  cases h with
  | failed hr => rw [hr]
  | missing hr => rw [hr]

theorem visitAll_of_resolve (hr : s.source.resolve (d.reference i) = .ok (some u)) :
    s.visitAll i g points ((n, d) :: ds) =
      (s.visit g (d.reference i) u).bind fun
        | .error e => some (.error e)
        | .ok g => s.visitAll i g (withPoint points n u) ds := by
  rw [visitAll, hr]
  rfl

/-- Induction over the recursion: what holds of every way in which a visit can go, given that it
holds of the visits inside, holds of every visit that ends. -/
theorem visit_induct (s : Search)
    {P : Graph → Reference → Identity → Except Failure Graph → Prop}
    {Q : Identity → Graph → List Point → List (Nat × Include) →
      Except Failure (Graph × List Point) → Prop}
    (known : ∀ g r i, i ∈ g.keys → P g r i (.ok g))
    (shut : ∀ g r i e, i ∉ g.keys → s.Shut r i e → P g r i (.error e))
    (opened : ∀ g r i t ds x, i ∉ g.keys → s.Opens i t ds →
      s.visitAll i (g.put i .placeholder) [] ds = some x → Q i (g.put i .placeholder) [] ds x →
      P g r i (x.map fun p => p.1.put i ⟨t, p.2⟩))
    (nil : ∀ i g points, Q i g points [] (.ok (g, points)))
    (lost : ∀ i g points n d ds e, s.Lost (d.reference i) e →
      Q i g points ((n, d) :: ds) (.error e))
    (failed : ∀ i g points n d ds u e, s.source.resolve (d.reference i) = .ok (some u) →
      P g (d.reference i) u (.error e) → Q i g points ((n, d) :: ds) (.error e))
    (next : ∀ i g points n d ds u g' x, s.source.resolve (d.reference i) = .ok (some u) →
      s.visit g (d.reference i) u = some (.ok g') → P g (d.reference i) u (.ok g') →
      Q i g' (withPoint points n u) ds x → Q i g points ((n, d) :: ds) x) :
    (∀ g r i x, s.visit g r i = some x → P g r i x) ∧
      ∀ i g points ds x, s.visitAll i g points ds = some x → Q i g points ds x := by
  have h := visit.mutual_partial_correctness s
    (fun g r i x => s.visit g r i = some x ∧ P g r i x)
    (fun i g points ds x => s.visitAll i g points ds = some x ∧ Q i g points ds x) ?_ ?_
  · exact ⟨fun g r i x hx => (h.1 g r i x hx).2,
      fun i g points ds x hx => (h.2 i g points ds x hx).2⟩
  · intro visitAll ih g r i x h
    by_cases hi : i ∈ g.keys
    · rw [if_pos hi] at h
      cases h
      exact ⟨visit_of_mem hi, known g r i hi⟩
    rw [if_neg hi] at h
    rcases opens_or_shut s r i with ⟨t, ds, ho⟩ | ⟨e, hs⟩
    · simp only [ho.1, ho.2, Option.bind_eq_bind, Option.bind_eq_some_iff] at h
      obtain ⟨y, hy, h⟩ := h
      obtain ⟨hv, hq⟩ := ih i _ [] ds y hy
      have hx : x = y.map fun p => p.1.put i ⟨t, p.2⟩ := by
        cases y <;> cases h <;> rfl
      subst hx
      exact ⟨by rw [visit_of_opens hi ho, hv]; rfl, opened g r i t ds y hi ho hv hq⟩
    · have hx : x = .error e := by
        cases hs with
        | read hr => simpa [hr] using h.symm
        | unreadable hr => simpa [hr] using h.symm
        | scan hr hd => simpa [hr, hd] using h.symm
      subst hx
      exact ⟨visit_of_shut hi hs, shut g r i e hi hs⟩
  · intro visit visitAll ihv iha i g points ds x h
    cases ds with
    | nil =>
      cases h
      exact ⟨by rw [Search.visitAll], nil i g points⟩
    | cons p ds =>
      obtain ⟨n, d⟩ := p
      rcases resolves_or_lost s (d.reference i) with ⟨u, hr⟩ | ⟨e, hl⟩
      · simp only [hr, Option.bind_eq_bind, Option.bind_eq_some_iff] at h
        obtain ⟨y, hy, h⟩ := h
        obtain ⟨hv, hp⟩ := ihv g _ u y hy
        cases y with
        | error e =>
          cases h
          exact ⟨by rw [visitAll_of_resolve hr, hv]; rfl, failed i g points n d ds u e hr hp⟩
        | ok g' =>
          obtain ⟨ha, hq⟩ := iha i g' _ ds x h
          refine ⟨?_, next i g points n d ds u g' x hr hv hp hq⟩
          rw [visitAll_of_resolve hr, hv]
          exact ha
      · have hx : x = .error e := by
          cases hl with
          | failed hr => simpa [hr] using h.symm
          | missing hr => simpa [hr] using h.symm
        subst hx
        exact ⟨visitAll_of_lost hl, lost i g points n d ds e hl⟩

section Loop

variable {f : Frame} {rest stack : List Frame} {events : List Event}

theorem loop_nil : s.loop ⟨g, [], events⟩ = ⟨events, .ok g⟩ := by
  rw [loop]

theorem loop_cons :
    s.loop ⟨g, f :: rest, events⟩ =
      match s.step f rest ⟨g, f :: rest, events⟩ with
      | .next st => s.loop st
      | .failed e events => ⟨events, .error e⟩ := by
  rw [loop]
  split
  · rename_i h
    cases h
  · rename_i h
    cases h
    split <;> simp [*]

def steps (s : Search) : Nat → State → Turn
  | 0, st => .next st
  | k + 1, st =>
    match st.stack with
    | [] => .next st
    | f :: rest =>
      match s.step f rest st with
      | .next st => steps s k st
      | .failed e events => .failed e events

theorem loop_of_steps {k : Nat} {st st' : State} (h : s.steps k st = .next st') :
    s.loop st = s.loop st' := by
  induction k generalizing st with
  | zero =>
    cases h
    rfl
  | succ k ih =>
    obtain ⟨g, stack, events⟩ := st
    cases stack with
    | nil =>
      cases h
      rfl
    | cons f rest =>
      rw [loop_cons]
      simp only [steps] at h
      cases hs : s.step f rest ⟨g, f :: rest, events⟩ with
      | next st =>
        rw [hs] at h
        exact ih h
      | failed e events' =>
        rw [hs] at h
        cases h

theorem run_of_steps (k : Nat) {seed : Reference} {st : State}
    (hr : s.source.resolve seed = .ok (some i))
    (ho : s.openFile seed i ⟨.empty, [], []⟩ = .next st)
    (hs : s.steps k st = .next ⟨g, [], events⟩) : (s.run seed).result = .ok ⟨i, g⟩ := by
  rw [run, hr]
  simp only [ho]
  rw [loop_of_steps hs, loop_nil]

theorem openFile_of_opens (h : s.Opens i t ds) :
    s.openFile r i ⟨g, stack, events⟩ =
      .next ⟨g.put i .placeholder, ⟨i, t, [], ds⟩ :: stack, events ++ [.scanned i ds.length]⟩ := by
  simp only [openFile, h.1, h.2]

theorem openFile_of_shut (g : Graph) (stack : List Frame) (events : List Event)
    (h : s.Shut r i e) : ∃ events', s.openFile r i ⟨g, stack, events⟩ = .failed e events' := by
  cases h with
  | read hr => exact ⟨events, by simp only [openFile, hr]⟩
  | @unreadable cause hr =>
    exact ⟨events ++ [.unreadable i cause], by simp only [openFile, hr]⟩
  | scan hr hd => exact ⟨events, by simp only [openFile, hr, hd]⟩

theorem step_of_lost (h : s.Lost (d.reference i) e) :
    s.step ⟨i, t, points, (n, d) :: ds⟩ rest ⟨g, stack, events⟩ = .failed e events := by
  cases h with
  | failed hr => simp only [step, follow, hr]
  | missing hr => simp only [step, follow, hr]

theorem loop_duplicate (hr : s.source.resolve (d.reference i) = .ok (some u))
    (hu : u ∈ points.map Point.target) :
    s.loop ⟨g, ⟨i, t, points, (n, d) :: ds⟩ :: rest, events⟩ =
      s.loop ⟨g, ⟨i, t, points, ds⟩ :: rest, events ++ [.duplicate i n u]⟩ := by
  rw [loop_cons]
  simp only [step, follow, hr, if_pos hu]

theorem loop_known (hr : s.source.resolve (d.reference i) = .ok (some u))
    (hu : u ∉ points.map Point.target) (hg : u ∈ g.keys) :
    s.loop ⟨g, ⟨i, t, points, (n, d) :: ds⟩ :: rest, events⟩ =
      s.loop ⟨g, ⟨i, t, points ++ [⟨n, u⟩], ds⟩ :: rest, events⟩ := by
  rw [loop_cons]
  simp only [step, follow, hr, if_neg hu, if_pos hg]

theorem loop_opened {t' : Text} {ds' : List (Nat × Include)}
    (hr : s.source.resolve (d.reference i) = .ok (some u)) (hu : u ∉ points.map Point.target)
    (hg : u ∉ g.keys) (ho : s.Opens u t' ds') :
    s.loop ⟨g, ⟨i, t, points, (n, d) :: ds⟩ :: rest, events⟩ =
      s.loop ⟨g.put u .placeholder, ⟨u, t', [], ds'⟩ :: ⟨i, t, points ++ [⟨n, u⟩], ds⟩ :: rest,
        events ++ [.scanned u ds'.length]⟩ := by
  rw [loop_cons]
  simp only [step, follow, hr, if_neg hu, if_neg hg, openFile_of_opens ho]

theorem loop_shut (hr : s.source.resolve (d.reference i) = .ok (some u))
    (hu : u ∉ points.map Point.target) (hg : u ∉ g.keys) (hs : s.Shut (d.reference i) u e) :
    (s.loop ⟨g, ⟨i, t, points, (n, d) :: ds⟩ :: rest, events⟩).result = .error e := by
  obtain ⟨events', ho⟩ := openFile_of_shut g (⟨i, t, points ++ [⟨n, u⟩], ds⟩ :: rest) events hs
  rw [loop_cons]
  simp only [step, follow, hr, if_neg hu, if_neg hg, ho]

theorem targets_append {g' : Graph} (hp : ∀ v ∈ points.map Point.target, v ∈ g.keys)
    (hk : ∀ j ∈ g.keys, j ∈ g'.keys) (hu : u ∈ g'.keys) :
    ∀ v ∈ (points ++ [Point.mk n u]).map Point.target, v ∈ g'.keys := by
  intro v hv
  simp only [List.map_append, List.map_cons, List.map_nil, List.mem_append,
    List.mem_singleton] at hv
  rcases hv with hv | rfl
  · exact hk v (hp v hv)
  · exact hu

/-- How a run goes on when the file `i` on top of its stack is left with a result. -/
def Resumes (s : Search) (st : State) (i : Identity) (t : Text) (rest : List Frame) :
    Except Failure (Graph × List Point) → Prop
  | .error e => (s.loop st).result = .error e
  | .ok (g, points) =>
    (∀ j ∈ st.graph.keys, j ∈ g.keys) ∧
      ∃ events, s.loop st = s.loop ⟨g.put i ⟨t, points⟩, rest, events⟩

theorem Resumes.of_loop {st : State} (st' : State) {x : Except Failure (Graph × List Point)}
    (h : s.Resumes st' i t rest x) (hl : s.loop st = s.loop st')
    (hk : ∀ j ∈ st.graph.keys, j ∈ st'.graph.keys) : s.Resumes st i t rest x := by
  cases x with
  | error e => exact (congrArg Outcome.result hl).trans h
  | ok p =>
    obtain ⟨hg, events, he⟩ := h
    exact ⟨fun j hj => hg j (hk j hj), events, hl.trans he⟩

/-- A frame on top of the stack does what remains of the visit to its file: the recursion over its
pending directives ends, and the run goes on below the frame with what the recursion gives. -/
theorem loop_frame (i : Identity) (t : Text) (points : List Point) (ds : List (Nat × Include))
    (g : Graph) (rest : List Frame) (events : List Event)
    (hp : ∀ u ∈ points.map Point.target, u ∈ g.keys) :
    ∃ x, s.visitAll i g points ds = some x ∧
      s.Resumes ⟨g, ⟨i, t, points, ds⟩ :: rest, events⟩ i t rest x := by
  -- Either a file new to the graph is opened, or the graph stays and a directive is used up.
  induction hN : unmarked s.source.known g.keys using Nat.strongRecOn
    generalizing i t points ds g rest events with
  | _ N ih =>
    induction ds generalizing points events with
    | nil =>
      refine ⟨.ok (g, points), by rw [visitAll], fun _ h => h, events, ?_⟩
      rw [loop_cons]
      rfl
    | cons p ds ihd =>
      obtain ⟨n, d⟩ := p
      rcases resolves_or_lost s (d.reference i) with ⟨u, hr⟩ | ⟨e, hl⟩
      · rw [visitAll_of_resolve hr]
        by_cases hu : u ∈ points.map Point.target
        · obtain ⟨x, hx, hres⟩ := ihd points (events ++ [.duplicate i n u]) hp
          refine ⟨x, ?_, hres.of_loop _ (loop_duplicate hr hu) fun _ h => h⟩
          rw [visit_of_mem (hp u hu), withPoint, if_pos hu]
          exact hx
        rw [withPoint, if_neg hu]
        by_cases hg : u ∈ g.keys
        · obtain ⟨x, hx, hres⟩ := ihd (points ++ [⟨n, u⟩]) events
            (targets_append hp (fun _ h => h) hg)
          refine ⟨x, ?_, hres.of_loop _ (loop_known hr hu hg) fun _ h => h⟩
          rw [visit_of_mem hg]
          exact hx
        rcases opens_or_shut s (d.reference i) u with ⟨t', ds', ho⟩ | ⟨e, hs⟩
        · have hlt : ∀ g' : Graph, (∀ j ∈ (g.put u .placeholder).keys, j ∈ g'.keys) →
              unmarked s.source.known g'.keys < N := by
            intro g' hk
            rw [← hN]
            exact unmarked_lt (fun j hj => hk j (Graph.mem_keys_put_of_mem hj))
              (Source.mem_known hr ho.1) hg (hk u (Graph.mem_keys_put_self _ _ _))
          obtain ⟨y, hy, hres⟩ := ih _ (hlt _ fun _ h => h) u t' [] ds' (g.put u .placeholder)
            (⟨i, t, points ++ [⟨n, u⟩], ds⟩ :: rest) (events ++ [.scanned u ds'.length]) (by simp)
            rfl
          have hl : s.loop ⟨g, ⟨i, t, points, (n, d) :: ds⟩ :: rest, events⟩ = _ :=
            loop_opened hr hu hg ho
          rw [visit_of_opens hg ho, hy]
          cases y with
          | error e => exact ⟨.error e, rfl, (congrArg Outcome.result hl).trans hres⟩
          | ok p =>
            obtain ⟨g', ps⟩ := p
            obtain ⟨hk, events', hl'⟩ := hres
            have hk' : ∀ j ∈ (g.put u .placeholder).keys, j ∈ (g'.put u ⟨t', ps⟩).keys :=
              fun j hj => Graph.mem_keys_put_of_mem (hk j hj)
            have hk'' : ∀ j ∈ g.keys, j ∈ (g'.put u ⟨t', ps⟩).keys :=
              fun j hj => hk' j (Graph.mem_keys_put_of_mem hj)
            obtain ⟨x, hx, hres'⟩ := ih _ (hlt _ hk') i t (points ++ [⟨n, u⟩]) ds
              (g'.put u ⟨t', ps⟩) rest events'
              (targets_append hp hk'' (Graph.mem_keys_put_self _ _ _)) rfl
            exact ⟨x, hx, hres'.of_loop _ (hl.trans hl') hk''⟩
        · refine ⟨.error e, ?_, loop_shut hr hu hg hs⟩
          rw [visit_of_shut hg hs]
          rfl
      · refine ⟨.error e, visitAll_of_lost hl, ?_⟩
        simp only [Resumes, loop_cons, step_of_lost hl]

end Loop

theorem visitFrom_eq (s : Search) (seed : Reference) :
    s.visitFrom seed = some (s.run seed).result := by
  unfold visitFrom run
  cases hr : s.source.resolve seed with
  | error e => rfl
  | ok target =>
    cases target with
    | none => rfl
    | some i =>
      have hi : i ∉ Graph.empty.keys := by simp
      rcases opens_or_shut s seed i with ⟨t, ds, ho⟩ | ⟨e, hs⟩
      · obtain ⟨x, hx, hres⟩ := loop_frame (s := s) i t [] ds (Graph.empty.put i .placeholder) []
          ([] ++ [.scanned i ds.length]) (by simp)
        simp only [visit_of_opens hi ho, openFile_of_opens ho, hx]
        cases x with
        | error e =>
          replace hres : (s.loop _).result = .error e := hres
          generalize s.loop _ = o at hres ⊢
          obtain ⟨events, result⟩ := o
          cases hres
          rfl
        | ok p =>
          obtain ⟨-, events, hl⟩ := hres
          rw [hl, loop_nil]
          rfl
      · obtain ⟨events, ho⟩ := openFile_of_shut .empty [] [] hs
        simp only [visit_of_shut hi hs, ho]
        rfl

end Search

/-- Through every bundle, for every marker and from every seed, the loop over frames builds what the
recursive visit builds: the same seed and records in the same order, or the same failure. -/
theorem Bundle.visitFrom_eq_run (b : Bundle) (m : Marker) (seed : Reference) :
    (b.search m).visitFrom seed = some ((b.search m).run seed).result :=
  Search.visitFrom_eq (b.search m) seed

end Splice
