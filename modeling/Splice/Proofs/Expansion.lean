import Splice.Proofs.BuiltGraph
import Splice.Proofs.Splicing

/-!
Expansion in one pass. A file is expanded line by line: an include line is replaced by the expansion
of its target the first time the target is met, dropped if the target was met in another file, and
kept as it stands if an earlier line of the same file includes the same target. Building a graph and
assembling it from its roots gives the same text or the same failure, and enters the files in the
order of the graph.
-/

set_option autoImplicit false

namespace Splice

namespace Bundle

mutual

def expand (b : Bundle) (m : Marker) (visited : List Identity) (i : Identity) :
    Option (Except Failure Emitted) :=
  match firstMalformed m.read 0 (b.linesOf i) with
  | some (n, message) => some (.error (.malformed n message (some i)))
  | none => b |>.expandLines m i [] (i :: visited) (b.linesOf i)
partial_fixpoint

/-- Expands lines of the file `i`, of which earlier lines included some targets. -/
def expandLines (b : Bundle) (m : Marker) (i : Identity) (included visited : List Identity)
    (ls : List Text) : Option (Except Failure Emitted) :=
  match ls with
  | [] => some (.ok ⟨visited, []⟩)
  | l :: ls =>
    match (m.read l).directive? with
    | none => do
      let y ← b |>.expandLines m i included visited ls
      some (y.map (.after [l]))
    | some d =>
      match b.resolve (d.reference i) with
      | none => some (.error (.notFound (d.reference i)))
      | some u =>
        if u ∈ included then do
          let y ← b |>.expandLines m i included visited ls
          some (y.map (.after [l]))
        else if u ∈ visited then b |>.expandLines m i (included ++ [u]) visited ls
        else do
          match ← b |>.expand m visited u with
          | .error e => some (.error e)
          | .ok x =>
            let y ← b |>.expandLines m i (included ++ [u]) x.visited ls
            some (y.map (.after x.lines))
partial_fixpoint

end

def expandFrom (b : Bundle) (m : Marker) (seed : Reference) : Option (Except Failure Text) :=
  match b.resolve seed with
  | none => some (.error (.notFound seed))
  | some i => do
    let x ← b.expand m [] i
    some (x.map fun y => Text.unlines y.lines)

def expandNew (b : Bundle) (m : Marker) (visited : List Identity) (i : Identity) :
    Option (Except Failure Emitted) :=
  if i ∈ visited then some (.ok ⟨visited, []⟩) else b.expand m visited i

variable {b : Bundle} {m : Marker} {i u : Identity} {included visited : List Identity} {l : Text}
  {ls : List Text} {d : Include} {g : Graph}

theorem map_visited_after (ls : List Text) (y : Except Failure Emitted) :
    (y.map (.after ls)).map Emitted.visited = y.map Emitted.visited := by
  cases y <;> rfl

theorem expandLines_nil :
    b.expandLines m i included visited [] = some (.ok ⟨visited, []⟩) := by
  rw [expandLines]

theorem expandLines_plain {before : List Text}
    (hb : ∀ l ∈ before, (m.read l).directive? = none) :
    b.expandLines m i included visited (before ++ ls) =
      (b.expandLines m i included visited ls).map (Except.map (.after before)) := by
  induction before with
  | nil =>
    rw [List.nil_append]
    cases b.expandLines m i included visited ls with
    | none => rfl
    | some y => cases y <;> rfl
  | cons l before ih =>
    rw [List.forall_mem_cons] at hb
    rw [List.cons_append, expandLines, hb.1]
    simp only [ih hb.2]
    cases b.expandLines m i included visited ls with
    | none => rfl
    | some y => cases y <;> rfl

theorem expandLines_lost (hd : m.read l = .inclusion d) (hr : b.resolve (d.reference i) = none) :
    b.expandLines m i included visited (l :: ls) = some (.error (.notFound (d.reference i))) := by
  rw [expandLines, Reading.directive?_eq_some.2 hd]
  simp only [hr]

theorem expandLines_repeated (hd : m.read l = .inclusion d)
    (hr : b.resolve (d.reference i) = some u) (hu : u ∈ included) :
    b.expandLines m i included visited (l :: ls) =
      (b.expandLines m i included visited ls).map (Except.map (.after [l])) := by
  rw [expandLines, Reading.directive?_eq_some.2 hd]
  simp only [hr, if_pos hu]
  cases b.expandLines m i included visited ls <;> rfl

theorem expandLines_first (hd : m.read l = .inclusion d)
    (hr : b.resolve (d.reference i) = some u) (hu : u ∉ included) :
    b.expandLines m i included visited (l :: ls) =
      (b.expandNew m visited u).bind fun
        | .error e => some (.error e)
        | .ok x => (b.expandLines m i (included ++ [u]) x.visited ls).map
          (Except.map (.after x.lines)) := by
  rw [expandLines, Reading.directive?_eq_some.2 hd, expandNew]
  simp only [hr, if_neg hu]
  by_cases hv : u ∈ visited
  · simp only [if_pos hv, Option.bind_some]
    cases b.expandLines m i (included ++ [u]) visited ls with
    | none => rfl
    | some y => cases y <;> rfl
  · simp only [if_neg hv]
    cases b.expand m visited u with
    | none => rfl
    | some x =>
      cases x with
      | error e => rfl
      | ok x => cases h : b.expandLines m i (included ++ [u]) x.visited ls <;> simp [h]

/-- Induction over the recursion: what holds of every way in which an expansion can go, given that
it holds of what is expanded inside, holds whenever the recursion ends. -/
theorem expand_induct (b : Bundle) (m : Marker)
    {P : List Identity → Identity → Except Failure Emitted → Prop}
    {Q : Identity → List Identity → List Identity → List Text → Except Failure Emitted → Prop}
    (malformed : ∀ visited i n message, firstMalformed m.read 0 (b.linesOf i) = some (n, message) →
      P visited i (.error (.malformed n message (some i))))
    (opened : ∀ visited i x, firstMalformed m.read 0 (b.linesOf i) = none →
      Q i [] (i :: visited) (b.linesOf i) x → P visited i x)
    (nil : ∀ i included visited, Q i included visited [] (.ok ⟨visited, []⟩))
    (plain : ∀ i included visited l ls y, (m.read l).directive? = none →
      Q i included visited ls y → Q i included visited (l :: ls) (y.map (.after [l])))
    (lost : ∀ i included visited l ls d, m.read l = .inclusion d →
      b.resolve (d.reference i) = none →
      Q i included visited (l :: ls) (.error (.notFound (d.reference i))))
    (repeated : ∀ i included visited l ls d u y, m.read l = .inclusion d →
      b.resolve (d.reference i) = some u → u ∈ included →
      Q i included visited ls y → Q i included visited (l :: ls) (y.map (.after [l])))
    (known : ∀ i included visited l ls d u x, m.read l = .inclusion d →
      b.resolve (d.reference i) = some u → u ∉ included → u ∈ visited →
      Q i (included ++ [u]) visited ls x → Q i included visited (l :: ls) x)
    (failed : ∀ i included visited l ls d u e, m.read l = .inclusion d →
      b.resolve (d.reference i) = some u → u ∉ included → u ∉ visited →
      P visited u (.error e) → Q i included visited (l :: ls) (.error e))
    (first : ∀ i included visited l ls d u x y, m.read l = .inclusion d →
      b.resolve (d.reference i) = some u → u ∉ included → u ∉ visited →
      P visited u (.ok x) → Q i (included ++ [u]) x.visited ls y →
      Q i included visited (l :: ls) (y.map (.after x.lines))) :
    (∀ visited i x, b.expand m visited i = some x → P visited i x) ∧
      ∀ i included visited ls x, b.expandLines m i included visited ls = some x →
        Q i included visited ls x := by
  refine expand.mutual_partial_correctness b m P Q ?_ ?_
  · intro expandLines ih visited i x h
    cases hf : firstMalformed m.read 0 (b.linesOf i) with
    | some p =>
      rw [hf] at h
      cases h
      exact malformed visited i p.1 p.2 hf
    | none =>
      rw [hf] at h
      exact opened visited i x hf (ih _ _ _ _ x h)
  · intro expand expandLines ihe ihl i included visited ls x h
    cases ls with
    | nil =>
      cases h
      exact nil i included visited
    | cons l ls =>
      cases hl : (m.read l).directive? with
      | none =>
        simp only [hl, Option.bind_eq_bind, Option.bind_eq_some_iff, Option.some.injEq] at h
        obtain ⟨y, hy, rfl⟩ := h
        exact plain _ _ _ _ _ y hl (ihl _ _ _ _ y hy)
      | some d =>
        have hd := Reading.directive?_eq_some.1 hl
        cases hr : b.resolve (d.reference i) with
        | none =>
          simp only [hl, hr] at h
          cases h
          exact lost _ _ _ _ _ d hd hr
        | some u =>
          simp only [hl, hr] at h
          by_cases hu : u ∈ included
          · simp only [if_pos hu, Option.bind_eq_bind, Option.bind_eq_some_iff,
              Option.some.injEq] at h
            obtain ⟨y, hy, rfl⟩ := h
            exact repeated _ _ _ _ _ d u y hd hr hu (ihl _ _ _ _ y hy)
          rw [if_neg hu] at h
          by_cases hv : u ∈ visited
          · rw [if_pos hv] at h
            exact known _ _ _ _ _ d u x hd hr hu hv (ihl _ _ _ _ x h)
          · simp only [if_neg hv, Option.bind_eq_bind, Option.bind_eq_some_iff] at h
            obtain ⟨z, hz, h⟩ := h
            cases z with
            | error e =>
              cases h
              exact failed _ _ _ _ _ d u e hd hr hu hv (ihe _ _ _ hz)
            | ok z =>
              simp only [Option.bind_eq_some_iff, Option.some.injEq] at h
              obtain ⟨y, hy, rfl⟩ := h
              exact first _ _ _ _ _ d u z y hd hr hu hv (ihe _ _ _ hz) (ihl _ _ _ _ y hy)

theorem firstMalformed_of_shut {r : Reference} {e : Failure} (h : (b.search m).Shut r i e) :
    ∃ n message, firstMalformed m.read 0 (b.linesOf i) = some (n, message) ∧
      e = .malformed n message (some i) := by
  cases h with
  | read hr => cases hr
  | unreadable hr => cases hr
  | scan hr hs =>
    cases hr
    replace hs : scanFrom m.read (some i) 0 (b.linesOf i) = .error e := hs
    rw [scanFrom_eq] at hs
    cases hf : firstMalformed m.read 0 (b.linesOf i) with
    | none => simp [hf] at hs
    | some p =>
      obtain ⟨n, message⟩ := p
      simp only [hf, Except.error.injEq] at hs
      exact ⟨n, message, rfl, hs.symm⟩

theorem resolve_of_lost {r : Reference} {e : Failure} (h : (b.search m).Lost r e) :
    b.resolve r = none ∧ e = .notFound r := by
  cases h with
  | failed hr => cases hr
  | missing hr => exact ⟨Except.ok.inj hr, rfl⟩

theorem keys_put_reverse {r : Record} (hi : i ∉ g.keys) :
    (g.put i r).keys.reverse = i :: g.keys.reverse := by
  rw [Graph.keys_put_of_not_mem hi, List.reverse_append]
  rfl

theorem expand_of_visit (b : Bundle) (m : Marker) :
    (∀ g r i x, (b.search m).visit g r i = some x →
      ∃ y, b.expandNew m g.keys.reverse i = some y ∧
        y.map Emitted.visited = x.map fun g' => g'.keys.reverse) ∧
    ∀ i g points ds x, (b.search m).visitAll i g points ds = some x →
      (∀ v ∈ points.map Point.target, v ∈ g.keys) → ∀ k ls, directives m.read k ls = ds →
      ∃ y, b.expandLines m i (points.map Point.target) g.keys.reverse ls = some y ∧
        y.map Emitted.visited = x.map fun p => p.1.keys.reverse := by
  apply Search.visit_induct (b.search m)
  case known =>
    intro g r i hi
    exact ⟨.ok ⟨g.keys.reverse, []⟩, by rw [expandNew, if_pos (List.mem_reverse.2 hi)], rfl⟩
  case shut =>
    intro g r i e hi hs
    obtain ⟨n, message, hf, rfl⟩ := firstMalformed_of_shut hs
    refine ⟨.error (.malformed n message (some i)), ?_, rfl⟩
    rw [expandNew, if_neg (by simpa using hi), expand, hf]
  case opened =>
    intro g r i t ds x hi ho hx hq
    obtain ⟨-, hw, hds⟩ := opens_iff.1 ho
    obtain ⟨y, hy, hxy⟩ := hq (by simp) 0 (b.linesOf i) hds
    rw [keys_put_reverse hi, List.map_nil] at hy
    refine ⟨y, ?_, ?_⟩
    · rw [expandNew, if_neg (by simpa using hi), expand, firstMalformed_eq_none.2 hw]
      exact hy
    · cases x with
      | error e => exact hxy
      | ok p =>
        have he := ((Search.visit_spec _).2 _ _ _ _ _ hx t ds ho fun _ hp => hp).1
        have hi' : i ∈ p.1.keys := Search.mem_keys_of_grows he.grows
        simp only [Except.map, Graph.keys_put_of_mem hi']
        exact hxy
  case nil =>
    intro i g points _ k ls hds
    have hb := directive?_of_directives_nil hds
    refine ⟨.ok ⟨g.keys.reverse, ls⟩, ?_, rfl⟩
    have hp : b.expandLines m i (points.map Point.target) g.keys.reverse (ls ++ []) = _ :=
      expandLines_plain hb
    rw [List.append_nil, expandLines_nil] at hp
    simpa [Except.map, Emitted.after] using hp
  case lost =>
    intro i g points n d ds e hl _ k ls hds
    obtain ⟨before, l, after, rfl, hb, hd, -⟩ := split_of_directives_cons hds
    obtain ⟨hr, rfl⟩ := resolve_of_lost hl
    refine ⟨.error (.notFound (d.reference i)), ?_, rfl⟩
    rw [expandLines_plain hb, expandLines_lost hd hr]
    rfl
  case failed =>
    intro i g points n d ds u e hr hp hk k ls hds
    obtain ⟨before, l, after, rfl, hb, hd, -⟩ := split_of_directives_cons hds
    obtain ⟨x, hx, hxe⟩ := hp
    cases x with
    | ok x => cases hxe
    | error e' =>
      cases hxe
      have hu : u ∉ points.map Point.target := by
        intro hu
        rw [expandNew, if_pos (List.mem_reverse.2 (hk u hu))] at hx
        cases hx
      refine ⟨.error e, ?_, rfl⟩
      rw [expandLines_plain hb, expandLines_first hd (resolve_eq_ok.1 hr) hu, hx]
      rfl
  case next =>
    intro i g points n d ds u g' z hr hv hp hq hk k ls hds
    obtain ⟨before, l, after, rfl, hb, hd, hds'⟩ := split_of_directives_cons hds
    obtain ⟨x, hx, hxg⟩ := hp
    by_cases hu : u ∈ points.map Point.target
    · rw [Search.visit_of_mem (hk u hu)] at hv
      cases hv
      rw [Search.withPoint, if_pos hu] at hq
      obtain ⟨y, hy, hyz⟩ := hq hk (n + 1) after hds'
      refine ⟨(y.map (.after [l])).map (.after before), ?_, ?_⟩
      · rw [expandLines_plain hb, expandLines_repeated hd (resolve_eq_ok.1 hr) hu, hy]
        rfl
      · rw [map_visited_after, map_visited_after, hyz]
    · cases x with
      | error e => cases hxg
      | ok x =>
        obtain ⟨he, hu'⟩ := (Search.visit_spec _).1 _ _ _ _ hv
        have hk' := Search.targets_append (n := n) hk (fun _ => he.mem)
          (Search.mem_keys_of_grows hu')
        rw [Search.withPoint, if_neg hu] at hq
        obtain ⟨y, hy, hyz⟩ := hq hk' (n + 1) after hds'
        have hxv : x.visited = g'.keys.reverse := Except.ok.inj hxg
        simp only [List.map_append, List.map_cons, List.map_nil] at hy
        refine ⟨(y.map (.after x.lines)).map (.after before), ?_, ?_⟩
        · rw [expandLines_plain hb, expandLines_first hd (resolve_eq_ok.1 hr) hu, hx]
          simp only [Option.bind_some, hxv, hy]
          rfl
        · rw [map_visited_after, map_visited_after, hyz]

theorem map_after_map (before ls : List Text) (y : Except Failure Emitted) :
    (y.map (Emitted.after ls)).map (Emitted.after before) =
      y.map (Emitted.after (before ++ ls)) := by
  cases y with
  | error e => rfl
  | ok y => simp [Except.map, Emitted.after]

theorem map_after_nil (y : Except Failure Emitted) : y.map (Emitted.after []) = y := by
  cases y <;> rfl

theorem firstPoints_first {k : Nat} {ds : List (Nat × Include)}
    (hr : b.resolve (d.reference i) = some u) (hu : u ∉ included) :
    (b.search m).firstPoints i included ((k, d) :: ds) =
      ⟨k, u⟩ :: (b.search m).firstPoints i (included ++ [u]) ds := by
  simp only [Search.firstPoints, resolve_eq_ok.2 hr, if_neg hu]

theorem firstPoints_repeated {k : Nat} {ds : List (Nat × Include)}
    (hr : b.resolve (d.reference i) = some u) (hu : u ∈ included) :
    (b.search m).firstPoints i included ((k, d) :: ds) =
      (b.search m).firstPoints i included ds := by
  simp only [Search.firstPoints, resolve_eq_ok.2 hr, if_pos hu]

/-- A file of which the lines before `c` are emitted and the points from line `k` on are still to
come: assembly emits the lines in between, and then gives `x`. -/
def Splices (b : Bundle) (m : Marker) (g : Graph) (i : Identity)
    (included visited : List Identity) (ls : List Text) (x : Except Failure Emitted) : Prop :=
  ∀ c k : Nat, (b.linesOf i).drop k = ls → c ≤ k →
    (∀ p ∈ directives m.read k ls, ∃ u ∈ g.keys, b.resolve (p.2.reference i) = some u) →
    g.splicePoints (b.linesOf i) c visited
        ((b.search m).firstPoints i included (directives m.read k ls)) =
      some (x.map (.after (between (b.linesOf i) c k)))

namespace Splices

variable {x : Except Failure Emitted}

theorem nil : b.Splices m g i included visited [] (.ok ⟨visited, []⟩) := by
  intro c k hls _ _
  have hp : (b.search m).firstPoints i included (directives m.read k []) = [] := rfl
  rw [hp, Graph.splicePoints_nil, between_of_drop_nil hls]
  simp [Except.map, Emitted.after]

theorem plain (h : b.Splices m g i included visited ls x) (hl : (m.read l).directive? = none) :
    b.Splices m g i included visited (l :: ls) (x.map (.after [l])) := by
  intro c k hls hc hd
  rw [directives_cons_of_none hl] at hd ⊢
  rw [h c (k + 1) (drop_succ hls) (Nat.le_succ_of_le hc) hd, between_succ hls hc, map_after_map]

theorem repeated (h : b.Splices m g i included visited ls x) (hl : m.read l = .inclusion d)
    (hr : b.resolve (d.reference i) = some u) (hu : u ∈ included) :
    b.Splices m g i included visited (l :: ls) (x.map (.after [l])) := by
  intro c k hls hc hd
  rw [directives_cons_inclusion hl] at hd ⊢
  rw [List.forall_mem_cons] at hd
  rw [firstPoints_repeated hr hu, h c (k + 1) (drop_succ hls) (Nat.le_succ_of_le hc) hd.2,
    between_succ hls hc, map_after_map]

theorem lost {e : Failure} (hl : m.read l = .inclusion d)
    (hr : b.resolve (d.reference i) = none) :
    b.Splices m g i included visited (l :: ls) (.error e) := by
  intro c k _ _ hd
  rw [directives_cons_inclusion hl, List.forall_mem_cons] at hd
  obtain ⟨⟨u, -, hu⟩, -⟩ := hd
  cases hr.symm.trans hu

theorem failed {e : Failure} (hl : m.read l = .inclusion d)
    (hr : b.resolve (d.reference i) = some u) (hu : u ∉ included)
    (hs : u ∈ g.keys → g.splice visited u = some (.error e)) :
    b.Splices m g i included visited (l :: ls) (.error e) := by
  intro c k _ _ hd
  rw [directives_cons_inclusion hl] at hd ⊢
  rw [List.forall_mem_cons] at hd
  obtain ⟨⟨v, hv, hr'⟩, -⟩ := hd
  cases hr.symm.trans hr'
  rw [firstPoints_first hr hu, Graph.splicePoints_cons, hs hv]
  rfl

theorem first {y : Emitted} (h : b.Splices m g i (included ++ [u]) y.visited ls x)
    (hl : m.read l = .inclusion d) (hr : b.resolve (d.reference i) = some u) (hu : u ∉ included)
    (hs : u ∈ g.keys → g.splice visited u = some (.ok y)) :
    b.Splices m g i included visited (l :: ls) (x.map (.after y.lines)) := by
  intro c k hls _ hd
  rw [directives_cons_inclusion hl] at hd ⊢
  rw [List.forall_mem_cons] at hd
  obtain ⟨⟨v, hv, hr'⟩, hd⟩ := hd
  cases hr.symm.trans hr'
  have hrest := h (k + 1) (k + 1) (drop_succ hls) (Nat.le_refl _) hd
  rw [between_self, map_after_nil] at hrest
  rw [firstPoints_first hr hu, Graph.splicePoints_cons, hs hv]
  simp only [Option.bind_some]
  rw [← Int.natCast_succ, hrest, Option.map_some, map_after_map]

end Splices

/-- On a graph whose files are all settled, assembly emits for a file what its expansion gives,
whatever files were visited before. -/
theorem splice_of_expand (hg : ∀ j ∈ g.keys, (b.search m).Settled g j) :
    (∀ visited i x, b.expand m visited i = some x → i ∈ g.keys → i ∉ visited →
      g.splice visited i = some x) ∧
    ∀ i included visited ls x, b.expandLines m i included visited ls = some x →
      b.Splices m g i included visited ls x := by
  apply expand_induct b m
  case malformed =>
    intro visited i n message hf hi _
    obtain ⟨t, ds, ho, -⟩ := hg i hi
    obtain ⟨-, hw, -⟩ := opens_iff.1 ho
    cases hf.symm.trans (firstMalformed_eq_none.2 hw)
  case opened =>
    intro visited i x _ hx hi hv
    obtain ⟨t, ds, ho, hd, hr⟩ := hg i hi
    obtain ⟨rfl, -, rfl⟩ := opens_iff.1 ho
    have hx := hx 0 0 rfl (Nat.le_refl 0) fun p hp => by
      obtain ⟨u, hu, hr⟩ := hd p hp
      exact ⟨u, hu, resolve_eq_ok.1 hr⟩
    rw [Graph.splice_of_get? hv hr]
    rw [between_self, map_after_nil] at hx
    exact hx
  case nil =>
    intro i included visited
    exact .nil
  case plain =>
    intro i included visited l ls y hl h
    exact h.plain hl
  case lost =>
    intro i included visited l ls d hd hr
    exact .lost hd hr
  case repeated =>
    intro i included visited l ls d u y hd hr hu h
    exact h.repeated hd hr hu
  case known =>
    intro i included visited l ls d u x hd hr hu hv h
    rw [← map_after_nil x]
    exact Splices.first (y := ⟨visited, []⟩) h hd hr hu fun _ => Graph.splice_of_mem hv
  case failed =>
    intro i included visited l ls d u e hd hr hu hv h
    exact .failed hd hr hu fun hk => h hk hv
  case first =>
    intro i included visited l ls d u x y hd hr hu hv h h'
    exact h'.first hd hr hu fun hk => h hk hv

section Built

variable {seed : Reference} {built : Built}

theorem splice_seed (h : ((b.search m).run seed).result = .ok built) :
    ∃ x, b.expand m [] built.seed = some (.ok x) ∧
      built.graph.splice [] built.seed = some (.ok x) ∧
      x.visited = built.graph.keys.reverse := by
  obtain ⟨-, hv⟩ := Search.visit_of_run_ok h
  obtain ⟨y, hy, hyg⟩ := (expand_of_visit b m).1 _ _ _ _ hv
  cases y with
  | error e => cases hyg
  | ok x =>
    have hx : b.expand m [] built.seed = some (.ok x) := hy
    obtain ⟨rest, hk⟩ := keys_eq_cons h
    have hs := (splice_of_expand fun j hj => settled_of_mem_keys h hj).1 [] built.seed (.ok x) hx
      (hk ▸ List.mem_cons_self) (by simp)
    exact ⟨x, hx, hs, Except.ok.inj hyg⟩

theorem emitAll_roots (h : ((b.search m).run seed).result = .ok built) :
    ∃ x, b.expand m [] built.seed = some (.ok x) ∧
      Assembly.emitAll built.graph ⟨[], [], []⟩ built.graph.roots =
        .ok ⟨[], built.graph.keys.reverse, x.lines⟩ := by
  obtain ⟨x, hx, hs, hv⟩ := splice_seed h
  refine ⟨x, hx, ?_⟩
  obtain ⟨y, hy, he⟩ := Assembly.emitAll_eq built.graph [] [] [built.seed]
  simp only [Graph.spliceAll, hs, Option.bind_eq_bind, Option.bind_some, Option.some.injEq] at hy
  subst hy
  rw [roots_eq_seed h, he]
  simp [Except.map, hv]

theorem assemble_roots (h : ((b.search m).run seed).result = .ok built) :
    ∃ x, b.expand m [] built.seed = some (.ok x) ∧
      built.graph.assemble = .ok (Text.unlines x.lines) := by
  obtain ⟨x, hx, he⟩ := emitAll_roots h
  obtain ⟨rest, hk⟩ := keys_eq_cons h
  refine ⟨x, hx, ?_⟩
  simp only [Graph.assemble, Graph.assembleFrom, Graph.emitted, hk, he]
  rfl

/-- The seed comes first in a built graph and is its only root, also when the seed is on a cycle.
Assembly from the roots does not fail, and enters every file of the graph once, in the order of the
graph: what it has visited in the end, the latest first, is the graph backwards. The assembled text
is that of the same run. -/
theorem emitAll_visits_keys_in_order (h : ((b.search m).run seed).result = .ok built) :
    built.graph.keys.head? = some built.seed ∧ built.graph.roots = [built.seed] ∧
      ∃ st, Assembly.emitAll built.graph ⟨[], [], []⟩ built.graph.roots = .ok st ∧
        st.visited.reverse = built.graph.keys ∧
        built.graph.assemble = .ok (Text.unlines st.output) := by
  obtain ⟨rest, hk⟩ := keys_eq_cons h
  obtain ⟨x, hx, he⟩ := emitAll_roots h
  obtain ⟨y, hy, ha⟩ := assemble_roots h
  cases hx.symm.trans hy
  refine ⟨by rw [hk]; rfl, roots_eq_seed h, _, he, ?_, ha⟩
  exact List.reverse_reverse _

end Built

def ring : Bundle :=
  .ofList [(['a'], "x\n//&include <b>\n//&include <b>".toList),
    (['b'], "//&include \"a\"\n//&include <b>\ny".toList)]

def ringGraph : Graph :=
  ⟨[(['a'], ⟨"x\n//&include <b>\n//&include <b>".toList, [⟨1, ['b']⟩]⟩),
    (['b'], ⟨"//&include \"a\"\n//&include <b>\ny".toList, [⟨0, ['a']⟩, ⟨1, ['b']⟩]⟩)], by decide⟩

theorem run_ring :
    ((ring.search .default).run (.searched ['a'])).result = .ok ⟨['a'], ringGraph⟩ :=
  Search.run_of_steps 6 rfl rfl rfl

theorem emitAll_visits_ring :
    ((ring.search .default).run (.searched ['a'])).result = .ok ⟨['a'], ringGraph⟩ ∧
      ringGraph.keys.head? = some ['a'] ∧ ringGraph.roots = [['a']] ∧
      ∃ st, Assembly.emitAll ringGraph ⟨[], [], []⟩ ringGraph.roots = .ok st ∧
        st.visited.reverse = [['a'], ['b']] ∧
        ringGraph.assemble = .ok (Text.unlines st.output) :=
  ⟨run_ring, emitAll_visits_keys_in_order run_ring⟩

/-- For every bundle, marker and seed, building a graph and assembling it is expanding the seed in
one pass: the same text or the same failure. -/
theorem expandFrom_eq_assemble (b : Bundle) (m : Marker) (seed : Reference) :
    b.expandFrom m seed =
      some (((b.search m).run seed).result >>= fun built => built.graph.assemble) := by
  cases h : ((b.search m).run seed).result with
  | ok built =>
    obtain ⟨hr, -, -⟩ := Search.run_ok h
    obtain ⟨x, hx, ha⟩ := assemble_roots h
    rw [expandFrom, resolve_eq_ok.1 hr]
    simp only [hx]
    exact congrArg some ha.symm
  | error e =>
    rcases Search.visit_of_run_error h with hr | ⟨hr, rfl⟩ | ⟨i, hr, hv⟩
    · cases hr
    · rw [expandFrom, Except.ok.inj hr]
      rfl
    · obtain ⟨y, hy, hye⟩ := (expand_of_visit b m).1 _ _ _ _ hv
      cases y with
      | ok x => cases hye
      | error e' =>
        cases hye
        have hx : b.expand m [] i = some (.error e) := hy
        rw [expandFrom, resolve_eq_ok.1 hr]
        simp only [hx]
        rfl

end Bundle
end Splice
