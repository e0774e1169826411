import Mathlib.Algebra.Order.BigOperators.Group.List
import Mathlib.Algebra.Order.Group.Nat
import Splice.Proofs.Flattened

/-!
The work of a search, iteration by iteration. An iteration finishes the file on top of the stack,
passes a directive whose target is in the graph, or opens a file that is not. So every file is
opened once, and what remains to be done on the stack, together with the iterations made, is what
the opened files ask for: one iteration for each of their directives, and one to finish each file.
-/

set_option autoImplicit false

namespace Splice

namespace Search

def opening? (s : Search) (st : State) : Option Identity :=
  match st.stack with
  | ⟨i, _, points, (_, d) :: _⟩ :: _ =>
    match s.source.resolve (d.reference i) with
    | .ok (some u) => if u ∈ points.map Point.target ∨ u ∈ st.graph.keys then none else some u
    | _ => none
  | _ => none

/-- A run from a start file comes to a state after a number of iterations, and has opened these
files, in this order. -/
inductive Reaches (s : Search) (seed : Reference) : Nat → List Identity → State → Prop
  | start {i : Identity} {st : State} :
    s.source.resolve seed = .ok (some i) → s.openFile seed i ⟨.empty, [], []⟩ = .next st →
      Reaches s seed 0 [i] st
  | next {k : Nat} {opened : List Identity} {st st' : State} {f : Frame} {rest : List Frame} :
    Reaches s seed k opened st → st.stack = f :: rest → s.step f rest st = .next st' →
      Reaches s seed (k + 1) (opened ++ (s.opening? st).toList) st'

/-- The run is over in a state: the stack is empty, or the next iteration fails. -/
def Halts (s : Search) (st : State) : Except Failure Graph → Prop
  | .ok g => st.stack = [] ∧ g = st.graph
  | .error e => ∃ f rest events, st.stack = f :: rest ∧ s.step f rest st = .failed e events

inductive Advances (s : Search) : State → Option Identity → State → Prop
  | finish {g : Graph} {i : Identity} {t : Text} {points : List Point} {rest : List Frame}
    {events : List Event} :
    Advances s ⟨g, ⟨i, t, points, []⟩ :: rest, events⟩ none ⟨g.put i ⟨t, points⟩, rest, events⟩
  | pass {g : Graph} {i u : Identity} {t : Text} {points : List Point} {n : Nat} {d : Include}
    {ds : List (Nat × Include)} {rest : List Frame} {events events' : List Event} :
    s.source.resolve (d.reference i) = .ok (some u) →
      u ∈ points.map Point.target ∨ u ∈ g.keys →
      Advances s ⟨g, ⟨i, t, points, (n, d) :: ds⟩ :: rest, events⟩ none
        ⟨g, ⟨i, t, withPoint points n u, ds⟩ :: rest, events'⟩
  | enter {g : Graph} {i u : Identity} {t t' : Text} {points : List Point} {n : Nat} {d : Include}
    {ds ds' : List (Nat × Include)} {rest : List Frame} {events events' : List Event} :
    s.source.resolve (d.reference i) = .ok (some u) → u ∉ g.keys → s.Opens u t' ds' →
      Advances s ⟨g, ⟨i, t, points, (n, d) :: ds⟩ :: rest, events⟩ (some u)
        ⟨g.put u .placeholder, ⟨u, t', [], ds'⟩ :: ⟨i, t, points ++ [⟨n, u⟩], ds⟩ :: rest, events'⟩

variable {s s' : Search} {seed : Reference} {k : Nat} {opened : List Identity} {st st' : State}
  {f : Frame} {rest : List Frame} {i u : Identity} {c : Identity → Nat}

theorem opens_of_openFile {r : Reference} (h : s.openFile r i st = .next st') :
    ∃ t ds, s.Opens i t ds ∧ st' = ⟨st.graph.put i .placeholder, ⟨i, t, [], ds⟩ :: st.stack,
      st.events ++ [.scanned i ds.length]⟩ := by
  rcases opens_or_shut s r i with ⟨t, ds, ho⟩ | ⟨e, hs⟩
  · rw [openFile_of_opens ho] at h
    cases h
    exact ⟨t, ds, ho, rfl⟩
  · obtain ⟨events, he⟩ := openFile_of_shut st.graph st.stack st.events hs
    cases he.symm.trans h

theorem opening?_of_resolve {g : Graph} {t : Text} {points : List Point} {n : Nat} {d : Include}
    {ds : List (Nat × Include)} {events : List Event}
    (hr : s.source.resolve (d.reference i) = .ok (some u)) :
    s.opening? ⟨g, ⟨i, t, points, (n, d) :: ds⟩ :: rest, events⟩ =
      if u ∈ points.map Point.target ∨ u ∈ g.keys then none else some u := by
  simp only [opening?, hr]

theorem advances_of_step (hs : st.stack = f :: rest) (h : s.step f rest st = .next st') :
    s.Advances st (s.opening? st) st' := by
  obtain ⟨g, stack, events⟩ := st
  obtain ⟨i, t, points, pending⟩ := f
  cases hs
  cases pending with
  | nil =>
    cases h
    exact .finish
  | cons p ds =>
    obtain ⟨n, d⟩ := p
    rcases resolves_or_lost s (d.reference i) with ⟨u, hr⟩ | ⟨e, hl⟩
    · rw [opening?_of_resolve hr]
      simp only [step, follow, hr] at h
      by_cases hu : u ∈ points.map Point.target
      · rw [if_pos hu] at h
        cases h
        have hpoint : points = withPoint points n u := (if_pos hu).symm
        rw [if_pos (.inl hu)]
        nth_rewrite 2 [hpoint]
        exact .pass hr (.inl hu)
      rw [if_neg hu] at h
      by_cases hg : u ∈ g.keys
      · rw [if_pos hg] at h
        cases h
        have hpoint : points ++ [⟨n, u⟩] = withPoint points n u := (if_neg hu).symm
        rw [if_pos (.inr hg), hpoint]
        exact .pass hr (.inr hg)
      · rw [if_neg hg] at h
        obtain ⟨t', ds', ho, rfl⟩ := opens_of_openFile h
        rw [if_neg (not_or.2 ⟨hu, hg⟩)]
        exact .enter hr hg ho
    · rw [step_of_lost hl] at h
      cases h

theorem step_congr (hs : st.stack = f :: rest) (hr : ∀ r, s'.source.resolve r = s.source.resolve r)
    (ho : ∀ u, s.opening? st = some u →
      s'.source.read u = s.source.read u ∧ s'.scan u = s.scan u) :
    s'.step f rest st = s.step f rest st := by
  obtain ⟨g, stack, events⟩ := st
  obtain ⟨i, t, points, pending⟩ := f
  cases hs
  cases pending with
  | nil => rfl
  | cons p ds =>
    obtain ⟨n, d⟩ := p
    rcases resolves_or_lost s (d.reference i) with ⟨u, hu⟩ | ⟨e, hl⟩
    · rw [opening?_of_resolve hu] at ho
      simp only [step, follow, hr, hu]
      by_cases hp : u ∈ points.map Point.target
      · simp only [if_pos hp]
      by_cases hg : u ∈ g.keys
      · simp only [if_pos hg]
      · rw [if_neg (not_or.2 ⟨hp, hg⟩)] at ho
        obtain ⟨hread, hscan⟩ := ho u rfl
        simp only [if_neg hp, if_neg hg, openFile, hread, hscan]
    · rw [step_of_lost hl]
      cases hl with
      | failed hl => exact step_of_lost (.failed ((hr _).trans hl))
      | missing hl => exact step_of_lost (.missing ((hr _).trans hl))

/-- What holds of a run after a number of iterations, if `c` counts the directives of each file: the
opened files are those of the graph, the files on the stack are distinct ones of them, and the
iterations that are made and those that are left are the ones that the opened files ask for. -/
structure Tallied (s : Search) (c : Identity → Nat) (k : Nat) (opened : List Identity)
    (st : State) : Prop where
  keys : st.graph.keys = opened
  found : ∀ i ∈ opened, ∃ r, s.source.resolve r = .ok (some i)
  stacked : ∀ f ∈ st.stack, f.identity ∈ st.graph.keys
  distinct : (st.stack.map Frame.identity).Nodup
  total : k + st.work = (opened.map fun i => c i + 1).sum

theorem Tallied.not_mem_of_opening? (h : s.Tallied c k opened st) (hu : s.opening? st = some u) :
    u ∉ opened := by
  rw [← h.keys]
  unfold opening? at hu
  split at hu
  · split at hu
    · split at hu
      · cases hu
      · rename_i hn
        cases hu
        exact fun hm => hn (.inr hm)
    · cases hu
  · cases hu

theorem tallied_start (hc : ∀ {i t ds}, s.Opens i t ds → ds.length = c i)
    (hr : s.source.resolve seed = .ok (some i))
    (h : s.openFile seed i ⟨.empty, [], []⟩ = .next st) : s.Tallied c 0 [i] st := by
  obtain ⟨t, ds, ho, rfl⟩ := opens_of_openFile h
  have hi : i ∉ Graph.empty.keys := by simp
  refine ⟨Graph.keys_put_of_not_mem hi, ?_, ?_, ?_, ?_⟩
  · simpa using ⟨seed, hr⟩
  · simpa using Graph.mem_keys_put_self _ i _
  · simp
  · simp [State.work, hc ho]

theorem Tallied.advance (hc : ∀ {i t ds}, s.Opens i t ds → ds.length = c i)
    (h : s.Tallied c k opened st) {o : Option Identity} (ha : s.Advances st o st') :
    s.Tallied c (k + 1) (opened ++ o.toList) st' := by
  obtain ⟨hkeys, hfound, hstacked, hdistinct, htotal⟩ := h
  cases ha with
  | @finish g i t points rest events =>
    rw [List.forall_mem_cons] at hstacked
    rw [List.map_cons, List.nodup_cons] at hdistinct
    have hput : (g.put i ⟨t, points⟩).keys = g.keys := Graph.keys_put_of_mem hstacked.1
    simp only [Option.toList_none, List.append_nil]
    refine ⟨hput.trans hkeys, hfound, ?_, hdistinct.2, ?_⟩
    · simp only [hput]
      exact hstacked.2
    · simp only [State.work, List.foldr_cons, List.length_nil] at htotal ⊢
      omega
  | @pass g i u t points n d ds rest events events' hr hu =>
    simp only [Option.toList_none, List.append_nil]
    refine ⟨hkeys, hfound, ?_, hdistinct, ?_⟩
    · rw [List.forall_mem_cons] at hstacked ⊢
      exact hstacked
    · simp only [State.work, List.foldr_cons, List.length_cons] at htotal ⊢
      omega
  | @enter g i u t t' points n d ds ds' rest events events' hr hu ho =>
    have hput : (g.put u .placeholder).keys = g.keys ++ [u] := Graph.keys_put_of_not_mem hu
    rw [List.forall_mem_cons] at hstacked
    have hnew : u ∉ i :: rest.map Frame.identity := by
      intro hm
      rcases List.mem_cons.1 hm with rfl | hm
      · exact hu hstacked.1
      · obtain ⟨f, hf, rfl⟩ := List.mem_map.1 hm
        exact hu (hstacked.2 f hf)
    simp only [Option.toList_some]
    refine ⟨by rw [hput, hkeys], ?_, ?_, List.nodup_cons.2 ⟨hnew, hdistinct⟩, ?_⟩
    · intro j hj
      rcases List.mem_append.1 hj with hj | hj
      · exact hfound j hj
      · exact ⟨_, List.mem_singleton.1 hj ▸ hr⟩
    · simp only [hput, List.forall_mem_cons, List.mem_append]
      exact ⟨.inr (List.mem_singleton.2 rfl), .inl hstacked.1, fun f hf => .inl (hstacked.2 f hf)⟩
    · simp only [State.work, List.foldr_cons, List.length_cons] at htotal
      simp only [State.work, List.foldr_cons, List.map_append, List.sum_append, List.map_cons,
        List.map_nil, List.sum_cons, List.sum_nil, hc ho]
      omega

theorem Reaches.tallied (hc : ∀ {i t ds}, s.Opens i t ds → ds.length = c i)
    (h : s.Reaches seed k opened st) : s.Tallied c k opened st := by
  induction h with
  | start hr ho => exact tallied_start hc hr ho
  | next _ hs hstep ih => exact ih.advance hc (advances_of_step hs hstep)

theorem loop_of_next (hs : st.stack = f :: rest) (h : s.step f rest st = .next st') :
    s.loop st = s.loop st' := by
  obtain ⟨g, stack, events⟩ := st
  cases hs
  rw [loop_cons, h]

theorem Reaches.run_eq (h : s.Reaches seed k opened st) :
    ∃ i, s.source.resolve seed = .ok (some i) ∧
      (s.run seed).result = (s.loop st).result.map (Built.mk i) := by
  induction h with
  | @start i st hr ho =>
    refine ⟨i, hr, ?_⟩
    simp only [run, hr, ho]
    rcases s.loop st with ⟨events, e | g⟩ <;> rfl
  | next _ hs hstep ih =>
    rwa [loop_of_next hs hstep] at ih

/-- From every state that it reaches a run comes to its end, with the result of the loop. -/
theorem Reaches.exists_halts (h : s.Reaches seed k opened st) :
    ∃ k' opened' st', s.Reaches seed k' opened' st' ∧ s.Halts st' (s.loop st).result := by
  induction st using loop.induct s generalizing k opened with
  | case1 st hs =>
    obtain ⟨g, stack, events⟩ := st
    cases hs
    rw [loop_nil]
    exact ⟨k, opened, _, h, rfl, rfl⟩
  | case2 st f rest hs st' hstep ih =>
    rw [loop_of_next hs hstep]
    exact ih (h.next hs hstep)
  | case3 st f rest hs e events hstep =>
    obtain ⟨g, stack, events'⟩ := st
    cases hs
    rw [loop_cons, hstep]
    exact ⟨k, opened, _, h, f, rest, events, rfl, hstep⟩

theorem Reaches.run_of_nil (h : s.Reaches seed k opened st) (hs : st.stack = []) :
    ∃ i, (s.run seed).result = .ok ⟨i, st.graph⟩ := by
  obtain ⟨i, -, hrun⟩ := h.run_eq
  obtain ⟨g, stack, events⟩ := st
  cases hs
  rw [loop_nil] at hrun
  exact ⟨i, hrun⟩

theorem exists_halts_of_openFile (hr : s.source.resolve seed = .ok (some i))
    (ho : s.openFile seed i ⟨.empty, [], []⟩ = .next st) :
    ∃ k opened st' x, s.Reaches seed k opened st' ∧ s.Halts st' x ∧
      (s.run seed).result = x.map (Built.mk i) := by
  have hstart : s.Reaches seed 0 [i] st := .start hr ho
  obtain ⟨i', hr', hrun⟩ := hstart.run_eq
  cases hr.symm.trans hr'
  obtain ⟨k, opened, st', hreaches, hhalts⟩ := hstart.exists_halts
  exact ⟨k, opened, st', _, hreaches, hhalts, hrun⟩

theorem exists_reaches_of_ok {built : Built} (h : (s.run seed).result = .ok built) :
    ∃ k opened st, s.Reaches seed k opened st ∧ st.stack = [] := by
  obtain ⟨hr, -, -⟩ := run_ok h
  rcases opens_or_shut s seed built.seed with ⟨t, ds, ho⟩ | ⟨e, hshut⟩
  · obtain ⟨k, opened, st, x, hreaches, hhalts, hrun⟩ :=
      exists_halts_of_openFile hr (openFile_of_opens ho)
    rw [h] at hrun
    cases x with
    | error e => cases hrun
    | ok g => exact ⟨k, opened, st, hreaches, hhalts.1⟩
  · obtain ⟨events, hopen⟩ := openFile_of_shut .empty [] [] hshut
    simp only [run, hr, hopen] at h
    cases h

end Search

namespace Bundle

variable {b : Bundle} {m : Marker} {i : Identity} {t : Text} {ds : List (Nat × Include)}

def includeCount (b : Bundle) (m : Marker) (i : Identity) : Nat :=
  (b.linesOf i).countP m.isInclude

theorem length_directives (m : Marker) (n : Nat) (ls : List Text) :
    (directives m.read n ls).length = ls.countP m.isInclude := by
  induction ls generalizing n with
  | nil => rfl
  | cons l ls ih =>
    cases h : (m.read l).directive? with
    | none =>
      rw [directives_cons_of_none h, ih, List.countP_cons_of_neg (by simp [Marker.isInclude, h])]
    | some d =>
      rw [directives_cons_inclusion (Reading.directive?_eq_some.1 h), List.length_cons, ih,
        List.countP_cons_of_pos (by simp [Marker.isInclude, h])]

theorem length_of_opens (h : (b.search m).Opens i t ds) : ds.length = b.includeCount m i := by
  obtain ⟨-, -, rfl⟩ := opens_iff.1 h
  exact length_directives m 0 (b.linesOf i)

theorem sum_le_of_subset {α : Type} {l l' : List α} (h : l.Nodup) (hs : l ⊆ l') (c : α → Nat) :
    (l.map c).sum ≤ (l'.map c).sum := by
  obtain ⟨l₁, hp, hl⟩ := List.subperm_of_subset h hs
  rw [← (hp.map c).sum_eq]
  exact (hl.map c).sum_le_sum fun _ _ => Nat.zero_le _

/-- Through every bundle, for every marker and from every seed, a search comes to its end and does
nothing twice. In every state that it reaches, the files opened so far are distinct, the next
iteration reads and scans no file or one that is not among them, and the files on the stack are
distinct files of the graph; there are no more iterations than the stored files ask for. A loop that
is started comes to its end with the result of the run. A run that succeeds makes one iteration for
each file of the graph and one for each include line in them. -/
theorem run_iterations (b : Bundle) (m : Marker) (seed : Reference) :
    (∀ k opened st, (b.search m).Reaches seed k opened st →
      k ≤ (b.names.map fun i => b.includeCount m i + 1).sum ∧ opened.Nodup ∧
      (∀ u, (b.search m).opening? st = some u → u ∉ opened) ∧
      (∀ (s : Search) f rest, st.stack = f :: rest →
        (∀ r, s.source.resolve r = (b.search m).source.resolve r) →
        (∀ u, (b.search m).opening? st = some u →
          s.source.read u = (b.search m).source.read u ∧ s.scan u = (b.search m).scan u) →
        s.step f rest st = (b.search m).step f rest st) ∧
      (st.stack.map Frame.identity).Nodup ∧ ∀ f ∈ st.stack, f.identity ∈ st.graph.keys) ∧
    (∀ i st, b.resolve seed = some i →
      (b.search m).openFile seed i ⟨.empty, [], []⟩ = .next st →
      ∃ k opened st' x, (b.search m).Reaches seed k opened st' ∧ (b.search m).Halts st' x ∧
        ((b.search m).run seed).result = x.map (Built.mk i)) ∧
    ∀ built, ((b.search m).run seed).result = .ok built →
      ∀ k, (∃ opened st, (b.search m).Reaches seed k opened st ∧ st.stack = []) ↔
        k = built.graph.keys.length + (built.graph.keys.map (b.includeCount m)).sum := by
  have htally : ∀ k opened st, (b.search m).Reaches seed k opened st →
      (b.search m).Tallied (b.includeCount m) k opened st :=
    fun k opened st h => h.tallied length_of_opens
  refine ⟨fun k opened st h => ?_, fun i st hi ho => ?_, fun built hrun => ?_⟩
  · have ht := htally k opened st h
    have hnodup : opened.Nodup := ht.keys ▸ st.graph.distinct
    have hnames : opened ⊆ b.names := by
      intro i hi
      obtain ⟨r, hr⟩ := ht.found i hi
      exact mem_of_resolve (resolve_eq_ok.1 hr)
    have hsum := sum_le_of_subset hnodup hnames fun i => b.includeCount m i + 1
    have htotal := ht.total
    refine ⟨by omega, hnodup, fun u => ht.not_mem_of_opening?, ?_, ht.distinct, ht.stacked⟩
    exact fun s f rest hs hr hu => Search.step_congr hs hr hu
  · exact Search.exists_halts_of_openFile (resolve_eq_ok.2 hi) ho
  · have hcount : ∀ k opened st, (b.search m).Reaches seed k opened st → st.stack = [] →
        k = built.graph.keys.length + (built.graph.keys.map (b.includeCount m)).sum := by
      intro k opened st h hs
      have ht := htally k opened st h
      obtain ⟨i, hok⟩ := h.run_of_nil hs
      cases hrun.symm.trans hok
      have htotal := ht.total
      have hnone : st.work = 0 := by simp [Search.State.work, hs]
      rw [← ht.keys, List.sum_map_add, hnone] at htotal
      simpa [Nat.add_comm] using htotal
    intro k
    constructor
    · rintro ⟨opened, st, h, hs⟩
      exact hcount k opened st h hs
    · rintro rfl
      obtain ⟨k, opened, st, h, hs⟩ := Search.exists_reaches_of_ok hrun
      exact ⟨opened, st, hcount k opened st h hs ▸ h, hs⟩

theorem run_ring_iterations :
    ∃ opened st, (ring.search .default).Reaches (.searched ['a']) 6 opened st ∧ st.stack = [] :=
  ((run_iterations ring .default (.searched ['a'])).2.2 _ run_ring 6).2 (by decide)

end Bundle
end Splice
