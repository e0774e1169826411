import Mathlib.Logic.Relation
import Splice.Proofs.Visit

/-!
What a visit leaves behind. Every file it adds to the graph is reached from where it started, has
its final record, and includes only files of the graph; the records that were there stay. If the
visit fails, a file that can be reached is at fault.
-/

set_option autoImplicit false

namespace Splice.Search

open Relation (ReflTransGen)

def Leads (s : Search) (i j : Identity) : Prop :=
  ∃ t ds n d, s.Opens i t ds ∧ (n, d) ∈ ds ∧ s.source.resolve (d.reference i) = .ok (some j)

inductive Faulty (s : Search) (i : Identity) : Failure → Prop
  | shut {r : Reference} {e : Failure} : s.Shut r i e → Faulty s i e
  | lost {t : Text} {ds : List (Nat × Include)} {n : Nat} {d : Include} {e : Failure} :
    s.Opens i t ds → (n, d) ∈ ds → s.Lost (d.reference i) e → Faulty s i e

def firstPoints (s : Search) (i : Identity) (seen : List Identity) :
    List (Nat × Include) → List Point
  | [] => []
  | (n, d) :: ds =>
    match s.source.resolve (d.reference i) with
    | .ok (some u) =>
      if u ∈ seen then firstPoints s i seen ds
      else ⟨n, u⟩ :: firstPoints s i (seen ++ [u]) ds
    | _ => firstPoints s i seen ds

/-- The graph has the final record of a file and all that the file includes. -/
def Settled (s : Search) (g : Graph) (i : Identity) : Prop :=
  ∃ t ds, s.Opens i t ds ∧
    (∀ p ∈ ds, ∃ u ∈ g.keys, s.source.resolve (p.2.reference i) = .ok (some u)) ∧
    g.get? i = some ⟨t, s.firstPoints i [] ds⟩

/-- How a graph has grown by what was visited from a file. -/
structure Explored (s : Search) (i : Identity) (g g' : Graph) : Prop where
  grows : g.keys <+: g'.keys
  kept : ∀ j ∈ g.keys, g'.get? j = g.get? j
  settled : ∀ j ∈ g'.keys, j ∉ g.keys → s.Settled g' j
  reached : ∀ j ∈ g'.keys, j ∉ g.keys → ReflTransGen s.Leads i j

variable {s : Search} {g g' g'' : Graph} {i j u : Identity} {t : Text} {points : List Point}
  {n : Nat} {d : Include} {ds : List (Nat × Include)}

theorem Settled.mono (h : s.Settled g j) (hk : ∀ k ∈ g.keys, k ∈ g'.keys)
    (hj : g'.get? j = g.get? j) : s.Settled g' j := by
  obtain ⟨t, ds, ho, hd, hr⟩ := h
  refine ⟨t, ds, ho, ?_, hj.trans hr⟩
  intro p hp
  obtain ⟨u, hu, he⟩ := hd p hp
  exact ⟨u, hk u hu, he⟩

theorem mem_keys_of_grows {r : Record} (h : (g.put i r).keys <+: g'.keys) : i ∈ g'.keys :=
  h.subset (Graph.mem_keys_put_self g i r)

namespace Explored

theorem mem (h : s.Explored i g g') (hj : j ∈ g.keys) : j ∈ g'.keys := h.grows.subset hj

theorem refl (s : Search) (i : Identity) (g : Graph) : s.Explored i g g :=
  ⟨List.prefix_rfl, fun _ _ => rfl, fun _ hj hn => absurd hj hn, fun _ hj hn => absurd hj hn⟩

theorem trans (h : s.Explored i g g') (h' : s.Explored i g' g'') : s.Explored i g g'' := by
  refine ⟨h.grows.trans h'.grows, fun j hj => (h'.kept j (h.mem hj)).trans (h.kept j hj), ?_, ?_⟩
  · intro j hj hn
    by_cases hj' : j ∈ g'.keys
    · exact (h.settled j hj' hn).mono (fun _ => h'.mem) (h'.kept j hj')
    · exact h'.settled j hj hj'
  · intro j hj hn
    by_cases hj' : j ∈ g'.keys
    · exact h.reached j hj' hn
    · exact h'.reached j hj hj'

theorem of_leads (h : s.Explored u g g') (hu : s.Leads i u) : s.Explored i g g' :=
  ⟨h.grows, h.kept, h.settled, fun j hj hn => .head hu (h.reached j hj hn)⟩

theorem finish (h : s.Explored i (g.put i .placeholder) g') (hi : i ∉ g.keys)
    (ho : s.Opens i t ds)
    (hd : ∀ p ∈ ds, ∃ u ∈ g'.keys, s.source.resolve (p.2.reference i) = .ok (some u)) :
    s.Explored i g (g'.put i ⟨t, s.firstPoints i [] ds⟩) := by
  have hkeys : (g'.put i ⟨t, s.firstPoints i [] ds⟩).keys = g'.keys :=
    Graph.keys_put_of_mem (mem_keys_of_grows h.grows)
  have hother : ∀ j, j ≠ i → (g'.put i ⟨t, s.firstPoints i [] ds⟩).get? j = g'.get? j := by
    intro j hj
    rw [Graph.get?_put, if_neg hj]
  have hgrows := h.grows
  rw [Graph.keys_put_of_not_mem hi] at hgrows
  refine ⟨?_, ?_, ?_, ?_⟩
  · rw [hkeys]
    exact (List.prefix_append g.keys [i]).trans hgrows
  · intro j hj
    have hji : j ≠ i := fun e => hi (e ▸ hj)
    rw [hother j hji, h.kept j (Graph.mem_keys_put_of_mem hj), Graph.get?_put, if_neg hji]
  · intro j hj hn
    rw [hkeys] at hj
    by_cases hji : j = i
    · subst hji
      refine ⟨t, ds, ho, ?_, by rw [Graph.get?_put, if_pos rfl]⟩
      rw [hkeys]
      exact hd
    · have hn' : j ∉ (g.put i .placeholder).keys := by
        intro hm
        rcases Graph.mem_keys_put.1 hm with rfl | hm
        · exact hji rfl
        · exact hn hm
      refine (h.settled j hj hn').mono ?_ (hother j hji)
      rw [hkeys]
      exact fun _ hk => hk
  · intro j hj hn
    rw [hkeys] at hj
    by_cases hji : j = i
    · rw [hji]
    · refine h.reached j hj fun hm => ?_
      rcases Graph.mem_keys_put.1 hm with rfl | hm
      · exact hji rfl
      · exact hn hm

end Explored

/-- What the result of a visit to the file `i` says. -/
def VisitSpec (s : Search) (g : Graph) (i : Identity) : Except Failure Graph → Prop
  | .error e => ∃ j, ReflTransGen s.Leads i j ∧ s.Faulty j e
  | .ok g' => s.Explored i g g' ∧ (g.put i .placeholder).keys <+: g'.keys

def VisitAllSpec (s : Search) (i : Identity) (g : Graph) (points : List Point)
    (ds : List (Nat × Include)) : Except Failure (Graph × List Point) → Prop
  | .error e => ∃ j, ReflTransGen s.Leads i j ∧ s.Faulty j e
  | .ok (g', points') =>
    s.Explored i g g' ∧ points' = points ++ s.firstPoints i (points.map Point.target) ds ∧
      ∀ p ∈ ds, ∃ u ∈ g'.keys, s.source.resolve (p.2.reference i) = .ok (some u)

theorem firstPoints_cons (hr : s.source.resolve (d.reference i) = .ok (some u)) :
    points ++ s.firstPoints i (points.map Point.target) ((n, d) :: ds) =
      withPoint points n u ++
        s.firstPoints i ((withPoint points n u).map Point.target) ds := by
  simp only [firstPoints, withPoint, hr]
  by_cases hu : u ∈ points.map Point.target
  · simp only [if_pos hu]
  · simp only [if_neg hu, List.map_append, List.map_cons, List.map_nil, List.append_assoc,
      List.singleton_append]

theorem visit_spec (s : Search) :
    (∀ g r i x, s.visit g r i = some x → s.VisitSpec g i x) ∧
    ∀ i g points ds x, s.visitAll i g points ds = some x →
      ∀ t ds₀, s.Opens i t ds₀ → (∀ p ∈ ds, p ∈ ds₀) → s.VisitAllSpec i g points ds x := by
  apply visit_induct s
  case known =>
    intro g r i hi
    have hk : (g.put i .placeholder).keys = g.keys := Graph.keys_put_of_mem hi
    exact ⟨.refl s i g, hk ▸ List.prefix_rfl⟩
  case shut =>
    intro g r i e _ hs
    exact ⟨i, .refl, .shut hs⟩
  case opened =>
    intro g r i t ds x hi ho _ hq
    have hspec := hq t ds ho fun _ hp => hp
    cases x with
    | error e => exact hspec
    | ok p =>
      obtain ⟨g', points⟩ := p
      obtain ⟨he, hp, hk⟩ := hspec
      simp only [List.map_nil, List.nil_append] at hp
      subst hp
      refine ⟨he.finish hi ho hk, ?_⟩
      rw [Graph.keys_put_of_mem (mem_keys_of_grows he.grows)]
      exact he.grows
  case nil =>
    intro i g points t ds₀ _ _
    exact ⟨.refl s i g, by simp [firstPoints], by simp⟩
  case lost =>
    intro i g points n d ds e hl t ds₀ ho hds
    exact ⟨i, .refl, .lost ho (hds _ List.mem_cons_self) hl⟩
  case failed =>
    intro i g points n d ds u e hr hp t ds₀ ho hds
    obtain ⟨j, hj, hf⟩ := hp
    exact ⟨j, .head ⟨t, ds₀, n, d, ho, hds _ List.mem_cons_self, hr⟩ hj, hf⟩
  case next =>
    intro i g points n d ds u g' x hr _ hp hq t ds₀ ho hds
    have hu : s.Leads i u := ⟨t, ds₀, n, d, ho, hds _ List.mem_cons_self, hr⟩
    have hrest := hq t ds₀ ho fun p hp => hds p (List.mem_cons_of_mem _ hp)
    cases x with
    | error e => exact hrest
    | ok q =>
      obtain ⟨g'', points'⟩ := q
      obtain ⟨he, hp', hk⟩ := hrest
      refine ⟨(hp.1.of_leads hu).trans he, hp'.trans (firstPoints_cons hr).symm, ?_⟩
      rw [List.forall_mem_cons]
      exact ⟨⟨u, he.mem (mem_keys_of_grows hp.2), hr⟩, hk⟩

theorem visit_of_run_ok {seed : Reference} {built : Built}
    (h : (s.run seed).result = .ok built) :
    s.source.resolve seed = .ok (some built.seed) ∧
      s.visit .empty seed built.seed = some (.ok built.graph) := by
  have hv := visitFrom_eq s seed
  rw [h, visitFrom] at hv
  cases hr : s.source.resolve seed with
  | error e => simp [hr] at hv
  | ok target =>
    cases target with
    | none => simp [hr] at hv
    | some i =>
      simp only [hr, Option.bind_eq_bind, Option.bind_eq_some_iff] at hv
      obtain ⟨x, hx, hv⟩ := hv
      cases x with
      | error e => simp at hv
      | ok g =>
        simp only [Option.some.injEq, Except.ok.injEq] at hv
        subst hv
        exact ⟨rfl, hx⟩

theorem run_ok {seed : Reference} {built : Built} (h : (s.run seed).result = .ok built) :
    s.source.resolve seed = .ok (some built.seed) ∧ s.Explored built.seed .empty built.graph ∧
      [built.seed] <+: built.graph.keys := by
  obtain ⟨hr, hv⟩ := visit_of_run_ok h
  exact ⟨hr, (visit_spec s).1 _ _ _ _ hv⟩

theorem visit_of_run_error {seed : Reference} {e : Failure}
    (h : (s.run seed).result = .error e) :
    s.source.resolve seed = .error e ∨
    (s.source.resolve seed = .ok none ∧ e = .notFound seed) ∨
    ∃ i, s.source.resolve seed = .ok (some i) ∧ s.visit .empty seed i = some (.error e) := by
  have hv := visitFrom_eq s seed
  rw [h, visitFrom] at hv
  cases hr : s.source.resolve seed with
  | error e' =>
    simp only [hr, Option.some.injEq, Except.error.injEq] at hv
    exact .inl (by rw [hv])
  | ok target =>
    cases target with
    | none =>
      simp only [hr, Option.some.injEq, Except.error.injEq] at hv
      exact .inr (.inl ⟨rfl, hv.symm⟩)
    | some i =>
      simp only [hr, Option.bind_eq_bind, Option.bind_eq_some_iff] at hv
      obtain ⟨x, hx, hv⟩ := hv
      cases x with
      | error e' =>
        simp only [Option.some.injEq, Except.error.injEq] at hv
        subst hv
        exact .inr (.inr ⟨i, rfl, hx⟩)
      | ok g => simp at hv

def FirstAt (s : Search) (i : Identity) (ds : List (Nat × Include)) (n : Nat) (u : Identity) :
    Prop :=
  (∃ d, (n, d) ∈ ds ∧ s.source.resolve (d.reference i) = .ok (some u)) ∧
    ∀ p ∈ ds, s.source.resolve (p.2.reference i) = .ok (some u) → n ≤ p.1

theorem firstAt_cons_of_ne {k : Nat} (hr : s.source.resolve (d.reference i) ≠ .ok (some u)) :
    s.FirstAt i ((n, d) :: ds) k u ↔ s.FirstAt i ds k u := by
  constructor
  · rintro ⟨⟨d', hm, hr'⟩, hmin⟩
    rcases List.mem_cons.1 hm with he | hm
    · cases he
      exact absurd hr' hr
    · exact ⟨⟨d', hm, hr'⟩, fun p hp => hmin p (List.mem_cons_of_mem _ hp)⟩
  · rintro ⟨⟨d', hm, hr'⟩, hmin⟩
    refine ⟨⟨d', List.mem_cons_of_mem _ hm, hr'⟩, ?_⟩
    rw [List.forall_mem_cons]
    exact ⟨fun h => absurd h hr, hmin⟩

theorem firstAt_cons_self {k : Nat} (hr : s.source.resolve (d.reference i) = .ok (some u))
    (hlt : ∀ p ∈ ds, n < p.1) : s.FirstAt i ((n, d) :: ds) k u ↔ k = n := by
  constructor
  · rintro ⟨⟨d', hm, -⟩, hmin⟩
    have hk : k ≤ n := hmin (n, d) List.mem_cons_self hr
    rcases List.mem_cons.1 hm with he | hm
    · cases he
      rfl
    · have hn : n < k := hlt (k, d') hm
      omega
  · rintro rfl
    refine ⟨⟨d, List.mem_cons_self, hr⟩, ?_⟩
    rw [List.forall_mem_cons]
    exact ⟨fun _ => Nat.le_refl _, fun p hp _ => Nat.le_of_lt (hlt p hp)⟩

theorem mem_firstPoints {seen : List Identity} (hs : ds.Pairwise fun p q => p.1 < q.1)
    (p : Point) :
    p ∈ s.firstPoints i seen ds ↔
      p.target ∉ seen ∧ ∃ n : Nat, p.line = n ∧ s.FirstAt i ds n p.target := by
  induction ds generalizing seen with
  | nil => simp [firstPoints, FirstAt]
  | cons q ds ih =>
    obtain ⟨n, d⟩ := q
    rw [List.pairwise_cons] at hs
    obtain ⟨hlt, hs⟩ := hs
    have hskip : s.source.resolve (d.reference i) ≠ .ok (some p.target) →
        (p ∈ s.firstPoints i seen ds ↔ p.target ∉ seen ∧
          ∃ k : Nat, p.line = k ∧ s.FirstAt i ((n, d) :: ds) k p.target) := by
      intro hne
      simp only [ih hs, firstAt_cons_of_ne hne]
    unfold firstPoints
    split
    · rename_i u hr
      by_cases hu : u ∈ seen
      · rw [if_pos hu]
        by_cases hup : u = p.target
        · subst hup
          simp [ih hs, hu]
        · exact hskip fun h => hup (Option.some.inj (Except.ok.inj (hr.symm.trans h)))
      · rw [if_neg hu, List.mem_cons, ih hs]
        by_cases hup : u = p.target
        · subst hup
          simp only [firstAt_cons_self hr hlt, List.mem_append, List.mem_singleton, or_true,
            not_true_eq_false, false_and, or_false, hu, not_false_eq_true, true_and,
            exists_eq_right]
          exact ⟨fun h => by rw [h], fun h => by cases p; simp_all⟩
        · have hne : s.source.resolve (d.reference i) ≠ .ok (some p.target) :=
            fun h => hup (Option.some.inj (Except.ok.inj (hr.symm.trans h)))
          have hp : p ≠ ⟨n, u⟩ := fun h => hup (by rw [h])
          simp [firstAt_cons_of_ne hne, hp, Ne.symm hup]
    · rename_i hr
      exact hskip (hr _)

theorem pairwise_firstPoints (s : Search) (i : Identity) (seen : List Identity)
    (hs : ds.Pairwise fun p q => p.1 < q.1) :
    (s.firstPoints i seen ds).Pairwise fun p q => p.line < q.line := by
  induction ds generalizing seen with
  | nil => simp [firstPoints]
  | cons q ds ih =>
    rw [List.pairwise_cons] at hs
    unfold firstPoints
    split
    · rename_i u hr
      by_cases hu : u ∈ seen
      · rw [if_pos hu]
        exact ih seen hs.2
      · rw [if_neg hu, List.pairwise_cons]
        refine ⟨?_, ih _ hs.2⟩
        intro p hp
        obtain ⟨-, n, hn, ⟨d, hm, -⟩, -⟩ := (mem_firstPoints hs.2 p).1 hp
        have := hs.1 _ hm
        simp only [hn]
        omega
    · exact ih seen hs.2

end Splice.Search
