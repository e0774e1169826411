import Mathlib.Data.List.Permutation
import Splice.Proofs.Expansion
import Splice.Proofs.OwnLines

/-!
Merged graphs. The records of graphs that were built from one bundle never differ, so it does not
matter which of them replaces which. Graphs without a common file stay apart when they are merged:
each is emitted as it is emitted alone. But the roots of a merged graph are the files that no file
includes, and a start file on a cycle is none of them: beside a graph that has such a root it is not
entered, and of two graphs without one only the first is.
-/

set_option autoImplicit false

namespace Splice

open Relation (ReflTransGen TransGen)

namespace Keyed

universe u v
variable {κ : Type u} {α : Type v} [DecidableEq κ] {k : κ} {a : α} {l m : List (κ × α)}

theorem get?_of_mem (hl : (keys l).Nodup) (h : (k, a) ∈ l) : get? k l = some a := by
  induction l with
  | nil => cases h
  | cons p l ih =>
    rw [keys_cons, List.nodup_cons] at hl
    rcases List.mem_cons.1 h with rfl | h
    · simp [get?]
    · have hne : p.1 ≠ k := fun e => hl.1 (e ▸ List.mem_map_of_mem h)
      simp [get?, hne, ih hl.2 h]

theorem put_of_not_mem (h : k ∉ keys l) : put k a l = l ++ [(k, a)] := by
  induction l with
  | nil => rfl
  | cons p l ih =>
    rw [keys_cons, List.mem_cons, not_or] at h
    simp [put, Ne.symm h.1, ih h.2]

theorem put_of_get? (h : get? k l = some a) : put k a l = l := by
  induction l with
  | nil => cases h
  | cons p l ih =>
    obtain ⟨j, c⟩ := p
    by_cases hk : j = k
    · simp only [get?, hk, if_true, Option.some.injEq] at h
      simp [put, hk, h]
    · simp only [get?, hk, if_false] at h
      simp [put, hk, ih h]

theorem get?_putAll (hm : (keys m).Nodup) :
    get? k (putAll l m) = (get? k m).or (get? k l) := by
  induction m generalizing l with
  | nil => rfl
  | cons p m ih =>
    rw [keys_cons, List.nodup_cons] at hm
    have hput : get? k (putAll l (p :: m)) = (get? k m).or (get? k (put p.1 p.2 l)) := ih hm.2
    rw [hput, get?_put]
    by_cases hk : k = p.1
    · have hnone : get? k m = none := get?_eq_none_iff.2 (hk ▸ hm.1)
      simp [get?, hk ▸ hnone, hk]
    · simp [get?, hk, Ne.symm hk]

theorem putAll_of_disjoint (hm : (keys m).Nodup) (hd : ∀ k ∈ keys m, k ∉ keys l) :
    putAll l m = l ++ m := by
  induction m generalizing l with
  | nil => simp [putAll]
  | cons p m ih =>
    rw [keys_cons, List.nodup_cons] at hm
    rw [keys_cons, List.forall_mem_cons] at hd
    have hput : putAll l (p :: m) = putAll (l ++ [p]) m :=
      congrArg (putAll · m) (put_of_not_mem hd.1)
    rw [hput, ih hm.2, List.append_assoc, List.singleton_append]
    intro k hk hmem
    simp only [keys, List.map_append, List.map_cons, List.map_nil, List.mem_append,
      List.mem_singleton] at hmem
    rcases hmem with hmem | rfl
    · exact hd.2 k hk hmem
    · exact hm.1 hk

theorem putAll_of_forall (h : ∀ p ∈ m, get? p.1 l = some p.2) : putAll l m = l := by
  induction m with
  | nil => rfl
  | cons p m ih =>
    rw [List.forall_mem_cons] at h
    have hput : putAll l (p :: m) = putAll l m := congrArg (putAll · m) (put_of_get? h.1)
    rw [hput, ih h.2]

end Keyed

namespace Graph

variable {g g' h : Graph} {i j u : Identity} {extra : List Identity}

theorem eq_of_records (e : g.records = h.records) : g = h := by
  cases g
  cases h
  cases e
  rfl

theorem mem_targets_iff : u ∈ g.targets ↔ ∃ i, g.Targets i u := by
  constructor
  · intro hu
    simp only [targets, edges, List.map_flatMap, List.mem_flatMap] at hu
    obtain ⟨p, hp, hu⟩ := hu
    exact ⟨p.1, p.2, Keyed.get?_of_mem g.distinct hp, by simpa using hu⟩
  · rintro ⟨i, r, hr, hu⟩
    exact mem_targets_of_get? hr hu

theorem get?_merge (g h : Graph) (j : Identity) :
    (g.merge h).get? j = (h.get? j).or (g.get? j) :=
  Keyed.get?_putAll h.distinct

theorem get?_eq_none_iff : g.get? j = none ↔ j ∉ g.keys := Keyed.get?_eq_none_iff

theorem get?_merge_right (hj : j ∈ h.keys) : (g.merge h).get? j = h.get? j := by
  obtain ⟨r, hr⟩ : ∃ r, h.get? j = some r := Keyed.exists_get?_of_mem hj
  rw [get?_merge, hr, Option.some_or]

theorem get?_merge_left (hj : j ∉ h.keys) : (g.merge h).get? j = g.get? j := by
  rw [get?_merge, get?_eq_none_iff.2 hj, Option.none_or]

theorem mem_keys_merge : j ∈ (g.merge h).keys ↔ j ∈ g.keys ∨ j ∈ h.keys := by
  rw [← not_iff_not, not_or, ← get?_eq_none_iff, ← get?_eq_none_iff, ← get?_eq_none_iff,
    get?_merge, Option.or_eq_none_iff, and_comm]

theorem keys_merge_perm (g h : Graph) : (g.merge h).keys.Perm (h.merge g).keys := by
  refine (List.perm_ext_iff_of_nodup (g.merge h).distinct (h.merge g).distinct).2 fun j => ?_
  exact mem_keys_merge.trans (or_comm.trans mem_keys_merge.symm)

theorem records_merge (hd : ∀ j ∈ g.keys, j ∉ h.keys) :
    (g.merge h).records = g.records ++ h.records :=
  Keyed.putAll_of_disjoint h.distinct fun j hj hg => hd j hg hj

theorem keys_merge (hd : ∀ j ∈ g.keys, j ∉ h.keys) : (g.merge h).keys = g.keys ++ h.keys := by
  simp only [keys, Keyed.keys, records_merge hd, List.map_append]

theorem targets_merge (hd : ∀ j ∈ g.keys, j ∉ h.keys) :
    (g.merge h).targets = g.targets ++ h.targets := by
  simp only [targets, edges, records_merge hd, List.flatMap_append, List.map_append]

def unreferenced (g : Graph) : List Identity := g.keys.filter (· ∉ g.targets)

theorem roots_of_unreferenced (hu : g.unreferenced ≠ []) : g.roots = g.unreferenced := by
  simp only [roots]
  split
  · rename_i hn
    exact absurd hn hu
  · rfl

theorem roots_of_unreferenced_nil (hu : g.unreferenced = []) : g.roots = g.keys.take 1 := by
  simp only [unreferenced] at hu
  simp only [roots, hu]

theorem unreferenced_merge (hd : ∀ j ∈ g.keys, j ∉ h.keys) (hg : ∀ u ∈ g.targets, u ∈ g.keys)
    (hh : ∀ u ∈ h.targets, u ∈ h.keys) :
    (g.merge h).unreferenced = g.unreferenced ++ h.unreferenced := by
  rw [unreferenced, keys_merge hd, targets_merge hd, List.filter_append]
  congr 1
  · refine List.filter_congr fun j hj => ?_
    have hn : j ∉ h.targets := fun hm => hd j hj (hh j hm)
    simp [hn]
  · refine List.filter_congr fun j hj => ?_
    have hn : j ∉ g.targets := fun hm => hd j (hg j hm) hj
    simp [hn]

end Graph

def Emitted.beside (extra : List Identity) (x : Emitted) : Emitted := ⟨x.visited ++ extra, x.lines⟩

namespace Graph

variable {g g' h : Graph} {i j : Identity} {extra : List Identity}

/-- What is emitted from a part of a graph that points do not leave depends on that part alone,
whatever files outside of it were visited before. -/
theorem splice_frame {K : Identity → Prop} (hget : ∀ j, K j → g'.get? j = g.get? j)
    (hclosed : ∀ j k, K j → g.Targets j k → K k) (hextra : ∀ j ∈ extra, ¬K j) :
    (∀ visited i x, g.splice visited i = some x → K i →
      g'.splice (visited ++ extra) i = some (x.map (.beside extra))) ∧
    ∀ lines position visited points x, g.splicePoints lines position visited points = some x →
      (∀ p ∈ points, K p.target) →
      g'.splicePoints lines position (visited ++ extra) points =
        some (x.map (.beside extra)) := by
  have hnew : ∀ {visited : List Identity} {i : Identity}, K i → i ∉ visited →
      i ∉ visited ++ extra := by
    intro visited i hi hv hm
    rcases List.mem_append.1 hm with hm | hm
    · exact hv hm
    · exact hextra i hm hi
  apply splice_induct g
  case skipped =>
    intro visited i hv _
    exact splice_of_mem (List.mem_append_left _ hv)
  case absent =>
    intro visited i hv hr hi
    exact splice_of_absent (hnew hi hv) ((hget i hi).trans hr)
  case entered =>
    intro visited i r x hv hr hq hi
    rw [splice_of_get? (hnew hi hv) ((hget i hi).trans hr), ← List.cons_append]
    exact hq fun p hp => hclosed i p.target hi ⟨r, hr, List.mem_map_of_mem hp⟩
  case nil =>
    intro lines position visited _
    exact splicePoints_nil
  case failed =>
    intro lines position visited p points e hp hK
    rw [List.forall_mem_cons] at hK
    rw [splicePoints_cons, hp hK.1]
    rfl
  case next =>
    intro lines position visited p points x y hp hq hK
    rw [List.forall_mem_cons] at hK
    have hrest : g'.splicePoints lines (p.line + 1) (x.beside extra).visited points = _ := hq hK.2
    rw [splicePoints_cons, hp hK.1]
    simp only [Except.map, Option.bind_some, hrest]
    cases y <;> rfl

theorem emitted_singleton {x : Emitted} (hs : g.splice [] i = some (.ok x)) (hi : i ∈ g.keys) :
    g.emitted [i] = .ok x.lines := by
  rw [emitted_of_spliceAll (List.ne_nil_of_mem hi) (x := .ok x)]
  · rfl
  · simp [spliceAll, hs, Emitted.after, Except.map]

end Graph

theorem Search.visit_of_reference {s : Search} {g g' : Graph} {r : Reference} {i : Identity}
    (hv : s.visit g r i = some (.ok g')) (r' : Reference) : s.visit g r' i = some (.ok g') := by
  by_cases hi : i ∈ g.keys
  · rw [visit_of_mem hi] at hv ⊢
    exact hv
  rcases opens_or_shut s r i with ⟨t, ds, ho⟩ | ⟨e, hs⟩
  · rw [visit_of_opens hi ho] at hv ⊢
    exact hv
  · rw [visit_of_shut hi hs] at hv
    cases hv

namespace Bundle

variable {b b' : Bundle} {m m' : Marker} {seed seed' : Reference} {built built' : Built}
  {j u : Identity}

/-- The file includes itself, directly or through others. -/
def OnCycle (b : Bundle) (m : Marker) (i : Identity) : Prop := TransGen (b.Includes m) i i

section Built

variable (h : ((b.search m).run seed).result = .ok built)

include h

theorem mem_keys_of_targets (hu : u ∈ built.graph.targets) : u ∈ built.graph.keys := by
  obtain ⟨j, r, hr, hu⟩ := Graph.mem_targets_iff.1 hu
  exact mem_keys_of_mem_targets h hr hu

theorem seed_mem_keys : built.seed ∈ built.graph.keys := (mem_keys_iff h).2 .refl

theorem onCycle_iff : b.OnCycle m built.seed ↔ built.seed ∈ built.graph.targets := by
  constructor
  · intro hc
    obtain ⟨k, hk, hks⟩ := TransGen.tail'_iff.1 hc
    exact mem_targets_of_includes h hk hks
  · intro hs
    obtain ⟨k, r, hr, hu⟩ := Graph.mem_targets_iff.1 hs
    obtain ⟨r', hr', hrec⟩ := exists_isRecord h (Graph.mem_keys_of_get? hr)
    cases hr.symm.trans hr'
    have hk : b.Reachable m built.seed k := (mem_keys_iff h).1 (Graph.mem_keys_of_get? hr)
    exact TransGen.tail' hk (hrec.includes_of_mem hu)

theorem unreferenced_of_onCycle (hc : b.OnCycle m built.seed) : built.graph.unreferenced = [] := by
  rw [Graph.unreferenced, List.filter_eq_nil_iff]
  intro j hj
  have ht : j ∈ built.graph.targets := by
    by_cases hs : j = built.seed
    · exact hs ▸ (onCycle_iff h).1 hc
    · exact mem_targets_of_ne_seed h hj hs
  simpa using ht

theorem unreferenced_of_not_onCycle (hc : ¬b.OnCycle m built.seed) :
    built.graph.unreferenced = [built.seed] := by
  obtain ⟨rest, hk⟩ := keys_eq_cons h
  have hseed : built.seed ∉ built.graph.targets := mt (onCycle_iff h).2 hc
  have hrest : rest.filter (· ∉ built.graph.targets) = [] := by
    rw [List.filter_eq_nil_iff]
    intro j hj
    have ht : j ∈ built.graph.targets := mem_targets_of_ne_seed h
      (hk ▸ List.mem_cons_of_mem _ hj) (ne_seed_of_mem_tail hk hj)
    simpa using ht
  rw [Graph.unreferenced, hk, List.filter_cons_of_pos (by simpa using hseed), hrest]

/-- Within any graph that has the records of a built one, the seed is emitted as in the built graph,
if none of its files was visited before. -/
theorem splice_within {g : Graph} (extra : List Identity)
    (hget : ∀ j ∈ built.graph.keys, g.get? j = built.graph.get? j)
    (hextra : ∀ j ∈ extra, j ∉ built.graph.keys) :
    ∃ x, built.graph.emitted built.graph.roots = .ok x.lines ∧
      g.splice extra built.seed = some (.ok x) ∧
      x.visited = built.graph.keys.reverse ++ extra := by
  obtain ⟨x, -, hs, hv⟩ := splice_seed h
  have hclosed : ∀ j k, j ∈ built.graph.keys → built.graph.Targets j k → k ∈ built.graph.keys :=
    fun j k _ ⟨r, hr, hu⟩ => mem_keys_of_mem_targets h hr hu
  have hframe := (Graph.splice_frame (K := (· ∈ built.graph.keys)) hget hclosed hextra).1
    [] built.seed (.ok x) hs (seed_mem_keys h)
  refine ⟨x.beside extra, ?_, hframe, by rw [Emitted.beside, hv]⟩
  rw [roots_eq_seed h]
  exact Graph.emitted_singleton (x := x) hs (seed_mem_keys h)

end Built

section Apart

variable (h : ((b.search m).run seed).result = .ok built)
  (h' : ((b'.search m').run seed').result = .ok built')
  (hd : ∀ j ∈ built.graph.keys, j ∉ built'.graph.keys)

include h h' hd

theorem unreferenced_merge :
    (built.graph.merge built'.graph).unreferenced =
      built.graph.unreferenced ++ built'.graph.unreferenced :=
  Graph.unreferenced_merge hd (fun _ => mem_keys_of_targets h) fun _ => mem_keys_of_targets h'

theorem roots_merge (hc : ¬b.OnCycle m built.seed) (hc' : ¬b'.OnCycle m' built'.seed) :
    (built.graph.merge built'.graph).roots = [built.seed, built'.seed] := by
  have hu := unreferenced_merge h h' hd
  rw [unreferenced_of_not_onCycle h hc, unreferenced_of_not_onCycle h' hc'] at hu
  rw [Graph.roots_of_unreferenced (by simp [hu]), hu]
  rfl

theorem roots_merge_of_onCycle_left (hc : b.OnCycle m built.seed)
    (hc' : ¬b'.OnCycle m' built'.seed) :
    (built.graph.merge built'.graph).roots = [built'.seed] := by
  have hu := unreferenced_merge h h' hd
  rw [unreferenced_of_onCycle h hc, unreferenced_of_not_onCycle h' hc', List.nil_append] at hu
  rw [Graph.roots_of_unreferenced (by simp [hu]), hu]

theorem roots_merge_of_onCycle_right (hc' : b'.OnCycle m' built'.seed) :
    (built.graph.merge built'.graph).roots = [built.seed] := by
  have hu := unreferenced_merge h h' hd
  rw [unreferenced_of_onCycle h' hc', List.append_nil] at hu
  by_cases hc : b.OnCycle m built.seed
  · obtain ⟨rest, hk⟩ := keys_eq_cons h
    rw [unreferenced_of_onCycle h hc] at hu
    rw [Graph.roots_of_unreferenced_nil hu, Graph.keys_merge hd, hk]
    rfl
  · rw [unreferenced_of_not_onCycle h hc] at hu
    rw [Graph.roots_of_unreferenced (by simp [hu]), hu]

/-- Graphs that were built apart, from any bundles, and have no file in common. Emitted from both
seeds, the merged graph gives the lines of the first and then those of the second. From its own
roots it does so if neither seed is on a cycle. A seed on a cycle is no root beside the other graph:
if only the first seed is on one, the lines of the second graph alone are emitted, and if the second
seed is on one, those of the first alone. -/
theorem emitted_merge :
    ∃ ls ls', built.graph.emitted built.graph.roots = .ok ls ∧
      built'.graph.emitted built'.graph.roots = .ok ls' ∧
      let merged := built.graph.merge built'.graph
      merged.emitted [built.seed, built'.seed] = .ok (ls ++ ls') ∧
      (¬b.OnCycle m built.seed → ¬b'.OnCycle m' built'.seed →
        merged.emitted merged.roots = .ok (ls ++ ls')) ∧
      (b.OnCycle m built.seed → ¬b'.OnCycle m' built'.seed →
        merged.emitted merged.roots = .ok ls') ∧
      (b'.OnCycle m' built'.seed → merged.emitted merged.roots = .ok ls) := by
  have hk : built.seed ∈ (built.graph.merge built'.graph).keys :=
    Graph.mem_keys_merge.2 (.inl (seed_mem_keys h))
  have hk' : built'.seed ∈ (built.graph.merge built'.graph).keys :=
    Graph.mem_keys_merge.2 (.inr (seed_mem_keys h'))
  have hleft : ∀ j ∈ built.graph.keys,
      (built.graph.merge built'.graph).get? j = built.graph.get? j :=
    fun j hj => Graph.get?_merge_left (hd j hj)
  have hright : ∀ j ∈ built'.graph.keys,
      (built.graph.merge built'.graph).get? j = built'.graph.get? j :=
    fun j hj => Graph.get?_merge_right hj
  obtain ⟨x, hx, hs, hv⟩ := splice_within h [] hleft (by simp)
  -- The second seed is emitted alone, or behind all files of the first graph.
  obtain ⟨y, hy, hs', -⟩ := splice_within h' [] hright (by simp)
  obtain ⟨z, hz, hs'', -⟩ := splice_within h' x.visited hright fun j hj => by
    rw [hv, List.append_nil, List.mem_reverse] at hj
    exact hd j hj
  have hyz : z.lines = y.lines := Except.ok.inj (hz.symm.trans hy)
  have hboth : (built.graph.merge built'.graph).emitted [built.seed, built'.seed] =
      .ok (x.lines ++ y.lines) := by
    rw [Graph.emitted_of_spliceAll (List.ne_nil_of_mem hk)
      (x := .ok ⟨z.visited, x.lines ++ y.lines⟩)]
    · rfl
    · simp [Graph.spliceAll, hs, hs'', Emitted.after, Except.map, hyz]
  refine ⟨x.lines, y.lines, hx, hy, hboth, fun hc hc' => ?_, fun hc hc' => ?_, fun hc' => ?_⟩
  · rw [roots_merge h h' hd hc hc', hboth]
  · rw [roots_merge_of_onCycle_left h h' hd hc hc']
    exact Graph.emitted_singleton hs' hk'
  · rw [roots_merge_of_onCycle_right h h' hd hc']
    exact Graph.emitted_singleton hs hk

end Apart

def scroll : Bundle := .ofList [(['p'], "u\n//&include <q>".toList), (['q'], ['v'])]

def scrollGraph : Graph :=
  ⟨[(['p'], ⟨"u\n//&include <q>".toList, [⟨1, ['q']⟩]⟩), (['q'], ⟨['v'], []⟩)], by decide⟩

theorem run_scroll :
    ((scroll.search .default).run (.searched ['p'])).result = .ok ⟨['p'], scrollGraph⟩ :=
  Search.run_of_steps 3 rfl rfl rfl

theorem emitted_ring_merge_scroll :
    ((ring.search .default).run (.searched ['a'])).result = .ok ⟨['a'], ringGraph⟩ ∧
      ((scroll.search .default).run (.searched ['p'])).result = .ok ⟨['p'], scrollGraph⟩ ∧
      (∀ j ∈ ringGraph.keys, j ∉ scrollGraph.keys) ∧
      ringGraph.emitted ringGraph.roots = .ok [['x'], ['y'], "//&include <b>".toList] ∧
      scrollGraph.emitted scrollGraph.roots = .ok [['u'], ['v']] ∧
      (ringGraph.merge scrollGraph).emitted (ringGraph.merge scrollGraph).roots =
        .ok [['u'], ['v']] :=
  ⟨run_ring, run_scroll, by decide, by cbv, by cbv, by cbv⟩

def leaf : Bundle := .ofList [(['z'], ['w'])]

def leafGraph : Graph := ⟨[(['z'], ⟨['w'], []⟩)], by decide⟩

theorem run_leaf :
    ((leaf.search .default).run (.ofSeed ['z'])).result = .ok ⟨['z'], leafGraph⟩ :=
  Search.run_of_steps 1 rfl rfl rfl

theorem emitted_scroll_merge_leaf :
    ¬scroll.OnCycle .default ['p'] ∧ ¬leaf.OnCycle .default ['z'] ∧
      (∀ j ∈ scrollGraph.keys, j ∉ leafGraph.keys) ∧
      (scrollGraph.merge leafGraph).emitted (scrollGraph.merge leafGraph).roots =
        .ok ([['u'], ['v']] ++ [['w']]) := by
  have hc : ¬scroll.OnCycle .default ['p'] := mt (onCycle_iff run_scroll).1 (by decide)
  have hc' : ¬leaf.OnCycle .default ['z'] := mt (onCycle_iff run_leaf).1 (by decide)
  have hd : ∀ j ∈ scrollGraph.keys, j ∉ leafGraph.keys := by decide
  have hs : scrollGraph.emitted scrollGraph.roots = .ok [['u'], ['v']] := by cbv
  have hl : leafGraph.emitted leafGraph.roots = .ok [['w']] := by cbv
  obtain ⟨ls, ls', h, h', -, hm, -, -⟩ := emitted_merge run_scroll run_leaf hd
  cases h.symm.trans hs
  cases h'.symm.trans hl
  exact ⟨hc, hc', hd, hm hc hc'⟩

section OneBundle

variable (h : ((b.search m).run seed).result = .ok built)
  (h' : ((b.search m).run seed').result = .ok built')

include h h'

theorem get?_congr (hj : j ∈ built.graph.keys) (hj' : j ∈ built'.graph.keys) :
    built.graph.get? j = built'.graph.get? j := by
  obtain ⟨t, ds, ho, -, hr⟩ := settled_of_mem_keys h hj
  obtain ⟨t', ds', ho', -, hr'⟩ := settled_of_mem_keys h' hj'
  cases ho.1.symm.trans ho'.1
  cases ho.2.symm.trans ho'.2
  rw [hr, hr']

theorem get?_merge_of_mem_left (hj : j ∈ built.graph.keys) :
    (built.graph.merge built'.graph).get? j = built.graph.get? j := by
  by_cases hj' : j ∈ built'.graph.keys
  · rw [Graph.get?_merge_right hj', get?_congr h h' hj hj']
  · rw [Graph.get?_merge_left hj']

theorem get?_merge_comm (j : Identity) :
    (built.graph.merge built'.graph).get? j = (built'.graph.merge built.graph).get? j := by
  by_cases hj : j ∈ built.graph.keys
  · rw [get?_merge_of_mem_left h h' hj, Graph.get?_merge_right hj]
  · by_cases hj' : j ∈ built'.graph.keys
    · rw [get?_merge_of_mem_left h' h hj', Graph.get?_merge_right hj']
    · rw [Graph.get?_merge_left hj', Graph.get?_merge_left hj, Graph.get?_eq_none_iff.2 hj,
        Graph.get?_eq_none_iff.2 hj']

theorem mem_keys_merge_of_targets (hu : (built.graph.merge built'.graph).Targets j u) :
    u ∈ (built.graph.merge built'.graph).keys := by
  obtain ⟨r, hr, hu⟩ := hu
  rw [Graph.mem_keys_merge]
  by_cases hj' : j ∈ built'.graph.keys
  · rw [Graph.get?_merge_right hj'] at hr
    exact .inr (mem_keys_of_mem_targets h' hr hu)
  · rw [Graph.get?_merge_left hj'] at hr
    exact .inl (mem_keys_of_mem_targets h hr hu)

theorem keys_subset_of_seed_mem (hs : built'.seed ∈ built.graph.keys) :
    ∀ j ∈ built'.graph.keys, j ∈ built.graph.keys := by
  intro j hj
  rw [mem_keys_iff h] at hs ⊢
  exact hs.trans ((mem_keys_iff h').1 hj)

theorem merge_eq_left (hs : ∀ j ∈ built'.graph.keys, j ∈ built.graph.keys) :
    built.graph.merge built'.graph = built.graph := by
  refine Graph.eq_of_records (Keyed.putAll_of_forall fun p hp => ?_)
  have hp' : built'.graph.get? p.1 = some p.2 := Keyed.get?_of_mem built'.graph.distinct hp
  have hj : p.1 ∈ built'.graph.keys := Graph.mem_keys_of_get? hp'
  exact (get?_congr h h' (hs p.1 hj) hj).trans hp'

theorem built_eq (hs : built.seed = built'.seed) : built = built' := by
  obtain ⟨i, g⟩ := built
  obtain ⟨i', g'⟩ := built'
  obtain ⟨-, hv⟩ := Search.visit_of_run_ok h
  obtain ⟨-, hv'⟩ := Search.visit_of_run_ok h'
  obtain rfl : i = i' := hs
  have hg := (Search.visit_of_reference hv seed').symm.trans hv'
  cases hg
  rfl

/-- Graphs that were built from one bundle agree. A file of both has the same record in both, so
merging them either way gives the same records, perhaps in another order, and a graph that is closed
under its points: all that can be reached from one seed or the other. If the second seed is a file
of the first graph, the second graph is a part of it and merging adds nothing; and seeds that
resolve to one file give one graph. -/
theorem merge_of_one_bundle :
    (∀ j r r', built.graph.get? j = some r → built'.graph.get? j = some r' → r = r') ∧
      (let merged := built.graph.merge built'.graph
       let flipped := built'.graph.merge built.graph
       (∀ j, merged.get? j = flipped.get? j) ∧ merged.keys.Perm flipped.keys ∧
         (∀ j r, merged.get? j = some r → ∀ u ∈ r.targets, u ∈ merged.keys) ∧
         ∀ j, j ∈ merged.keys ↔ b.Reachable m built.seed j ∨ b.Reachable m built'.seed j) ∧
      (built'.seed ∈ built.graph.keys →
        (∀ j ∈ built'.graph.keys, j ∈ built.graph.keys) ∧
          built.graph.merge built'.graph = built.graph) ∧
      (b.resolve seed = b.resolve seed' → built = built') := by
  refine ⟨?_, ⟨get?_merge_comm h h', Graph.keys_merge_perm _ _, ?_, ?_⟩, ?_, ?_⟩
  · intro j r r' hr hr'
    have hj := get?_congr h h' (Graph.mem_keys_of_get? hr) (Graph.mem_keys_of_get? hr')
    rw [hr, hr'] at hj
    exact Option.some.inj hj
  · intro j r hr u hu
    exact mem_keys_merge_of_targets h h' ⟨r, hr, hu⟩
  · intro j
    rw [Graph.mem_keys_merge, mem_keys_iff h, mem_keys_iff h']
  · intro hs
    have hsub := keys_subset_of_seed_mem h h' hs
    exact ⟨hsub, merge_eq_left h h' hsub⟩
  · intro hr
    obtain ⟨hi, -⟩ := Search.run_ok h
    obtain ⟨hi', -⟩ := Search.run_ok h'
    rw [resolve_eq_ok] at hi hi'
    rw [hi, hi'] at hr
    exact built_eq h h' (Option.some.inj hr)

end OneBundle

def turnedRing : Graph :=
  ⟨[(['b'], ⟨"//&include \"a\"\n//&include <b>\ny".toList, [⟨0, ['a']⟩, ⟨1, ['b']⟩]⟩),
    (['a'], ⟨"x\n//&include <b>\n//&include <b>".toList, [⟨1, ['b']⟩]⟩)], by decide⟩

theorem run_turnedRing :
    ((ring.search .default).run (.relative ['b'] ['a'])).result = .ok ⟨['b'], turnedRing⟩ :=
  Search.run_of_steps 6 rfl rfl rfl

theorem merge_ring_turned :
    ringGraph ≠ turnedRing ∧ ['b'] ∈ ringGraph.keys ∧ ringGraph.merge turnedRing = ringGraph ∧
      (∀ j, (ringGraph.merge turnedRing).get? j = (turnedRing.merge ringGraph).get? j) ∧
      ∀ j, j ∈ (ringGraph.merge turnedRing).keys ↔
        ring.Reachable .default ['a'] j ∨ ring.Reachable .default ['b'] j := by
  obtain ⟨-, ⟨hcomm, -, -, hkeys⟩, hsub, -⟩ := merge_of_one_bundle run_ring run_turnedRing
  have hb : ['b'] ∈ ringGraph.keys := by decide
  exact ⟨by decide, hb, (hsub hb).2, hcomm, hkeys⟩

end Bundle
end Splice
