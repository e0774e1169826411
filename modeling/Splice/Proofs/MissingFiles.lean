import Splice.Proofs.OwnLines

set_option autoImplicit false

namespace Splice.Graph

open Relation (ReflTransGen)

/-- The identities that are met depth first from starting points, without those visited before and
each once. An identity without a record leads nowhere. -/
def depthFirst (g : Graph) (visited : List Identity) : List Identity → List Identity
  | [] => []
  | i :: rest =>
    if _hv : i ∈ visited then g.depthFirst visited rest
    else
      match _hr : g.get? i with
      | none => i :: g.depthFirst (i :: visited) rest
      | some r => i :: g.depthFirst (i :: visited) (r.targets ++ rest)
termination_by starts => (unmarked g.keys visited, starts.length)
decreasing_by
  · exact .right _ (Nat.lt_succ_self _)
  · have hle : unmarked g.keys (i :: visited) ≤ unmarked g.keys visited :=
      unmarked_le fun _ => List.mem_cons_of_mem i
    simp only [Prod.lex_def, List.length_cons]
    omega
  · exact .left _ _ (unmarked_lt (fun _ => List.mem_cons_of_mem i) (mem_keys_of_get? _hr) _hv
      List.mem_cons_self)

def firstMissing (g : Graph) (visited starts : List Identity) : Option Identity :=
  (g.depthFirst visited starts).find? (· ∉ g.keys)

variable {g : Graph} {i j k : Identity} {visited starts starts' roots rest : List Identity}
  {r : Record}

section DepthFirst

theorem depthFirst_of_mem (hv : i ∈ visited) :
    g.depthFirst visited (i :: rest) = g.depthFirst visited rest := by
  rw [depthFirst, dif_pos hv]

theorem depthFirst_of_absent (hv : i ∉ visited) (hr : g.get? i = none) :
    g.depthFirst visited (i :: rest) = i :: g.depthFirst (i :: visited) rest := by
  rw [depthFirst, dif_neg hv]
  split
  · rfl
  · rename_i hr'
    cases hr.symm.trans hr'

theorem depthFirst_of_get? (hv : i ∉ visited) (hr : g.get? i = some r) :
    g.depthFirst visited (i :: rest) =
      i :: g.depthFirst (i :: visited) (r.targets ++ rest) := by
  rw [depthFirst, dif_neg hv]
  split
  · rename_i hr'
    cases hr.symm.trans hr'
  · rename_i hr'
    cases hr.symm.trans hr'
    rfl

theorem firstMissing_of_mem (hv : i ∈ visited) :
    g.firstMissing visited (i :: rest) = g.firstMissing visited rest := by
  rw [firstMissing, depthFirst_of_mem hv, firstMissing]

theorem firstMissing_of_absent (hv : i ∉ visited) (hr : g.get? i = none) :
    g.firstMissing visited (i :: rest) = some i := by
  have hk : i ∉ g.keys := Keyed.get?_eq_none_iff.1 hr
  rw [firstMissing, depthFirst_of_absent hv hr, List.find?_cons_of_pos (by simpa using hk)]

theorem firstMissing_of_get? (hv : i ∉ visited) (hr : g.get? i = some r) :
    g.firstMissing visited (i :: rest) = g.firstMissing (i :: visited) (r.targets ++ rest) := by
  have hk : i ∈ g.keys := mem_keys_of_get? hr
  rw [firstMissing, depthFirst_of_get? hv hr, List.find?_cons_of_neg (by simpa using hk),
    firstMissing]

theorem reachable_of_mem_depthFirst (h : j ∈ g.depthFirst visited starts) :
    g.ReachableFrom starts j := by
  fun_induction depthFirst g visited starts with
  | case1 => cases h
  | case2 visited i rest hv ih => exact (ih h).mono fun _ => List.mem_cons_of_mem i
  | case3 visited i rest hv hr ih =>
    rcases List.mem_cons.1 h with rfl | h
    · exact ⟨j, List.mem_cons_self, .refl⟩
    · exact (ih h).mono fun _ => List.mem_cons_of_mem i
  | case4 visited i rest hv r hr ih =>
    rcases List.mem_cons.1 h with rfl | h
    · exact ⟨j, List.mem_cons_self, .refl⟩
    · obtain ⟨k, hk, hj⟩ := ih h
      rcases List.mem_append.1 hk with hk | hk
      · exact ⟨i, List.mem_cons_self, .head ⟨r, hr, hk⟩ hj⟩
      · exact ⟨k, List.mem_cons_of_mem i hk, hj⟩

theorem mem_depthFirst_of_mem (h : j ∈ starts) (hj : j ∉ visited) :
    j ∈ g.depthFirst visited starts := by
  fun_induction depthFirst g visited starts with
  | case1 => cases h
  | case2 visited i rest hv ih =>
    rcases List.mem_cons.1 h with rfl | h
    · exact absurd hv hj
    · exact ih h hj
  | case3 visited i rest hv hr ih =>
    by_cases hi : j = i
    · exact hi ▸ List.mem_cons_self
    · exact List.mem_cons_of_mem i (ih (by simpa [hi] using h) (by simp [hi, hj]))
  | case4 visited i rest hv r hr ih =>
    by_cases hi : j = i
    · exact hi ▸ List.mem_cons_self
    · have h' : j ∈ r.targets ++ rest := List.mem_append_right _ (by simpa [hi] using h)
      exact List.mem_cons_of_mem i (ih h' (by simp [hi, hj]))

theorem mem_depthFirst_of_targets (hj : j ∈ g.depthFirst visited starts) (ht : g.Targets j k)
    (hk : k ∉ visited) : k ∈ g.depthFirst visited starts := by
  fun_induction depthFirst g visited starts with
  | case1 => cases hj
  | case2 visited i rest hv ih => exact ih hj hk
  | case3 visited i rest hv hr ih =>
    by_cases hi : k = i
    · exact hi ▸ List.mem_cons_self
    · rcases List.mem_cons.1 hj with rfl | hj
      · obtain ⟨r, hr', -⟩ := ht
        cases hr.symm.trans hr'
      · exact List.mem_cons_of_mem i (ih hj (by simp [hi, hk]))
  | case4 visited i rest hv r hr ih =>
    by_cases hi : k = i
    · exact hi ▸ List.mem_cons_self
    · refine List.mem_cons_of_mem i ?_
      have hk' : k ∉ i :: visited := by simp [hi, hk]
      rcases List.mem_cons.1 hj with rfl | hj
      · obtain ⟨r', hr', hm⟩ := ht
        cases hr.symm.trans hr'
        exact mem_depthFirst_of_mem (List.mem_append_left _ hm) hk'
      · exact ih hj hk'

theorem mem_depthFirst : j ∈ g.depthFirst [] roots ↔ g.ReachableFrom roots j := by
  refine ⟨reachable_of_mem_depthFirst, ?_⟩
  rintro ⟨i, hi, hj⟩
  induction hj with
  | refl => exact mem_depthFirst_of_mem hi (by simp)
  | tail _ ht ih => exact mem_depthFirst_of_targets ih ht (by simp)

end DepthFirst

/-- What a result says about the files that were to be emitted: a failure names the first of them
that is missing, and otherwise none is, so the first missing one comes later. -/
def Finds (g : Graph) (visited starts : List Identity) : Except Failure Emitted → Prop
  | .error e => ∃ j, e = .noRecord j ∧ ∀ rest, g.firstMissing visited (starts ++ rest) = some j
  | .ok x => ∀ rest, g.firstMissing visited (starts ++ rest) = g.firstMissing x.visited rest

theorem Finds.error_append {e : Failure} (h : g.Finds visited starts (.error e)) :
    g.Finds visited (starts ++ starts') (.error e) := by
  obtain ⟨j, he, hj⟩ := h
  refine ⟨j, he, fun rest => ?_⟩
  rw [List.append_assoc]
  exact hj (starts' ++ rest)

theorem Finds.append {x : Emitted} {z : Except Failure Emitted} (ls : List Text)
    (h : g.Finds visited starts (.ok x)) (h' : g.Finds x.visited starts' z) :
    g.Finds visited (starts ++ starts') (z.map (.after ls)) := by
  cases z with
  | error e =>
    obtain ⟨j, he, hj⟩ := h'
    refine ⟨j, he, fun rest => ?_⟩
    rw [List.append_assoc, h (starts' ++ rest)]
    exact hj rest
  | ok y =>
    intro rest
    rw [List.append_assoc, h (starts' ++ rest)]
    exact h' rest

theorem splice_finds (g : Graph) :
    (∀ visited i x, g.splice visited i = some x → g.Finds visited [i] x) ∧
    ∀ lines position visited points x,
      g.splicePoints lines position visited points = some x →
        g.Finds visited (points.map Point.target) x := by
  apply splice_induct g
  case skipped =>
    intro visited i hi rest
    exact firstMissing_of_mem hi
  case absent =>
    intro visited i hi hr
    exact ⟨i, rfl, fun rest => firstMissing_of_absent hi hr⟩
  case entered =>
    intro visited i r x hi hr h
    cases x with
    | error e =>
      obtain ⟨j, he, hj⟩ := h
      exact ⟨j, he, fun rest => (firstMissing_of_get? hi hr).trans (hj rest)⟩
    | ok x => exact fun rest => (firstMissing_of_get? hi hr).trans (h rest)
  case nil =>
    intro lines position visited rest
    rfl
  case failed =>
    intro lines position visited p points e h
    exact h.error_append
  case next =>
    intro lines position visited p points x y h h'
    exact h.append _ h'

theorem spliceAll_finds {x : Except Failure Emitted} (h : g.spliceAll visited roots = some x) :
    g.Finds visited roots x := by
  refine spliceAll_induct g ?_ ?_ ?_ h
  · intro visited rest
    rfl
  · intro visited i is e hx
    exact ((splice_finds g).1 visited i _ hx).error_append
  · intro visited i is x y hx hy
    exact ((splice_finds g).1 visited i _ hx).append _ hy

theorem assembleFrom_eq (hk : g.keys ≠ []) (roots : List Identity) :
    (∃ i, g.firstMissing [] roots = some i ∧ g.assembleFrom roots = .error (.noRecord i)) ∨
      g.firstMissing [] roots = none ∧ ∃ t, g.assembleFrom roots = .ok t := by
  obtain ⟨x, hx, -⟩ := Assembly.emitAll_eq g [] [] roots
  have hf := spliceAll_finds hx
  rw [assembleFrom, emitted_of_spliceAll hk hx]
  cases x with
  | error e =>
    obtain ⟨i, rfl, hi⟩ := hf
    exact .inl ⟨i, by simpa using hi [], rfl⟩
  | ok x =>
    have hn : g.firstMissing x.visited [] = none := by simp [firstMissing, depthFirst]
    exact .inr ⟨by simpa [hn] using hf [], _, rfl⟩

theorem mem_keys_of_mem_roots (h : i ∈ g.roots) : i ∈ g.keys := by
  simp only [roots] at h
  split at h
  · exact List.mem_of_mem_take h
  · exact (List.mem_filter.1 h).1

theorem mem_keys_of_reachableFrom (ht : ∀ u ∈ g.targets, u ∈ g.keys)
    (hr : ∀ i ∈ roots, i ∈ g.keys) (h : g.ReachableFrom roots j) : j ∈ g.keys := by
  obtain ⟨i, hi, hj⟩ := h
  rcases ReflTransGen.cases_tail hj with rfl | ⟨k, -, r, hget, hm⟩
  · exact hr j hi
  · exact ht j (mem_targets_of_get? hget hm)

/-- A graph with files fails to assemble from given roots exactly when some identity that can be
reached from them is no key. The failure is then the first such identity, depth first in the order
of the points. From its own roots a graph whose targets are all keys is assembled. -/
theorem assembleFrom_error_iff_missing (hk : g.keys ≠ []) (roots : List Identity) :
    ((∃ i, g.assembleFrom roots = .error (.noRecord i)) ↔
        ∃ j, g.ReachableFrom roots j ∧ j ∉ g.keys) ∧
      (∀ e, g.assembleFrom roots = .error e ↔
        ∃ i, (g.depthFirst [] roots).find? (· ∉ g.keys) = some i ∧ e = .noRecord i) ∧
      ((∀ u ∈ g.targets, u ∈ g.keys) → ∃ t, g.assemble = .ok t) := by
  have herror : ∀ e, g.assembleFrom roots = .error e ↔
      ∃ i, g.firstMissing [] roots = some i ∧ e = .noRecord i := by
    intro e
    rcases assembleFrom_eq hk roots with ⟨i, hi, ha⟩ | ⟨hn, t, ha⟩
    · simp [hi, ha, eq_comm]
    · simp [hn, ha]
  refine ⟨?_, herror, ?_⟩
  · simp only [herror, Failure.noRecord.injEq, exists_eq_right', ← Option.isSome_iff_exists,
      firstMissing, List.find?_isSome, mem_depthFirst, decide_eq_true_eq]
  · intro ht
    rcases assembleFrom_eq hk g.roots with ⟨i, hi, -⟩ | ⟨-, h⟩
    · have hm : i ∈ g.depthFirst [] g.roots := List.mem_of_find?_eq_some hi
      have hn : i ∉ g.keys := by simpa using List.find?_some hi
      exact absurd (mem_keys_of_reachableFrom ht (fun _ => mem_keys_of_mem_roots)
        (mem_depthFirst.1 hm)) hn
    · exact h

def gap : Graph :=
  ⟨[(['a'], ⟨"p\nq".toList, [⟨0, ['b']⟩, ⟨1, ['x']⟩]⟩),
    (['b'], ⟨"r\ns".toList, [⟨0, ['a']⟩, ⟨1, ['y']⟩]⟩)], by decide⟩

theorem assembleFrom_gap :
    gap.keys ≠ [] ∧ gap.depthFirst [] [['a'], ['x']] = [['a'], ['b'], ['y'], ['x']] ∧
      gap.assembleFrom [['a'], ['x']] = .error (.noRecord ['y']) ∧
      (∃ j, gap.ReachableFrom [['a'], ['x']] j ∧ j ∉ gap.keys) ∧
      (∀ u ∈ tangle.targets, u ∈ tangle.keys) ∧ ∃ t, tangle.assemble = .ok t := by
  have hk : gap.keys ≠ [] := by decide
  have hd : gap.depthFirst [] [['a'], ['x']] = [['a'], ['b'], ['y'], ['x']] := by cbv
  obtain ⟨hreach, herror, -⟩ := assembleFrom_error_iff_missing hk [['a'], ['x']]
  have ha : gap.assembleFrom [['a'], ['x']] = .error (.noRecord ['y']) :=
    (herror _).2 ⟨['y'], by rw [hd]; decide, rfl⟩
  have ht : ∀ u ∈ tangle.targets, u ∈ tangle.keys := by decide
  exact ⟨hk, hd, ha, hreach.1 ⟨_, ha⟩, ht,
    (assembleFrom_error_iff_missing (g := tangle) (by decide) []).2.2 ht⟩

end Splice.Graph
