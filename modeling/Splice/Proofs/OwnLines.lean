import Mathlib.Data.List.Perm.Basic
import Mathlib.Logic.Relation
import Splice.Proofs.Splicing

/-!
What assembly keeps of the files. The own lines of a file are those that its points leave: the
slices between them and the rest behind the last. An assembly emits the own lines of every file that
can be reached from the roots, once each and in their order, whatever is spliced in between them and
in whatever order the roots are given.
-/

set_option autoImplicit false

namespace Splice

open Relation (ReflTransGen)

def ownFrom (lines : List Text) (position : Int) : List Point → List Text
  | [] => onward lines position
  | p :: points => between lines position p.line ++ ownFrom lines (p.line + 1) points

theorem mem_lines_of_mem_ownFrom {lines : List Text} {l : Text} {points : List Point} {c : Int}
    (h : l ∈ ownFrom lines c points) : l ∈ lines := by
  induction points generalizing c with
  | nil => exact List.mem_of_mem_drop h
  | cons p points ih =>
    rcases List.mem_append.1 h with h | h
    · exact List.mem_of_mem_take (List.mem_of_mem_drop h)
    · exact ih h

namespace Record

def ownLines (r : Record) : List Text := ownFrom (Text.lines r.text) 0 r.points

/-- The points ascend and stand on lines of the text. -/
structure Ordered (r : Record) : Prop where
  ascending : r.points.Pairwise fun p q => p.line < q.line
  inRange : ∀ p ∈ r.points, 0 ≤ p.line ∧ p.line < (Text.lines r.text).length

end Record

def offPoints (points : List Point) (c : Nat) (ls : List Text) : List Text :=
  ((ls.zipIdx c).filter fun q => (q.2 : Int) ∉ points.map Point.line).map Prod.fst

section OffPoints

variable {points : List Point} {ls ls' : List Text} {c k : Nat}

theorem offPoints_append :
    offPoints points c (ls ++ ls') =
      offPoints points c ls ++ offPoints points (c + ls.length) ls' := by
  simp only [offPoints, List.zipIdx_append, List.filter_append, List.map_append]

theorem offPoints_of_forall
    (h : ∀ n, c ≤ n → n < c + ls.length → (n : Int) ∉ points.map Point.line) :
    offPoints points c ls = ls := by
  have hf : (ls.zipIdx c).filter (fun q => (q.2 : Int) ∉ points.map Point.line) = ls.zipIdx c := by
    rw [List.filter_eq_self]
    intro q hq
    have hn := List.mem_zipIdx hq
    exact decide_eq_true (h q.2 (by omega) (by omega))
  rw [offPoints, hf, List.zipIdx_map_fst]

theorem offPoints_cons_point {l : Text} (h : (c : Int) ∈ points.map Point.line) :
    offPoints points c (l :: ls) = offPoints points (c + 1) ls := by
  simp only [offPoints, List.zipIdx_cons]
  rw [List.filter_cons_of_neg (by simpa using h)]

theorem offPoints_cons_of_lt {p : Point} (h : p.line < c) :
    offPoints (p :: points) c ls = offPoints points c ls := by
  have hf : ∀ q ∈ ls.zipIdx c, decide ((q.2 : Int) ∉ (p :: points).map Point.line) =
      decide ((q.2 : Int) ∉ points.map Point.line) := by
    intro q hq
    have hn := List.mem_zipIdx hq
    have hne : (q.2 : Int) ≠ p.line := by omega
    simp [hne]
  rw [offPoints, List.filter_congr hf, offPoints]

end OffPoints

theorem drop_eq_between {lines : List Text} {c k : Nat} (hk : k < lines.length) (hc : c ≤ k) :
    lines.drop c = between lines c k ++ lines[k] :: lines.drop (k + 1) := by
  rw [between_natCast, ← List.drop_eq_getElem_cons hk,
    ← List.drop_append_of_le_length (by rw [List.length_take]; omega), List.take_append_drop]

theorem ownFrom_eq_offPoints {lines : List Text} {points : List Point} {c : Nat}
    (hs : points.Pairwise fun p q => p.line < q.line)
    (hb : ∀ p ∈ points, (c : Int) ≤ p.line ∧ p.line < lines.length) :
    ownFrom lines c points = offPoints points c (lines.drop c) := by
  induction points generalizing c with
  | nil =>
    rw [ownFrom, onward_natCast, offPoints_of_forall]
    simp
  | cons p points ih =>
    rw [List.pairwise_cons] at hs
    rw [List.forall_mem_cons] at hb
    obtain ⟨⟨hc, hl⟩, hb⟩ := hb
    obtain ⟨k, hk⟩ := Int.eq_ofNat_of_zero_le (show 0 ≤ p.line by omega)
    rw [hk] at hc hl
    have hlt : k < lines.length := by omega
    have hlen : (between lines c k).length = k - c := by
      rw [between_natCast, List.length_drop, List.length_take]
      omega
    have hsplit := drop_eq_between hlt (Int.ofNat_le.1 hc)
    have hkc : c + (k - c) = k := by omega
    have hbefore : offPoints (p :: points) c (between lines c k) = between lines c k := by
      refine offPoints_of_forall fun n _ hn => ?_
      rw [hlen, hkc] at hn
      rw [List.map_cons, List.mem_cons, not_or]
      refine ⟨by omega, fun hm => ?_⟩
      obtain ⟨q, hq, he⟩ := List.mem_map.1 hm
      have := hs.1 q hq
      omega
    have hafter := ih (c := k + 1) hs.2 fun q hq => by
      have h1 := hs.1 q hq
      have h2 := hb q hq
      omega
    rw [ownFrom, hk, ← Int.natCast_succ, hafter, hsplit, offPoints_append, hbefore, hlen, hkc,
      offPoints_cons_point (by simp [hk]), offPoints_cons_of_lt (by omega)]

theorem Record.ownLines_eq_offPoints {r : Record} (h : r.Ordered) :
    r.ownLines = offPoints r.points 0 (Text.lines r.text) :=
  ownFrom_eq_offPoints h.ascending h.inRange

namespace Graph

def Targets (g : Graph) (i j : Identity) : Prop := ∃ r, g.get? i = some r ∧ j ∈ r.targets

/-- A root, or the target of a point of a file that can be reached. -/
def ReachableFrom (g : Graph) (roots : List Identity) (j : Identity) : Prop :=
  ∃ i ∈ roots, ReflTransGen g.Targets i j

def ownLines (g : Graph) (i : Identity) : List Text := ((g.get? i).map Record.ownLines).getD []

/-- What was emitted from starting points: files that were not visited before, with `own` lines of
the file that includes them. -/
structure Spliced (g : Graph) (starts visited : List Identity) (own : List Text)
    (entered : List Identity) (x : Emitted) : Prop where
  visited_eq : x.visited = entered ++ visited
  nodup : entered.Nodup
  fresh : ∀ j ∈ entered, j ∉ visited
  perm : x.lines.Perm (own ++ entered.flatMap g.ownLines)
  own_sublist : own.Sublist x.lines
  sublist : ∀ j ∈ entered, (g.ownLines j).Sublist x.lines
  present : ∀ j ∈ entered, j ∈ g.keys
  reached : ∀ j ∈ entered, g.ReachableFrom starts j
  starts_mem : ∀ i ∈ starts, i ∈ x.visited
  closed : ∀ j ∈ entered, ∀ k, g.Targets j k → k ∈ x.visited

def SplicedResult (g : Graph) (starts visited : List Identity) (own : List Text) :
    Except Failure Emitted → Prop
  | .error e => ∃ j, g.ReachableFrom starts j ∧ g.get? j = none ∧ e = .noRecord j
  | .ok x => ∃ entered, g.Spliced starts visited own entered x

variable {g : Graph} {i j : Identity} {roots starts starts' visited : List Identity} {r : Record}
  {own own' : List Text} {entered entered' : List Identity} {x y : Emitted}

theorem ReachableFrom.mono (h : g.ReachableFrom starts j) (hs : ∀ i ∈ starts, i ∈ starts') :
    g.ReachableFrom starts' j := by
  obtain ⟨i, hi, hj⟩ := h
  exact ⟨i, hs i hi, hj⟩

theorem ReachableFrom.of_targets (hr : g.get? i = some r) (h : g.ReachableFrom r.targets j) :
    g.ReachableFrom [i] j := by
  obtain ⟨k, hk, hj⟩ := h
  exact ⟨i, List.mem_singleton.2 rfl, .head ⟨r, hr, hk⟩ hj⟩

theorem ownLines_of_get? (hr : g.get? i = some r) : g.ownLines i = r.ownLines := by
  rw [ownLines, hr]
  rfl

namespace Spliced

theorem skip (h : ∀ i ∈ starts, i ∈ visited) : g.Spliced starts visited [] [] ⟨visited, []⟩ where
  visited_eq := rfl
  nodup := .nil
  fresh := by simp
  perm := .nil
  own_sublist := .slnil
  sublist := by simp
  present := by simp
  reached := by simp
  starts_mem := h
  closed := by simp

theorem rest (own : List Text) : g.Spliced [] visited own [] ⟨visited, own⟩ where
  visited_eq := rfl
  nodup := .nil
  fresh := by simp
  perm := by simp
  own_sublist := .refl own
  sublist := by simp
  present := by simp
  reached := by simp
  starts_mem := by simp
  closed := by simp

theorem enter (hr : g.get? i = some r) (hi : i ∉ visited)
    (h : g.Spliced r.targets (i :: visited) r.ownLines entered x) :
    g.Spliced [i] visited [] (entered ++ [i]) x where
  visited_eq := by simp [h.visited_eq]
  nodup := by
    rw [List.nodup_append]
    refine ⟨h.nodup, by simp, ?_⟩
    rintro j hj k hk rfl
    rw [List.mem_singleton] at hk
    exact h.fresh j hj (hk ▸ List.mem_cons_self)
  fresh := by
    intro j hj hv
    rcases List.mem_append.1 hj with hj | hj
    · exact h.fresh j hj (List.mem_cons_of_mem _ hv)
    · exact hi (List.mem_singleton.1 hj ▸ hv)
  perm := by
    have hp := h.perm.trans List.perm_append_comm
    simpa [ownLines_of_get? hr] using hp
  own_sublist := List.nil_sublist _
  sublist := by
    intro j hj
    rcases List.mem_append.1 hj with hj | hj
    · exact h.sublist j hj
    · rw [List.mem_singleton.1 hj, ownLines_of_get? hr]
      exact h.own_sublist
  present := by
    intro j hj
    rcases List.mem_append.1 hj with hj | hj
    · exact h.present j hj
    · exact List.mem_singleton.1 hj ▸ mem_keys_of_get? hr
  reached := by
    intro j hj
    rcases List.mem_append.1 hj with hj | hj
    · exact .of_targets hr (h.reached j hj)
    · exact ⟨i, List.mem_singleton.2 rfl, List.mem_singleton.1 hj ▸ .refl⟩
  starts_mem := by simp [h.visited_eq]
  closed := by
    intro j hj k hk
    rcases List.mem_append.1 hj with hj | hj
    · exact h.closed j hj k hk
    · obtain ⟨r', hr', hk⟩ := hk
      rw [List.mem_singleton.1 hj, hr] at hr'
      cases hr'
      exact h.starts_mem k hk

theorem append (before : List Text) (h : g.Spliced starts visited [] entered x)
    (h' : g.Spliced starts' x.visited own entered' y) :
    g.Spliced (starts ++ starts') visited (before ++ own) (entered' ++ entered)
      (y.after (before ++ x.lines)) where
  visited_eq := by simp [h.visited_eq, h'.visited_eq]
  nodup := by
    rw [List.nodup_append]
    refine ⟨h'.nodup, h.nodup, ?_⟩
    rintro j hj k hk rfl
    exact h'.fresh j hj (by rw [h.visited_eq]; exact List.mem_append_left _ hk)
  fresh := by
    intro j hj hv
    rcases List.mem_append.1 hj with hj | hj
    · exact h'.fresh j hj (by rw [h.visited_eq]; exact List.mem_append_right _ hv)
    · exact h.fresh j hj hv
  perm := by
    have hx : x.lines.Perm (entered.flatMap g.ownLines) := h.perm
    have hxy : (x.lines ++ y.lines).Perm
        (own ++ (entered'.flatMap g.ownLines ++ entered.flatMap g.ownLines)) := by
      have := (h'.perm.append hx)
      rw [List.append_assoc] at this
      exact List.perm_append_comm.trans this
    simpa [List.append_assoc] using hxy.append_left before
  own_sublist := by
    simp only [Emitted.lines_after, List.append_assoc]
    exact (List.Sublist.refl before).append
      (h'.own_sublist.trans (List.sublist_append_right _ _))
  sublist := by
    intro j hj
    simp only [Emitted.lines_after, List.append_assoc]
    refine List.Sublist.trans ?_ (List.sublist_append_right before _)
    rcases List.mem_append.1 hj with hj | hj
    · exact (h'.sublist j hj).trans (List.sublist_append_right _ _)
    · exact (h.sublist j hj).trans (List.sublist_append_left _ _)
  present := by
    intro j hj
    rcases List.mem_append.1 hj with hj | hj
    · exact h'.present j hj
    · exact h.present j hj
  reached := by
    intro j hj
    rcases List.mem_append.1 hj with hj | hj
    · exact (h'.reached j hj).mono fun _ => List.mem_append_right _
    · exact (h.reached j hj).mono fun _ => List.mem_append_left _
  starts_mem := by
    intro i hi
    rw [Emitted.visited_after]
    rcases List.mem_append.1 hi with hi | hi
    · rw [h'.visited_eq]
      exact List.mem_append_right _ (h.starts_mem i hi)
    · exact h'.starts_mem i hi
  closed := by
    intro j hj k hk
    rw [Emitted.visited_after]
    rcases List.mem_append.1 hj with hj | hj
    · exact h'.closed j hj k hk
    · rw [h'.visited_eq]
      exact List.mem_append_right _ (h.closed j hj k hk)

end Spliced

theorem SplicedResult.append {z : Except Failure Emitted} (before : List Text)
    (h : g.SplicedResult starts visited [] (.ok x))
    (h' : g.SplicedResult starts' x.visited own z) :
    g.SplicedResult (starts ++ starts') visited (before ++ own)
      (z.map (.after (before ++ x.lines))) := by
  cases z with
  | error e =>
    obtain ⟨j, hj, hn, he⟩ := h'
    exact ⟨j, hj.mono fun _ => List.mem_append_right _, hn, he⟩
  | ok y =>
    obtain ⟨entered, h⟩ := h
    obtain ⟨entered', h'⟩ := h'
    exact ⟨_, h.append before h'⟩

theorem SplicedResult.error_mono {e : Failure} {own' : List Text}
    (h : g.SplicedResult starts visited own (.error e)) (hs : ∀ i ∈ starts, i ∈ starts') :
    g.SplicedResult starts' visited own' (.error e) := by
  obtain ⟨j, hj, hn, he⟩ := h
  exact ⟨j, hj.mono hs, hn, he⟩

theorem splice_spec (g : Graph) :
    (∀ visited i x, g.splice visited i = some x → g.SplicedResult [i] visited [] x) ∧
    ∀ lines position visited points x,
      g.splicePoints lines position visited points = some x →
        g.SplicedResult (points.map Point.target) visited (ownFrom lines position points) x := by
  apply splice_induct g
  case skipped =>
    intro visited i hi
    exact ⟨[], .skip (by simpa using hi)⟩
  case absent =>
    intro visited i _ hr
    exact ⟨i, ⟨i, List.mem_singleton.2 rfl, .refl⟩, hr, rfl⟩
  case entered =>
    intro visited i r x hi hr h
    cases x with
    | error e =>
      obtain ⟨j, hj, hn, he⟩ := h
      exact ⟨j, .of_targets hr hj, hn, he⟩
    | ok x =>
      obtain ⟨entered, h⟩ := h
      exact ⟨_, .enter hr hi h⟩
  case nil =>
    intro lines position visited
    exact ⟨[], .rest _⟩
  case failed =>
    intro lines position visited p points e h
    exact h.error_mono fun i hi => List.mem_cons.2 (.inl (List.mem_singleton.1 hi))
  case next =>
    intro lines position visited p points x y h h'
    exact h.append _ h'

theorem spliceAll_spec (visited : List Identity) {z : Except Failure Emitted}
    (h : g.spliceAll visited roots = some z) : g.SplicedResult roots visited [] z := by
  refine spliceAll_induct g (R := fun visited roots z => g.SplicedResult roots visited [] z)
    ?_ ?_ ?_ h
  · intro visited
    exact ⟨[], .rest []⟩
  · intro visited i is e hx
    have hs := (splice_spec g).1 visited i _ hx
    exact hs.error_mono fun j hj => List.mem_cons.2 (.inl (List.mem_singleton.1 hj))
  · intro visited i is x y hx hy
    have hs := (splice_spec g).1 visited i _ hx
    exact hs.append [] hy

theorem Spliced.mem_entered (h : g.Spliced roots [] [] entered x) :
    j ∈ entered ↔ g.ReachableFrom roots j := by
  have hv : x.visited = entered := by simpa using h.visited_eq
  refine ⟨h.reached j, ?_⟩
  rintro ⟨i, hi, hj⟩
  induction hj with
  | refl => exact hv ▸ h.starts_mem i hi
  | tail _ hk ih => exact hv ▸ h.closed _ ih _ hk

theorem emitted_result (hk : g.keys ≠ []) (roots : List Identity) :
    ∃ z, g.SplicedResult roots [] [] z ∧ g.emitted roots = z.map Emitted.lines := by
  obtain ⟨z, hz, -⟩ := Assembly.emitAll_eq g [] [] roots
  exact ⟨z, spliceAll_spec [] hz, emitted_of_spliceAll hk hz⟩

theorem spliced_of_emitted {ls : List Text} (h : g.emitted roots = .ok ls) :
    g.keys ≠ [] ∧ ∃ entered x, g.Spliced roots [] [] entered x ∧ x.lines = ls := by
  have hk : g.keys ≠ [] := by
    intro hk
    rw [emitted, if_pos hk] at h
    cases h
  obtain ⟨z, hz, he⟩ := emitted_result hk roots
  rw [h] at he
  cases z with
  | error e => cases he
  | ok x =>
    obtain ⟨entered, hs⟩ := hz
    exact ⟨hk, entered, x, hs, (Except.ok.inj he).symm⟩

theorem mem_assembleFrom {t : Text} {c : Char}
    (h : g.assembleFrom roots = .ok t) (hc : c ∈ t) :
    c = '\n' ∨ ∃ i r, g.get? i = some r ∧ c ∈ r.text := by
  unfold assembleFrom at h
  split at h
  · cases h
  rename_i ls hls
  cases h
  obtain ⟨-, entered, x, hs, rfl⟩ := spliced_of_emitted hls
  rcases Text.mem_join hc with hc | ⟨l, hl, hc⟩
  · exact .inl (List.mem_singleton.1 hc)
  obtain ⟨i, hi, hown⟩ : ∃ i ∈ entered, l ∈ g.ownLines i := by
    simpa only [List.nil_append, List.mem_flatMap] using hs.perm.subset hl
  obtain ⟨r, hr⟩ := Keyed.exists_get?_of_mem (hs.present i hi)
  have hr : g.get? i = some r := hr
  rw [ownLines_of_get? hr] at hown
  exact .inr ⟨i, r, hr, Text.mem_of_mem_lines (mem_lines_of_mem_ownFrom hown) hc⟩

/-- No line is lost and none is doubled. What is emitted is, up to the order, the own lines of the
files that can be reached, each file once; the own lines of a file stay in their order, and where
its points are ordered they are the lines that no point stands on. Other roots from which the same
files can be reached emit the same lines up to their order. -/
theorem emitted_perm_ownLines {ls : List Text} (h : g.emitted roots = .ok ls) :
    (∃ ids : List Identity, ids.Nodup ∧ (∀ j, j ∈ ids ↔ g.ReachableFrom roots j) ∧
      ls.Perm (ids.flatMap g.ownLines)) ∧
    (∀ j, g.ReachableFrom roots j →
      ∃ r, g.get? j = some r ∧ g.ownLines j = r.ownLines ∧ r.ownLines.Sublist ls) ∧
    (∀ r : Record, r.Ordered → r.ownLines = offPoints r.points 0 (Text.lines r.text)) ∧
    ∀ roots', (∀ j, g.ReachableFrom roots' j ↔ g.ReachableFrom roots j) →
      ∃ ls', g.emitted roots' = .ok ls' ∧ ls'.Perm ls := by
  obtain ⟨hk, entered, x, hs, rfl⟩ := spliced_of_emitted h
  have hrec : ∀ j, g.ReachableFrom roots j → ∃ r, g.get? j = some r := by
    intro j hj
    exact Keyed.exists_get?_of_mem (hs.present j (hs.mem_entered.2 hj))
  refine ⟨⟨entered, hs.nodup, fun j => hs.mem_entered, hs.perm⟩, ?_, ?_, ?_⟩
  · intro j hj
    obtain ⟨r, hr⟩ := hrec j hj
    refine ⟨r, hr, ownLines_of_get? hr, ?_⟩
    rw [← ownLines_of_get? hr]
    exact hs.sublist j (hs.mem_entered.2 hj)
  · intro r hr
    exact r.ownLines_eq_offPoints hr
  · intro roots' hr
    obtain ⟨z, hz, he⟩ := emitted_result hk roots'
    cases z with
    | error e =>
      obtain ⟨j, hj, hn, -⟩ := hz
      obtain ⟨r, hget⟩ := hrec j ((hr j).1 hj)
      cases hn.symm.trans hget
    | ok y =>
      obtain ⟨entered', hs'⟩ := hz
      have hp : entered'.Perm entered := by
        rw [List.perm_ext_iff_of_nodup hs'.nodup hs.nodup]
        intro j
        rw [hs'.mem_entered, hs.mem_entered, hr]
      exact ⟨y.lines, he, hs'.perm.trans ((hp.flatMap_right _).trans hs.perm.symm)⟩

def tangle : Graph :=
  ⟨[(['a'], ⟨"x\ny\nz".toList, [⟨1, ['b']⟩, ⟨-1, ['a']⟩]⟩),
    (['b'], ⟨"p\nq".toList, [⟨0, ['a']⟩]⟩)], by decide⟩

theorem emitted_tangle :
    tangle.emitted [['b'], ['a'], ['b']] = .ok [['x'], ['x'], ['y'], ['z'], ['q']] := by
  have hk : tangle.keys ≠ [] := by decide
  have ha : tangle.get? ['a'] = some ⟨"x\ny\nz".toList, [⟨1, ['b']⟩, ⟨-1, ['a']⟩]⟩ := rfl
  have hb : tangle.get? ['b'] = some ⟨"p\nq".toList, [⟨0, ['a']⟩]⟩ := rfl
  have hla : Text.lines "x\ny\nz".toList = [['x'], ['y'], ['z']] := by decide
  have hlb : Text.lines "p\nq".toList = [['p'], ['q']] := by decide
  have hinside : tangle.splice [['b']] ['a'] =
      some (.ok ⟨[['a'], ['b']], [['x'], ['x'], ['y'], ['z']]⟩) := by
    rw [splice_of_get? (by decide) ha, hla]
    simp [splicePoints_cons, splicePoints_nil, splice_of_mem, between, onward, clamp,
      Emitted.after, Except.map]
  have hfirst : tangle.splice [] ['b'] =
      some (.ok ⟨[['a'], ['b']], [['x'], ['x'], ['y'], ['z'], ['q']]⟩) := by
    rw [splice_of_get? (by decide) hb, hlb]
    simp [splicePoints_cons, splicePoints_nil, hinside, between, onward, clamp, Emitted.after,
      Except.map]
  refine (emitted_of_spliceAll hk (x := .ok ⟨[['a'], ['b']], _⟩) ?_).trans rfl
  simp [spliceAll, hfirst, splice_of_mem, Emitted.after, Except.map]

theorem emitted_tangle_perm :
    tangle.emitted [['b'], ['a'], ['b']] = .ok [['x'], ['x'], ['y'], ['z'], ['q']] ∧
    (∃ ids : List Identity, ids.Nodup ∧
      (∀ j, j ∈ ids ↔ tangle.ReachableFrom [['b'], ['a'], ['b']] j) ∧
      List.Perm [['x'], ['x'], ['y'], ['z'], ['q']] (ids.flatMap tangle.ownLines)) :=
  ⟨emitted_tangle, (emitted_perm_ownLines emitted_tangle).1⟩

end Graph
end Splice
