import Splice.Proofs.Expansion

set_option autoImplicit false

namespace Splice

namespace Text

def withReturns (t : Text) : Text := t.flatMap fun c => if c = '\n' then ['\r', '\n'] else [c]

/-- The second text is the first, or the first with other line ends: with a carriage return before
every line feed if it had no carriage returns, or with a line feed at the end if it had none
there. -/
inductive Respelled : Text → Text → Prop
  | same (t : Text) : Respelled t t
  | returns {t : Text} : '\r' ∉ t → Respelled t (withReturns t)
  | ended {t : Text} : t ≠ [] → t.getLast? ≠ some '\n' → Respelled t (t ++ ['\n'])

variable {t u : Text}

theorem lines_withReturns (h : '\r' ∉ t) : lines (withReturns t) = lines t := by
  induction t with
  | nil => rfl
  | cons c t ih =>
    rw [List.mem_cons, not_or] at h
    have ih := ih h.2
    by_cases hn : c = '\n'
    · subst hn
      have hw : withReturns ('\n' :: t) = '\r' :: '\n' :: withReturns t := rfl
      have hl : lines ('\r' :: '\n' :: withReturns t) = [] :: lines (withReturns t) := rfl
      rw [hw, hl, ih, lines_newline]
    · have hw : withReturns (c :: t) = c :: withReturns t := by simp [withReturns, hn]
      rw [hw, lines_cons hn (Ne.symm h.1), lines_cons hn (Ne.symm h.1), ih]

theorem rawLines_concat (hne : t ≠ []) (h : t.getLast? ≠ some '\n') :
    rawLines (t ++ ['\n']) = rawLines t := by
  induction t with
  | nil => exact absurd rfl hne
  | cons c t ih =>
    cases t with
    | nil =>
      have hc : c ≠ '\n' := by simpa using h
      simp [rawLines, hc, extend]
    | cons d t =>
      have ih := ih (by simp) (by simpa using h)
      rw [List.cons_append, rawLines, rawLines, ih]

theorem Respelled.lines_eq (h : Respelled t u) : lines t = lines u := by
  cases h with
  | same => rfl
  | returns hr => rw [lines_withReturns hr]
  | ended hne hl => rw [lines, lines, rawLines_concat hne hl]

end Text

namespace Bundle

def SameLines (b b' : Bundle) : Prop :=
  ∀ i, (b.content? i).map Text.lines = (b'.content? i).map Text.lines

def Respelled (b b' : Bundle) : Prop :=
  ∀ i, Option.Rel Text.Respelled (b.content? i) (b'.content? i)

theorem Respelled.sameLines {b b' : Bundle} (h : b.Respelled b') : b.SameLines b' := by
  intro i
  have hi := h i
  generalize b.content? i = x, b'.content? i = y at hi ⊢
  cases hi with
  | none => rfl
  | some hr => simp [hr.lines_eq]

/-- Two results of a build that have the same failure, or differ at most in the texts of records. -/
inductive Alike : Except Failure Built → Except Failure Built → Prop
  | failed (e : Failure) : Alike (.error e) (.error e)
  | built {x y : Built} {t : Text} : x.seed = y.seed → x.graph.keys = y.graph.keys →
    (∀ j, (x.graph.get? j).map Record.points = (y.graph.get? j).map Record.points) →
    x.graph.assemble = .ok t → y.graph.assemble = .ok t → Alike (.ok x) (.ok y)

variable {b b' : Bundle} {m : Marker} {seed : Reference} {i j : Identity} {built built' : Built}

theorem expand_of_run (hi : b.resolve seed = some i) :
    ∃ y, b.expand m [] i = some y ∧
      y.map Emitted.visited =
        ((b.search m).run seed).result.map fun x => x.graph.keys.reverse := by
  have hi' := resolve_eq_ok (m := m).2 hi
  cases h : ((b.search m).run seed).result with
  | ok built =>
    obtain ⟨hr, hv⟩ := Search.visit_of_run_ok h
    cases hi'.symm.trans hr
    exact (expand_of_visit b m).1 _ _ _ _ hv
  | error e =>
    rcases Search.visit_of_run_error h with hr | ⟨hr, -⟩ | ⟨k, hr, hv⟩
    · cases hi'.symm.trans hr
    · cases hi'.symm.trans hr
    · cases hi'.symm.trans hr
      exact (expand_of_visit b m).1 _ _ _ _ hv

theorem run_of_unresolved (hr : b.resolve seed = none) :
    ((b.search m).run seed).result = .error (.notFound seed) := by
  have hr' : (b.search m).source.resolve seed = .ok none := congrArg Except.ok hr
  rw [Search.run, hr']

namespace SameLines

variable (h : b.SameLines b')

include h

theorem linesOf_eq (i : Identity) : b.linesOf i = b'.linesOf i := by
  have hl : ∀ x : Option Text, Text.lines (x.getD []) = (x.map Text.lines).getD [] := by
    intro x
    cases x <;> rfl
  rw [linesOf, linesOf, hl, hl, h i]

theorem mem_names : i ∈ b.names ↔ i ∈ b'.names := by
  have hn : ∀ b : Bundle, i ∉ b.names ↔ (b.content? i).map Text.lines = none := by
    intro b
    rw [Option.map_eq_none_iff]
    exact Keyed.get?_eq_none_iff.symm
  exact not_iff_not.1 (by rw [hn, hn, h i])

theorem resolve_eq (r : Reference) : b.resolve r = b'.resolve r := by
  have ht : b.target r = b'.target r := by
    cases r with
    | searched name => rfl
    | relative name parent => simp only [target, base, h.mem_names]
  simp only [resolve, ht, h.mem_names]

theorem expand_eq :
    (∀ visited i x, b.expand m visited i = some x → b'.expand m visited i = some x) ∧
    ∀ i included visited ls x, b.expandLines m i included visited ls = some x →
      b'.expandLines m i included visited ls = some x := by
  apply expand_induct b m
  case malformed =>
    intro visited i n message hf
    rw [h.linesOf_eq] at hf
    rw [expand, hf]
  case opened =>
    intro visited i x hf hx
    rw [h.linesOf_eq] at hf hx
    rw [expand, hf]
    exact hx
  case nil =>
    intro i included visited
    exact expandLines_nil
  case plain =>
    intro i included visited l ls y hl hy
    have hp : b'.expandLines m i included visited ([l] ++ ls) = _ :=
      expandLines_plain (by simpa using hl)
    rw [hy] at hp
    exact hp
  case lost =>
    intro i included visited l ls d hd hr
    rw [h.resolve_eq] at hr
    exact expandLines_lost hd hr
  case repeated =>
    intro i included visited l ls d u y hd hr hu hy
    rw [h.resolve_eq] at hr
    rw [expandLines_repeated hd hr hu, hy]
    rfl
  case known =>
    intro i included visited l ls d u x hd hr hu hv hx
    rw [h.resolve_eq] at hr
    rw [expandLines_first hd hr hu, expandNew, if_pos hv]
    simp only [Option.bind_some, hx, Option.map_some, map_after_nil]
  case failed =>
    intro i included visited l ls d u e hd hr hu hv hx
    rw [h.resolve_eq] at hr
    rw [expandLines_first hd hr hu, expandNew, if_neg hv, hx]
    rfl
  case first =>
    intro i included visited l ls d u x y hd hr hu hv hx hy
    rw [h.resolve_eq] at hr
    rw [expandLines_first hd hr hu, expandNew, if_neg hv, hx]
    simp only [Option.bind_some, hy, Option.map_some]

theorem firstPoints_eq (i : Identity) (seen : List Identity) (ds : List (Nat × Include)) :
    (b.search m).firstPoints i seen ds = (b'.search m).firstPoints i seen ds := by
  have hr : ∀ r, (b.search m).source.resolve r = (b'.search m).source.resolve r :=
    fun r => congrArg Except.ok (h.resolve_eq r)
  induction ds generalizing seen with
  | nil => rfl
  | cons p ds ih => simp only [Search.firstPoints, hr, ih]

theorem points_eq (hb : ((b.search m).run seed).result = .ok built)
    (hb' : ((b'.search m).run seed).result = .ok built')
    (hk : built.graph.keys = built'.graph.keys) (j : Identity) :
    (built.graph.get? j).map Record.points = (built'.graph.get? j).map Record.points := by
  by_cases hj : j ∈ built.graph.keys
  · obtain ⟨t, ds, ho, -, hr⟩ := settled_of_mem_keys hb hj
    obtain ⟨t', ds', ho', -, hr'⟩ := settled_of_mem_keys hb' (hk ▸ hj)
    obtain ⟨-, -, rfl⟩ := opens_iff.1 ho
    obtain ⟨-, -, rfl⟩ := opens_iff.1 ho'
    rw [hr, hr', Option.map_some, Option.map_some, h.linesOf_eq, h.firstPoints_eq]
  · have hj' : j ∉ built'.graph.keys := hk ▸ hj
    have hn : built.graph.get? j = none := Keyed.get?_eq_none_iff.2 hj
    have hn' : built'.graph.get? j = none := Keyed.get?_eq_none_iff.2 hj'
    rw [hn, hn']

theorem alike_built (hb : ((b.search m).run seed).result = .ok built)
    (hb' : ((b'.search m).run seed).result = .ok built')
    (hk : built.graph.keys = built'.graph.keys) : Alike (.ok built) (.ok built') := by
  obtain ⟨hr, -⟩ := Search.visit_of_run_ok hb
  obtain ⟨hr', -⟩ := Search.visit_of_run_ok hb'
  have hseed : built.seed = built'.seed := by
    rw [resolve_eq_ok] at hr hr'
    exact Option.some.inj (hr.symm.trans ((h.resolve_eq seed).trans hr'))
  obtain ⟨x, hx, ha⟩ := assemble_roots hb
  obtain ⟨x', hx', ha'⟩ := assemble_roots hb'
  rw [← hseed] at hx'
  cases hx'.symm.trans (h.expand_eq.1 [] _ _ hx)
  exact .built hseed hk (h.points_eq hb hb' hk) ha ha'

theorem alike (m : Marker) (seed : Reference) :
    Alike ((b.search m).run seed).result ((b'.search m).run seed).result := by
  have hs := h.resolve_eq seed
  cases hi : b.resolve seed with
  | none =>
    rw [run_of_unresolved hi, run_of_unresolved (hs.symm.trans hi)]
    exact .failed _
  | some i =>
    -- Both builds meet the files that the one expansion meets.
    obtain ⟨y, hy, hv⟩ := expand_of_run (m := m) hi
    obtain ⟨y', hy', hv'⟩ := expand_of_run (m := m) (hs.symm.trans hi)
    cases hy'.symm.trans (h.expand_eq.1 [] i y hy)
    replace hv := hv.symm.trans hv'
    cases hb : ((b.search m).run seed).result with
    | error e =>
      cases hb' : ((b'.search m).run seed).result with
      | error e' =>
        rw [hb, hb'] at hv
        cases hv
        exact .failed e
      | ok built' =>
        rw [hb, hb'] at hv
        cases hv
    | ok built =>
      cases hb' : ((b'.search m).run seed).result with
      | error e' =>
        rw [hb, hb'] at hv
        cases hv
      | ok built' =>
        rw [hb, hb'] at hv
        exact h.alike_built hb hb' (List.reverse_inj.1 (Except.ok.inj hv))

end SameLines

/-- A build depends on the lines of files and on nothing else of their texts. Bundles with the same
names and, file by file, the same lines give results that are alike: the same failure, or the same
seed, order of files, points and assembled text. So do bundles that differ in line ends only. -/
theorem run_alike_of_same_lines (b b' : Bundle) (m : Marker) (seed : Reference) :
    (b.SameLines b' → Alike ((b.search m).run seed).result ((b'.search m).run seed).result) ∧
      (b.Respelled b' →
        Alike ((b.search m).run seed).result ((b'.search m).run seed).result) :=
  ⟨fun h => h.alike m seed, fun h => h.sameLines.alike m seed⟩

def respelledRing : Bundle :=
  .ofList [(['a'], "x\r\n//&include <b>\r\n//&include <b>".toList),
    (['b'], "//&include \"a\"\n//&include <b>\ny\n".toList)]

theorem respelled_ring : ring.Respelled respelledRing := by
  have ha : ring.content? ['a'] = some "x\n//&include <b>\n//&include <b>".toList := rfl
  have hb : ring.content? ['b'] = some "//&include \"a\"\n//&include <b>\ny".toList := rfl
  intro i
  by_cases hia : i = ['a']
  · subst hia
    rw [ha]
    exact .some (.returns (by decide))
  by_cases hib : i = ['b']
  · subst hib
    rw [hb]
    exact .some (.ended (by decide) (by decide))
  have hn : i ∉ ring.names := by
    have hk : ring.names = [['a'], ['b']] := rfl
    simp [hk, hia, hib]
  have hn' : i ∉ respelledRing.names := by
    have hk : respelledRing.names = [['a'], ['b']] := rfl
    simp [hk, hia, hib]
  have hc : ring.content? i = none := Keyed.get?_eq_none_iff.2 hn
  have hc' : respelledRing.content? i = none := Keyed.get?_eq_none_iff.2 hn'
  rw [hc, hc']
  exact .none

theorem run_respelledRing_alike :
    ring.SameLines respelledRing ∧ ring.Respelled respelledRing ∧
      Alike ((ring.search .default).run (.searched ['a'])).result
        ((respelledRing.search .default).run (.searched ['a'])).result :=
  ⟨respelled_ring.sameLines, respelled_ring,
    (run_alike_of_same_lines ring respelledRing .default (.searched ['a'])).2 respelled_ring⟩

end Bundle
end Splice
