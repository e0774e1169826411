import Mathlib.Algebra.GroupWithZero.Nat
import Splice.Proofs.Grammar
import Splice.Proofs.LineEnds
import Splice.Proofs.Merging
import Splice.Proofs.StoredNames

/-!
Reading an assembled text again. Every point stands on a directive, so of the directives of a file
assembly leaves those that repeat a target, and nothing else becomes one: when the emitted lines are
joined and split again, a carriage return may be lost at the end of a line and an empty line at the
end of the text, and neither changes what a line is. A text without repeated targets is flat: a
build of it alone finds nothing to include.
-/

set_option autoImplicit false

namespace Splice

def Marker.isInclude (m : Marker) (l : Text) : Bool := (m.read l).directive?.isSome

section Reading

variable {m : Marker} {l : Text} {ls : List Text}

namespace Marker

theorem read_nil (m : Marker) : m.read [] = .plain := by
  rw [read_eq_plain, List.prefix_nil]
  simp

theorem isInclude_iff : m.isInclude l = true ↔ ∃ d, m.read l = .inclusion d := by
  rw [isInclude, Option.isSome_iff_exists]
  simp only [Reading.directive?_eq_some]

theorem Writes.dropReturn {d : Include} (h : m.Writes d l) : m.Writes d (Text.dropReturn l) := by
  obtain ⟨w₁, w₂, w₃, hw₁, hw₂, hw₃, rfl⟩ := h
  rcases List.eq_nil_or_concat w₃ with rfl | ⟨w, c, rfl⟩
  · have hc : d.kind.closing ≠ '\r' := by cases d.kind <;> decide
    refine ⟨w₁, w₂, [], hw₁, hw₂, hw₃, ?_⟩
    simp only [Include.delimited, List.append_nil]
    rw [← List.cons_append, ← List.append_assoc, Text.dropReturn_concat, if_neg hc]
  · rw [List.concat_eq_append] at hw₃ ⊢
    rw [← List.append_assoc, Text.dropReturn_concat]
    split
    · exact ⟨w₁, w₂, w, hw₁, hw₂, fun a ha => hw₃ a (List.mem_append_left _ ha), rfl⟩
    · exact ⟨w₁, w₂, w ++ [c], hw₁, hw₂, hw₃, by simp only [List.append_assoc]⟩

theorem read_dropReturn (h : ∀ message, m.read l ≠ .malformed message) :
    m.read (Text.dropReturn l) = m.read l := by
  cases hl : m.read l with
  | plain =>
    rw [read_eq_plain] at hl ⊢
    exact fun hp => hl (hp.trans (Text.isPrefix_dropReturn l))
  | inclusion d =>
    rw [read_eq_inclusion] at hl ⊢
    exact hl.dropReturn
  | malformed message => exact absurd hl (h message)

end Marker

section Joined

variable (hn : ∀ l ∈ ls, '\n' ∉ l) (hw : ∀ l ∈ ls, ∀ message, m.read l ≠ .malformed message)

include hn hw

theorem read_of_mem_lines_unlines (h : l ∈ Text.lines (Text.unlines ls)) :
    ∃ l' ∈ ls, m.read l = m.read l' := by
  obtain ⟨l', hl', rfl⟩ := List.mem_map.1 h
  have hm : l' ∈ ls := by
    rcases Text.rawLines_unlines hn with he | he
    · exact he ▸ hl'
    · exact he ▸ List.mem_append_left _ hl'
  exact ⟨l', hm, Marker.read_dropReturn (hw l' hm)⟩

theorem countP_lines_unlines :
    (Text.lines (Text.unlines ls)).countP m.isInclude = ls.countP m.isInclude := by
  have hmap : ∀ rs : List Text, (∀ l ∈ rs, l ∈ ls) →
      (rs.map Text.dropReturn).countP m.isInclude = rs.countP m.isInclude := by
    intro rs hrs
    rw [List.countP_map]
    refine List.countP_congr fun l hl => ?_
    simp only [Function.comp_apply, Marker.isInclude, Marker.read_dropReturn (hw l (hrs l hl))]
  rcases Text.rawLines_unlines hn with he | he
  · rw [Text.lines, he]
    exact hmap ls fun _ hl => hl
  · have hlast : m.isInclude [] = false := by
      simp [Marker.isInclude, m.read_nil, Reading.directive?]
    rw [Text.lines, hmap _ fun l hl => he ▸ List.mem_append_left _ hl]
    conv_rhs => rw [← he]
    simp [hlast]

end Joined

theorem directives_eq_nil {read : Text → Reading} {k : Nat}
    (h : ∀ l ∈ ls, (read l).directive? = none) : directives read k ls = [] := by
  rw [directives, List.filterMap_eq_nil_iff]
  intro p hp
  rw [h p.1 (List.fst_mem_of_mem_zipIdx hp), Option.map_none]

end Reading

section Counting

variable {P : Text → Bool} {lines : List Text} {points : List Point} {c : Nat}

theorem countP_ownFrom (hs : points.Pairwise fun p q => p.line < q.line)
    (hp : ∀ p ∈ points, ∃ n : Nat, p.line = n ∧ c ≤ n ∧ ∃ l, lines[n]? = some l ∧ P l = true) :
    (lines.drop c).countP P = (ownFrom lines c points).countP P + points.length := by
  induction points generalizing c with
  | nil => simp [ownFrom, onward_natCast]
  | cons p points ih =>
    rw [List.pairwise_cons] at hs
    rw [List.forall_mem_cons] at hp
    obtain ⟨⟨k, hk, hc, l, hl, hP⟩, hp⟩ := hp
    obtain ⟨hlt, rfl⟩ := List.getElem?_eq_some_iff.1 hl
    have hrest := ih (c := k + 1) hs.2 fun q hq => by
      obtain ⟨n, hn, -, hl⟩ := hp q hq
      have := hs.1 q hq
      exact ⟨n, hn, by omega, hl⟩
    rw [drop_eq_between hlt hc, ownFrom, hk, ← Int.natCast_succ, Nat.succ_eq_add_one,
      List.countP_append, List.countP_append, List.countP_cons_of_pos hP, hrest, List.length_cons]
    omega

theorem mem_offPoints {l : Text} (h : l ∈ offPoints points 0 lines) :
    ∃ n : Nat, lines[n]? = some l ∧ (n : Int) ∉ points.map Point.line := by
  obtain ⟨⟨l', n⟩, hq, rfl⟩ := List.mem_map.1 h
  obtain ⟨hz, hn⟩ := List.mem_filter.1 hq
  exact ⟨n, List.mk_mem_zipIdx_iff_getElem?.1 hz, by simpa using hn⟩

end Counting

namespace Bundle

variable {b : Bundle} {m : Marker} {seed : Reference} {built : Built} {i j : Identity} {r : Record}

def IncludesOnce (b : Bundle) (m : Marker) (i : Identity) : Prop :=
  ∀ u n k, b.IncludesAt m i n u → b.IncludesAt m i k u → n = k

namespace IsRecord

variable (h : b.IsRecord m i r)

include h

theorem ordered : r.Ordered := ⟨h.ascending, fun _ => h.line_lt⟩

theorem ownLines_eq : r.ownLines = offPoints r.points 0 (b.linesOf i) := by
  rw [r.ownLines_eq_offPoints h.ordered, lines_of_content h.content]

theorem mem_linesOf_of_mem_ownLines {l : Text} (hl : l ∈ r.ownLines) : l ∈ b.linesOf i := by
  rw [lines_of_content h.content]
  exact mem_lines_of_mem_ownFrom hl

theorem countP_linesOf :
    (b.linesOf i).countP m.isInclude = r.ownLines.countP m.isInclude + r.points.length := by
  have hp : ∀ p ∈ r.points, ∃ n : Nat, p.line = n ∧ 0 ≤ n ∧
      ∃ l, (b.linesOf i)[n]? = some l ∧ m.isInclude l = true := by
    intro p hp
    obtain ⟨n, hn, ⟨l, d, hl, hd, -⟩, -⟩ := (h.mem_points p).1 hp
    exact ⟨n, hn, Nat.zero_le n, l, hl, Marker.isInclude_iff.2 ⟨d, hd⟩⟩
  have hc := countP_ownFrom h.ascending hp
  rw [List.drop_zero] at hc
  rw [hc, Record.ownLines, lines_of_content h.content]
  rfl

/-- If no target is repeated, every include line of the file has a point. -/
theorem not_isInclude_of_mem_ownLines (hs : b.Sound m i) (ho : b.IncludesOnce m i) {l : Text}
    (hl : l ∈ r.ownLines) : m.isInclude l = false := by
  rw [Bool.eq_false_iff]
  intro hi
  obtain ⟨d, hd⟩ := Marker.isInclude_iff.1 hi
  rw [h.ownLines_eq] at hl
  obtain ⟨n, hn, hoff⟩ := mem_offPoints hl
  obtain ⟨u, hu⟩ := hs.resolved l (List.mem_of_getElem? hn) d hd
  have hat : b.IncludesAt m i n u := ⟨l, d, hn, hd, hu⟩
  have hp : ⟨n, u⟩ ∈ r.points :=
    (h.mem_points _).2 ⟨n, rfl, hat, fun k hk hat' => absurd (ho u k n hat' hat) (by omega)⟩
  exact hoff (List.mem_map_of_mem hp)

end IsRecord

section Built

variable (h : ((b.search m).run seed).result = .ok built)

include h

theorem isRecord_of_mem {p : Identity × Record} (hp : p ∈ built.graph.records) :
    b.IsRecord m p.1 p.2 := by
  have hget : built.graph.get? p.1 = some p.2 := Keyed.get?_of_mem built.graph.distinct hp
  obtain ⟨r, hr, hrec⟩ := exists_isRecord h (Graph.mem_keys_of_get? hget)
  cases hget.symm.trans hr
  exact hrec

theorem sound_of_mem {p : Identity × Record} (hp : p ∈ built.graph.records) :
    b.Sound m p.1 :=
  sound_of_settled (settled_of_mem_keys h (List.mem_map_of_mem hp))

theorem assemble_perm_ownLines :
    ∃ ls, built.graph.assemble = .ok (Text.unlines ls) ∧
      ls.Perm (built.graph.records.flatMap fun p => p.2.ownLines) := by
  obtain ⟨x, hx, ha⟩ := assemble_roots h
  obtain ⟨x', hx', hs, hv⟩ := splice_seed h
  cases hx'.symm.trans hx
  obtain ⟨entered, hsp⟩ := (Graph.splice_spec built.graph).1 _ _ _ hs
  have he : entered = built.graph.keys.reverse := by
    rw [← hv, hsp.visited_eq, List.append_nil]
  have hown : built.graph.keys.flatMap built.graph.ownLines =
      built.graph.records.flatMap fun p => p.2.ownLines := by
    rw [Graph.keys, Keyed.keys, List.flatMap_map]
    refine List.flatMap_congr fun p hp => ?_
    exact Graph.ownLines_of_get? (Keyed.get?_of_mem built.graph.distinct hp)
  refine ⟨x.lines, ha, ?_⟩
  rw [← hown]
  refine hsp.perm.trans ?_
  rw [he, List.nil_append]
  exact (List.reverse_perm _).flatMap_right _

end Built

theorem run_of_plain {t name : Text} (hp : ∀ l ∈ Text.lines t, m.read l = .plain)
    (hi : (ofList [(name, t)]).resolve seed = some i) :
    (((ofList [(name, t)]).search m).run seed).result =
      .ok ⟨i, .ofRecords [(i, ⟨t, []⟩)]⟩ := by
  have hc : (ofList [(name, t)]).content? i = some t := by
    have hn : i = Path.canonical name := by
      simpa [eq_comm] using mem_names_ofList.1 (mem_of_resolve hi)
    have ha : ofList [(name, t)] = empty.add name t := rfl
    rw [ha, content?_add, if_pos hn]
  have hl : (ofList [(name, t)]).linesOf i = Text.lines t := lines_of_content hc
  have ho : ((ofList [(name, t)]).search m).Opens i t [] := by
    refine opens_iff.2 ⟨by rw [hc]; rfl, ?_, directives_eq_nil ?_⟩
    · intro l hm message
      rw [hp l (hl ▸ hm)]
      simp
    · intro l hm
      rw [hp l (hl ▸ hm)]
      rfl
  have hg : (Graph.empty.put i .placeholder).put i ⟨t, []⟩ = .ofRecords [(i, ⟨t, []⟩)] :=
    Graph.eq_of_records (by simp [Graph.put, Graph.empty, Graph.ofRecords, Keyed.put, Keyed.putAll])
  rw [← hg]
  exact Search.run_of_steps 1 (resolve_eq_ok.2 hi) (Search.openFile_of_opens ho) rfl

/-- An assembled text has no directive but the repeated ones. None of its lines is malformed, and
its directives are as many as those of the files of the graph without their points. If no file
includes a target twice, the text stored alone is built to a graph of one record without points. -/
theorem assembled_directives (h : ((b.search m).run seed).result = .ok built) :
    ∃ t, built.graph.assemble = .ok t ∧
      (∀ l ∈ Text.lines t, ∀ message, m.read l ≠ .malformed message) ∧
      (∀ p ∈ built.graph.records, p.2.points.length ≤ (b.linesOf p.1).countP m.isInclude) ∧
      (Text.lines t).countP m.isInclude =
        (built.graph.records.map fun p =>
          (b.linesOf p.1).countP m.isInclude - p.2.points.length).sum ∧
      ((∀ j ∈ built.graph.keys, b.IncludesOnce m j) → ∀ name,
        (ofList [(name, t)]).resolve (.searched name) = some (Path.canonical name) ∧
          ∀ seed' i, (ofList [(name, t)]).resolve seed' = some i →
            (((ofList [(name, t)]).search m).run seed').result =
              .ok ⟨i, .ofRecords [(i, ⟨t, []⟩)]⟩) := by
  obtain ⟨ls, ha, hperm⟩ := assemble_perm_ownLines h
  have hmem : ∀ l ∈ ls, ∃ p ∈ built.graph.records, l ∈ p.2.ownLines := by
    intro l hl
    simpa only [List.mem_flatMap] using hperm.subset hl
  have hlines : ∀ l ∈ ls, ∃ p ∈ built.graph.records, l ∈ b.linesOf p.1 := by
    intro l hl
    obtain ⟨p, hp, hlp⟩ := hmem l hl
    exact ⟨p, hp, (isRecord_of_mem h hp).mem_linesOf_of_mem_ownLines hlp⟩
  have hn : ∀ l ∈ ls, '\n' ∉ l := by
    intro l hl
    obtain ⟨p, -, hlp⟩ := hlines l hl
    exact Text.newline_not_mem_of_mem_lines hlp
  have hw : ∀ l ∈ ls, ∀ message, m.read l ≠ .malformed message := by
    intro l hl
    obtain ⟨p, hp, hlp⟩ := hlines l hl
    exact (sound_of_mem h hp).wellFormed l hlp
  refine ⟨_, ha, ?_, ?_, ?_, ?_⟩
  · intro l hl message
    obtain ⟨l', hl', he⟩ := read_of_mem_lines_unlines hn hw hl
    rw [he]
    exact hw l' hl' message
  · intro p hp
    rw [(isRecord_of_mem h hp).countP_linesOf]
    exact Nat.le_add_left _ _
  · rw [countP_lines_unlines hn hw, hperm.countP_eq, List.countP_flatMap]
    congr 1
    refine List.map_congr_left fun p hp => ?_
    rw [(isRecord_of_mem h hp).countP_linesOf, Nat.add_sub_cancel]
    rfl
  · intro ho name
    refine ⟨?_, fun seed' i hi => run_of_plain ?_ hi⟩
    · exact resolve_eq_some.2 ⟨rfl, mem_names_ofList.2 ⟨(name, Text.unlines ls), by simp, rfl⟩⟩
    · intro l hl
      obtain ⟨l', hl', he⟩ := read_of_mem_lines_unlines hn hw hl
      obtain ⟨p, hp, hlp⟩ := hmem l' hl'
      have hi := (isRecord_of_mem h hp).not_isInclude_of_mem_ownLines (sound_of_mem h hp)
        (ho p.1 (List.mem_map_of_mem hp)) hlp
      cases hr : m.read l' with
      | plain => rw [he, hr]
      | inclusion d => simp [Marker.isInclude, hr, Reading.directive?] at hi
      | malformed message => exact absurd hr (hw l' hl' message)

theorem scroll_includesOnce : ∀ j ∈ scrollGraph.keys, scroll.IncludesOnce .default j := by
  have hp : directives Marker.default.read 0 (scroll.linesOf ['p']) =
      [(1, ⟨.searched, ['q']⟩)] := by decide
  have hq : directives Marker.default.read 0 (scroll.linesOf ['q']) = [] := by decide
  intro j hj u n k hn hk
  rw [includesAt_iff] at hn hk
  have hj' : j = ['p'] ∨ j = ['q'] := by simpa [scrollGraph, Graph.keys] using hj
  rcases hj' with rfl | rfl
  · rw [hp] at hn hk
    simp_all
  · rw [hq] at hn
    simp at hn

theorem assembled_ring_and_scroll :
    (∃ t, ringGraph.assemble = .ok t ∧ (Text.lines t).countP Marker.default.isInclude = 1) ∧
      (∀ j ∈ scrollGraph.keys, scroll.IncludesOnce .default j) ∧
      ∃ t, scrollGraph.assemble = .ok t ∧
        (((ofList [(['z'], t)]).search .default).run (.searched ['z'])).result =
          .ok ⟨['z'], .ofRecords [(['z'], ⟨t, []⟩)]⟩ := by
  obtain ⟨t, ha, -, -, hc, -⟩ := assembled_directives run_ring
  obtain ⟨t', ha', -, -, -, hf⟩ := assembled_directives run_scroll
  obtain ⟨hr, hbuild⟩ := hf scroll_includesOnce ['z']
  exact ⟨⟨t, ha, hc.trans (by decide)⟩, scroll_includesOnce, t', ha', hbuild _ _ hr⟩

end Bundle
end Splice
