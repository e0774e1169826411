import Splice.Path.Spelling
import Splice.Text.Line

set_option autoImplicit false

namespace Splice

namespace Text

variable {c : Char} {l t u : Text} {ls : List Text}

def dropEnd (c : Char) (t : Text) : Text := if t.getLast? = some c then t.dropLast else t

theorem dropReturn_eq (l : Text) : dropReturn l = dropEnd '\r' l := rfl

theorem dropEnd_append (t : Text) (hu : u ≠ []) : dropEnd c (t ++ u) = t ++ dropEnd c u := by
  have hlast : (t ++ u).getLast? = u.getLast? := by
    rw [List.getLast?_append, List.getLast?_eq_some_getLast hu, Option.some_or]
  rw [dropEnd, dropEnd, hlast, List.dropLast_append_of_ne_nil hu]
  split <;> rfl

theorem dropEnd_of_not_mem (h : c ∉ t) : dropEnd c t = t := by
  rw [dropEnd, if_neg fun hl => h (List.mem_of_getLast? hl)]

/-- A text is a last line, or a line, its line feed and a further text. -/
theorem line_induction {motive : Text → Prop} (last : ∀ l, '\n' ∉ l → motive l)
    (line : ∀ l t, '\n' ∉ l → motive t → motive (l ++ '\n' :: t)) (t : Text) : motive t := by
  have hjoin : ∀ ls, (∀ l ∈ ls, '\n' ∉ l) → motive (join ['\n'] ls) := by
    intro ls
    induction ls with
    | nil => exact fun _ => last [] (by simp)
    | cons l ls ih =>
      intro h
      rw [List.forall_mem_cons] at h
      cases ls with
      | nil => exact last l h.1
      | cons l' ls =>
        rw [join_cons _ (by simp), List.append_assoc]
        exact line l _ h.1 (ih h.2)
  rw [← join_pieces '\n' t]
  exact hjoin _ fun l hl => not_mem_of_mem_pieces hl

theorem lines_line (hl : '\n' ∉ l) (t : Text) :
    lines (l ++ '\n' :: t) = dropReturn l :: lines t := by
  rw [lines, rawLines_append hl, List.map_cons, lines]

theorem lines_append (a b : Text) :
    lines (a ++ '\n' :: b) = lines (a ++ ['\n']) ++ lines b := by
  induction a using line_induction with
  | last l hl => rw [lines_line hl, lines_line hl, lines_nil, List.singleton_append]
  | line l t hl ih =>
    rw [List.append_assoc, List.append_assoc, List.cons_append, List.cons_append, lines_line hl,
      lines_line hl, ih, List.cons_append]

theorem unixLines_cons (h : c = '\r' → t.head? ≠ some '\n') :
    unixLines (c :: t) = c :: unixLines t := by
  rw [unixLines]
  rintro u rfl rfl
  exact h rfl rfl

theorem unixLines_newline (t : Text) : unixLines ('\n' :: t) = '\n' :: unixLines t := rfl

theorem unixLines_of_not_mem (hl : '\n' ∉ l) : unixLines l = l := by
  induction l with
  | nil => rfl
  | cons c l ih =>
    rw [List.mem_cons, not_or] at hl
    rw [unixLines_cons fun _ hn => hl.2 (List.mem_of_head? hn), ih hl.2]

theorem unixLines_line (hl : '\n' ∉ l) (t : Text) :
    unixLines (l ++ '\n' :: t) = dropReturn l ++ '\n' :: unixLines t := by
  induction l with
  | nil => exact unixLines_newline t
  | cons c l ih =>
    rw [List.mem_cons, not_or] at hl
    cases l with
    | nil =>
      by_cases hc : c = '\r'
      · subst hc
        rfl
      · have hd : dropReturn [c] = [c] := by simp [dropReturn, hc]
        rw [hd, List.singleton_append, unixLines_cons fun e => absurd e hc, unixLines_newline]
        rfl
    | cons d l =>
      have hd : d ≠ '\n' := fun e => hl.2 (e ▸ List.mem_cons_self)
      have hc : dropReturn (c :: d :: l) = c :: dropReturn (d :: l) :=
        dropEnd_append [c] (by simp)
      rw [hc, List.cons_append, unixLines_cons fun _ => by simpa using hd, ih hl.2,
        List.cons_append]

theorem unlines_lines_of_not_mem (hl : '\n' ∉ l) : unlines (lines l) = dropReturn l := by
  by_cases hne : l = []
  · rw [hne]
    rfl
  · rw [lines, rawLines_of_not_mem hl hne]
    rfl

theorem lines_ne_nil (h : t ≠ []) : lines t ≠ [] := by
  induction t using line_induction with
  | last l hl => simp [lines, rawLines_of_not_mem hl h]
  | line l t hl => simp [lines_line hl]

theorem unlines_lines (t : Text) :
    unlines (lines t) = dropEnd '\r' (unixLines (dropEnd '\n' t)) := by
  induction t using line_induction with
  | last l hl =>
    rw [unlines_lines_of_not_mem hl, dropEnd_of_not_mem hl, unixLines_of_not_mem hl,
      dropReturn_eq]
  | line l t hl ih =>
    by_cases ht : t = []
    · -- The line feed is the last character, so only this line is left.
      have hend : dropEnd '\n' (l ++ ['\n']) = l := by simp [dropEnd]
      rw [ht, lines_line hl, hend, unixLines_of_not_mem hl, ← dropReturn_eq]
      rfl
    · have hend : dropEnd '\n' (l ++ '\n' :: t) = l ++ '\n' :: dropEnd '\n' t := by
        rw [List.append_cons, dropEnd_append _ ht, ← List.append_cons]
      calc unlines (lines (l ++ '\n' :: t))
          = dropReturn l ++ '\n' :: unlines (lines t) := by
            rw [lines_line hl, unlines, join_cons _ (lines_ne_nil ht), List.append_assoc]
            rfl
        _ = dropEnd '\r' (dropReturn l ++ '\n' :: unixLines (dropEnd '\n' t)) := by
            rw [ih, dropEnd_append _ (by simp), ← dropReturn_eq, ← dropReturn_eq,
              dropReturn_cons (by decide)]
        _ = dropEnd '\r' (unixLines (dropEnd '\n' (l ++ '\n' :: t))) := by
            rw [hend, unixLines_line hl]

theorem lines_unlines (hn : ∀ l ∈ ls, '\n' ∉ l) (hr : ∀ l ∈ ls, l.getLast? ≠ some '\r')
    (hl : ls.getLast? ≠ some []) : lines (unlines ls) = ls := by
  rcases rawLines_unlines hn with h | h
  · have hd : ∀ l ∈ ls, dropReturn l = id l := fun l hm => if_neg (hr l hm)
    rw [lines, h, List.map_congr_left hd, List.map_id]
  · have hempty : ls.getLast? = some [] := by
      rw [← h]
      simp
    exact absurd hempty hl

/-- The lines of a text hold no line feeds, and the lines of a text with a line feed in it are those
up to there and those behind it. Joined again, they are the text without one line feed at its end,
with carriage returns dropped where a line ends. Lines without line feeds and without carriage
returns at their ends, the last of which is not empty, are the lines of the text that they make. -/
theorem lines_inverse_and_append :
    (∀ t, ∀ l ∈ lines t, '\n' ∉ l) ∧
    (∀ a b, lines (a ++ '\n' :: b) = lines (a ++ ['\n']) ++ lines b) ∧
    (∀ t, unlines (lines t) = dropEnd '\r' (unixLines (dropEnd '\n' t))) ∧
    ∀ ls, (∀ l ∈ ls, '\n' ∉ l) → (∀ l ∈ ls, l.getLast? ≠ some '\r') → ls.getLast? ≠ some [] →
      lines (unlines ls) = ls :=
  ⟨fun _ _ => newline_not_mem_of_mem_lines, lines_append, unlines_lines,
    fun _ => lines_unlines⟩

def verses : List Text := [[], "a\rb".toList, [], ['c']]

theorem lines_unlines_verses :
    (∀ l ∈ verses, '\n' ∉ l) ∧ (∀ l ∈ verses, l.getLast? ≠ some '\r') ∧
      verses.getLast? ≠ some [] ∧ lines (unlines verses) = verses ∧
      ['c'] ∈ lines (unlines verses) ∧ '\n' ∉ ['c'] ∧
      unlines (lines "a\r\r\n\r\n".toList) = "a\r\n".toList := by
  obtain ⟨hn, -, hu, hl⟩ := lines_inverse_and_append
  have hfeed : ∀ l ∈ verses, '\n' ∉ l := by decide
  have hreturn : ∀ l ∈ verses, l.getLast? ≠ some '\r' := by decide
  have hlast : verses.getLast? ≠ some [] := by decide
  have hback := hl verses hfeed hreturn hlast
  have hc : ['c'] ∈ lines (unlines verses) := by
    rw [hback]
    decide
  exact ⟨hfeed, hreturn, hlast, hback, hc, hn _ _ hc, (hu _).trans (by decide)⟩

end Text
end Splice
