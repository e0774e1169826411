import Splice.Text.Basic

set_option autoImplicit false

namespace Splice.Text

def rawLines : Text → List Text
  | [] => []
  | c :: t => if c = '\n' then [] :: rawLines t else extend c (rawLines t)

def dropReturn (l : Text) : Text := if l.getLast? = some '\r' then l.dropLast else l

/-- The lines without their line ends. -/
def lines (t : Text) : List Text := (rawLines t).map dropReturn

@[simp] theorem lines_nil : lines [] = [] := rfl

def unlines (ls : List Text) : Text := join ['\n'] ls

def unixLines : Text → Text
  | '\r' :: '\n' :: t => '\n' :: unixLines t
  | c :: t => c :: unixLines t
  | [] => []

variable {c : Char} {l t : Text} {ls : List Text}

theorem dropReturn_cons (hc : c ≠ '\r') (l : Text) : dropReturn (c :: l) = c :: dropReturn l := by
  cases l with
  | nil => simp [dropReturn, hc]
  | cons d l =>
    simp only [dropReturn, List.getLast?_cons_cons, List.dropLast_cons_cons]
    split <;> rfl

theorem dropReturn_concat (t : Text) (c : Char) :
    dropReturn (t ++ [c]) = if c = '\r' then t else t ++ [c] := by
  simp [dropReturn]

theorem isPrefix_dropReturn (l : Text) : dropReturn l <+: l := by
  unfold dropReturn
  split
  · exact List.dropLast_prefix l
  · exact List.prefix_rfl

theorem lines_newline (t : Text) : lines ('\n' :: t) = [] :: lines t := rfl

theorem lines_cons (hn : c ≠ '\n') (hr : c ≠ '\r') (t : Text) :
    lines (c :: t) = extend c (lines t) := by
  simp only [lines, rawLines, if_neg hn]
  cases rawLines t with
  | nil => simp [extend, dropReturn, hr]
  | cons l ls => simp [extend, dropReturn_cons hr]

theorem rawLines_append (hl : '\n' ∉ l) (t : Text) :
    rawLines (l ++ '\n' :: t) = l :: rawLines t := by
  induction l with
  | nil => rfl
  | cons c l ih =>
    rw [List.mem_cons, not_or] at hl
    simp [rawLines, Ne.symm hl.1, ih hl.2, extend]

theorem rawLines_of_not_mem (hl : '\n' ∉ l) (hne : l ≠ []) : rawLines l = [l] := by
  induction l with
  | nil => exact absurd rfl hne
  | cons c l ih =>
    rw [List.mem_cons, not_or] at hl
    cases l with
    | nil => simp [rawLines, Ne.symm hl.1, extend]
    | cons d l => rw [rawLines, if_neg (Ne.symm hl.1), ih hl.2 (by simp), extend]

theorem newline_not_mem_of_mem_rawLines (h : l ∈ rawLines t) : '\n' ∉ l := by
  induction t generalizing l with
  | nil => cases h
  | cons c t ih =>
    by_cases hc : c = '\n'
    · simp only [rawLines, hc, if_true, List.mem_cons] at h
      rcases h with rfl | h
      · simp
      · exact ih h
    · simp only [rawLines, hc, if_false] at h
      cases hr : rawLines t with
      | nil =>
        rw [hr] at h
        simp only [extend, List.mem_singleton] at h
        simpa [h] using Ne.symm hc
      | cons q qs =>
        rw [hr] at ih h
        simp only [extend, List.mem_cons] at h
        rcases h with rfl | h
        · have hq : '\n' ∉ q := ih List.mem_cons_self
          simp [hq, Ne.symm hc]
        · exact ih (List.mem_cons_of_mem q h)

theorem newline_not_mem_of_mem_lines (h : l ∈ lines t) : '\n' ∉ l := by
  obtain ⟨r, hr, rfl⟩ := List.mem_map.1 h
  exact fun hm => newline_not_mem_of_mem_rawLines hr ((isPrefix_dropReturn r).subset hm)

theorem mem_of_mem_rawLines (h : l ∈ rawLines t) (hc : c ∈ l) : c ∈ t := by
  induction t generalizing l with
  | nil => cases h
  | cons a t ih =>
    by_cases ha : a = '\n'
    · simp only [rawLines, ha, if_true, List.mem_cons] at h
      rcases h with rfl | h
      · cases hc
      · exact List.mem_cons_of_mem a (ih h hc)
    · simp only [rawLines, ha, if_false] at h
      cases hr : rawLines t with
      | nil =>
        rw [hr] at h
        simp only [extend, List.mem_singleton] at h
        rw [h, List.mem_singleton] at hc
        rw [hc]
        exact List.mem_cons_self
      | cons q qs =>
        rw [hr] at ih h
        simp only [extend, List.mem_cons] at h
        rcases h with rfl | h
        · rcases List.mem_cons.1 hc with rfl | hc
          · exact List.mem_cons_self
          · exact List.mem_cons_of_mem a (ih List.mem_cons_self hc)
        · exact List.mem_cons_of_mem a (ih (List.mem_cons_of_mem q h) hc)

theorem mem_of_mem_lines (h : l ∈ lines t) (hc : c ∈ l) : c ∈ t := by
  obtain ⟨r, hr, rfl⟩ := List.mem_map.1 h
  exact mem_of_mem_rawLines hr ((isPrefix_dropReturn r).subset hc)

/-- Joined lines are the lines of their text, but for an empty one at the end. -/
theorem rawLines_unlines (h : ∀ l ∈ ls, '\n' ∉ l) :
    rawLines (unlines ls) = ls ∨ rawLines (unlines ls) ++ [[]] = ls := by
  induction ls with
  | nil => exact .inl rfl
  | cons l ls ih =>
    rw [List.forall_mem_cons] at h
    cases ls with
    | nil =>
      by_cases hl : l = []
      · exact .inr (by rw [hl]; rfl)
      · exact .inl (rawLines_of_not_mem h.1 hl)
    | cons l' ls =>
      have hu : rawLines (unlines (l :: l' :: ls)) = l :: rawLines (unlines (l' :: ls)) := by
        rw [← rawLines_append h.1, unlines, join, List.append_assoc]
        rfl
      rw [hu]
      rcases ih h.2 with ih | ih
      · exact .inl (by rw [ih])
      · exact .inr (by rw [List.cons_append, ih])

end Splice.Text
