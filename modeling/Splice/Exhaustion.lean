set_option autoImplicit false

namespace Splice

universe u
variable {α : Type u} [DecidableEq α]

def unmarked (all marked : List α) : Nat := (all.filter (· ∉ marked)).length

theorem unmarked_le {all marked marked' : List α} (h : ∀ a ∈ marked, a ∈ marked') :
    unmarked all marked' ≤ unmarked all marked := by
  induction all with
  | nil => exact Nat.le_refl 0
  | cons b all ih =>
    simp only [unmarked, List.filter_cons] at ih ⊢
    by_cases hb : b ∈ marked
    · simpa [hb, h b hb] using ih
    · by_cases hb' : b ∈ marked'
      · simp only [hb, hb', not_true_eq_false, not_false_eq_true, decide_false, decide_true,
          if_true, List.length_cons, Bool.false_eq_true, if_false]
        omega
      · simp only [hb, hb', not_false_eq_true, decide_true, if_true, List.length_cons]
        omega

theorem unmarked_lt {all marked marked' : List α} {a : α} (h : ∀ b ∈ marked, b ∈ marked')
    (ha : a ∈ all) (hn : a ∉ marked) (hm : a ∈ marked') :
    unmarked all marked' < unmarked all marked := by
  induction all with
  | nil => cases ha
  | cons b all ih =>
    have hle : unmarked all marked' ≤ unmarked all marked := unmarked_le h
    simp only [unmarked, List.filter_cons] at ih hle ⊢
    by_cases hab : a = b
    · subst hab
      simp only [hn, hm, not_true_eq_false, not_false_eq_true, decide_false, decide_true,
        if_true, List.length_cons, Bool.false_eq_true, if_false]
      omega
    · have ih := ih (by simpa [hab] using ha)
      by_cases hb : b ∈ marked
      · simpa [hb, h b hb] using ih
      · by_cases hb' : b ∈ marked'
        · simp only [hb, hb', not_true_eq_false, not_false_eq_true, decide_false, decide_true,
            if_true, List.length_cons, Bool.false_eq_true, if_false]
          omega
        · simp only [hb, hb', not_false_eq_true, decide_true, if_true, List.length_cons]
          omega

/-- Over finitely many letters there are finitely many words up to a length. -/
theorem exists_words {β : Type u} {letters : List β} (h : ∀ b, b ∈ letters) (n : Nat) :
    ∃ words : List (List β), ∀ w, w.length ≤ n → w ∈ words := by
  induction n with
  | zero => exact ⟨[[]], fun w hw => by simpa using hw⟩
  | succ n ih =>
    obtain ⟨words, hwords⟩ := ih
    refine ⟨[] :: letters.flatMap fun b => words.map (b :: ·), ?_⟩
    intro w hw
    cases w with
    | nil => exact List.mem_cons_self
    | cons b w =>
      have hm : w ∈ words := hwords w (Nat.le_of_succ_le_succ hw)
      exact List.mem_cons_of_mem _ (List.mem_flatMap.2 ⟨b, h b, List.mem_map_of_mem hm⟩)

theorem mem_characters (c : Char) : c ∈ (List.range 0x110000).map Char.ofNat := by
  have hlt : c.toNat < 0x110000 := by
    rcases c.valid with h | h
    · exact Nat.lt_trans h (by decide)
    · exact h.2
  exact List.mem_map.2 ⟨c.toNat, List.mem_range.2 hlt, Char.ofNat_toNat c⟩

end Splice
