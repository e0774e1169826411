import Splice.Proofs.NormalPath
import Splice.Rule

set_option autoImplicit false

namespace Splice

namespace Text

variable {a b c sep : Char} {ps : List Text}

theorem substitute_join (a b : Char) (sep : Text) (ps : List Text) :
    substitute a b (join sep ps) = join (substitute a b sep) (ps.map (substitute a b)) := by
  have happend : ∀ t u, substitute a b (t ++ u) = substitute a b t ++ substitute a b u :=
    fun _ _ => List.map_append
  induction ps with
  | nil => rfl
  | cons p ps ih =>
    cases ps with
    | nil => rfl
    | cons q ps =>
      rw [join_cons (p := p) _ (by simp), happend, happend, ih, List.map_cons (a := p),
        join_cons _ (by simp)]

theorem mem_substitute (ha : c ≠ a) (hb : c ≠ b) (t : Text) : c ∈ substitute a b t ↔ c ∈ t := by
  constructor
  · intro h
    obtain ⟨d, hd, he⟩ := List.mem_map.1 h
    split at he
    · exact absurd he.symm hb
    · exact he ▸ hd
  · intro h
    exact List.mem_map.2 ⟨c, h, if_neg ha⟩

theorem mem_of_mem_substitute {t : Text} (h : c ∈ substitute a b t) : c = b ∨ c ∈ t := by
  obtain ⟨d, hd, he⟩ := List.mem_map.1 h
  split at he
  · exact .inl he.symm
  · exact .inr (he ▸ hd)

theorem pieces_join_iff (hne : ps ≠ []) : pieces sep (join [sep] ps) = ps ↔ ∀ p ∈ ps, sep ∉ p := by
  constructor
  · intro h p hp
    rw [← h] at hp
    exact not_mem_of_mem_pieces hp
  · exact pieces_join hne

end Text

namespace Rule

def shortened (start : Text) (i : Identity) : Text :=
  if start <+: i then i.drop start.length else i

def words (start : Text) (identities : List Identity) : List Text :=
  identities.map fun i => Path.slashed (shortened start i)

variable {start : Text} {i : Identity}

theorem strip_of_starting (h : start <+: i) : strip start i = (i.drop start.length, []) := by
  obtain ⟨rest, rfl⟩ := h
  rw [strip, List.drop_left]
  split
  · rename_i hs
    rw [hs, List.nil_append]
  · rw [Text.after?_append]

theorem strip_of_not_starting (h : ¬start <+: i) : strip start i = (i, [.unstripped start i]) := by
  have hs : start ≠ [] := fun e => h (e ▸ List.nil_prefix)
  have ha : Text.after? start i = none := by
    rw [Option.eq_none_iff_forall_ne_some]
    intro rest hr
    exact h ⟨rest, (Text.after?_eq_some.1 hr).symm⟩
  rw [strip, if_neg hs, ha]

theorem strip_fst (start : Text) (i : Identity) : (strip start i).1 = shortened start i := by
  by_cases h : start <+: i
  · rw [strip_of_starting h, shortened, if_pos h]
  · rw [strip_of_not_starting h, shortened, if_neg h]

theorem make_text (target start : Text) (identities : List Identity) :
    (make target identities start).text =
      Path.slashed target ++ [':', ' '] ++ Text.join [' '] (words start identities) := by
  have hnames : (identities.map (strip start)).map Prod.fst = identities.map (shortened start) := by
    rw [List.map_map]
    exact List.map_congr_left fun i _ => strip_fst start i
  have hbody : Path.slashed (Text.join [' '] (identities.map (shortened start))) =
      Text.join [' '] (words start identities) := by
    rw [Path.slashed, Text.substitute_join, List.map_map]
    rfl
  rw [make, hnames, ← Path.slashed, Path.slashed_append, Path.slashed_append, hbody]
  rfl

theorem mem_make_text {c : Char} {target : Text} {identities : List Identity}
    (h : c ∈ (make target identities start).text) :
    c ∈ [':', ' ', '/'] ∨ c ∈ target ∨ ∃ i ∈ identities, c ∈ i := by
  rcases Text.mem_of_mem_substitute h with rfl | h
  · exact .inl (by decide)
  rcases List.mem_append.1 h with h | h
  · rcases List.mem_append.1 h with h | h
    · exact .inr (.inl h)
    · exact .inl (by simp only [List.mem_cons] at h ⊢; tauto)
  · rcases Text.mem_join h with h | ⟨w, hw, h⟩
    · exact .inl (by simp only [List.mem_cons] at h ⊢; tauto)
    · rw [List.map_map] at hw
      obtain ⟨i, hi, rfl⟩ := List.mem_map.1 hw
      rw [Function.comp_apply, strip_fst, shortened] at h
      split at h
      · exact .inr (.inr ⟨i, hi, List.mem_of_mem_drop h⟩)
      · exact .inr (.inr ⟨i, hi, h⟩)

theorem make_events (target start : Text) (identities : List Identity) :
    (make target identities start).events =
      (identities.filter fun i => start ≠ [] ∧ ¬start <+: i).map (.unstripped start) := by
  simp only [make]
  induction identities with
  | nil => rfl
  | cons i is ih =>
    rw [List.map_cons, List.flatMap_cons, ih]
    by_cases h : start <+: i
    · simp [strip_of_starting h, h]
    · have hs : start ≠ [] := fun e => h (e ▸ List.nil_prefix)
      simp [strip_of_not_starting h, h, hs]

theorem space_not_mem_words {identities : List Identity} :
    (∀ w ∈ words start identities, ' ' ∉ w) ↔ ∀ i ∈ identities, ' ' ∉ shortened start i := by
  have hmem : ∀ t, ' ' ∈ Path.slashed t ↔ ' ' ∈ t := Text.mem_substitute (by decide) (by decide)
  rw [words, List.forall_mem_map]
  simp only [hmem]

theorem makeBy_optional (target : Text) (identities : List Identity) (start : Option Text) :
    makeBy target identities ((start.map .text).getD .null) =
      .ok (make target identities (start.getD [])) := by
  cases start <;> rfl

/-- A rule for at least one file is the target, a colon and the names of the files, and the names
are found again between its spaces if and only if none of them, shortened, holds a space. The
identities that do not have the start that was to be removed are reported, in order. -/
theorem rule_read_back (target : Text) (identities : List Identity) (start : Option Text)
    (hne : identities ≠ []) :
    ∃ r body, makeBy target identities ((start.map .text).getD .null) = .ok r ∧
      r.text = Path.slashed target ++ [':', ' '] ++ body ∧
      body = Text.join [' '] (words (start.getD []) identities) ∧
      (Text.pieces ' ' body = words (start.getD []) identities ↔
        ∀ i ∈ identities, ' ' ∉ shortened (start.getD []) i) ∧
      r.events = (identities.filter fun i => start.getD [] ≠ [] ∧ ¬start.getD [] <+: i).map
        (.unstripped (start.getD [])) ∧
      ∀ e ∈ r.events, e.level = .warning := by
  have hwords : words (start.getD []) identities ≠ [] := by simpa [words] using hne
  refine ⟨_, _, makeBy_optional target identities start, make_text target _ identities, rfl, ?_,
    make_events target _ identities, ?_⟩
  · rw [Text.pieces_join_iff hwords, space_not_mem_words]
  · intro e he
    rw [make_events] at he
    obtain ⟨i, -, rfl⟩ := List.mem_map.1 he
    rfl

def parts : List Identity := ["C:\\src\\a.c".toList, "C:\\".toList, "C:/b".toList]

theorem rule_parts_read_back :
    (parts ≠ [] ∧ ∃ r body, makeBy "out\\a.i".toList parts (.text "C:\\".toList) = .ok r ∧
      r.text = "out/a.i: ".toList ++ body ∧
      Text.pieces ' ' body = ["src/a.c".toList, [], "C:/b".toList] ∧
      r.events = [.unstripped "C:\\".toList "C:/b".toList]) ∧
    ∃ r body, makeBy "out\\a.i".toList (parts ++ ["d e".toList]) .null = .ok r ∧
      r.text = "out/a.i: ".toList ++ body ∧
      Text.pieces ' ' body ≠ words [] (parts ++ ["d e".toList]) ∧ r.events = [] := by
  have hparts : parts ≠ [] := by decide
  have hfurther : parts ++ ["d e".toList] ≠ [] := by decide
  refine ⟨⟨hparts, ?_⟩, ?_⟩
  · obtain ⟨r, body, hr, ht, -, hp, he, -⟩ :=
      rule_read_back "out\\a.i".toList parts (some "C:\\".toList) hparts
    exact ⟨r, body, hr, ht, (hp.2 (by decide)).trans (by decide), he.trans (by decide)⟩
  · obtain ⟨r, body, hr, ht, -, hp, he, -⟩ :=
      rule_read_back "out\\a.i".toList (parts ++ ["d e".toList]) none hfurther
    exact ⟨r, body, hr, ht, fun h => absurd (hp.1 h) (by decide), he.trans (by decide)⟩

end Rule
end Splice
