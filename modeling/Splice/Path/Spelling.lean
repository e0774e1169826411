import Splice.Path.Normal

set_option autoImplicit false

namespace Splice

namespace Text

variable {sep c : Char} {t u : Text} {ps : List Text}

theorem pieces_ne_nil (sep : Char) (t : Text) : pieces sep t ≠ [] := by
  cases t with
  | nil => simp [pieces]
  | cons c t =>
    by_cases h : c = sep
    · simp [pieces, h]
    · cases hp : pieces sep t <;> simp [pieces, h, hp, extend]

theorem exists_pieces (sep : Char) (t : Text) : ∃ init last, pieces sep t = init ++ [last] :=
  ⟨_, _, (List.dropLast_concat_getLast (pieces_ne_nil sep t)).symm⟩

theorem not_mem_of_mem_pieces {p : Text} (h : p ∈ pieces sep t) : sep ∉ p := by
  induction t generalizing p with
  | nil =>
    simp only [pieces, List.mem_singleton] at h
    simp [h]
  | cons c t ih =>
    by_cases hc : c = sep
    · simp only [pieces, hc, if_true, List.mem_cons] at h
      rcases h with rfl | h
      · simp
      · exact ih h
    · cases hp : pieces sep t with
      | nil => exact absurd hp (pieces_ne_nil sep t)
      | cons q ps =>
        simp only [pieces, hc, if_false, hp, extend, List.mem_cons] at h
        rcases h with rfl | h
        · have hq : sep ∉ q := ih (hp ▸ List.mem_cons_self)
          simp [hq, Ne.symm hc]
        · exact ih (hp ▸ List.mem_cons_of_mem q h)

theorem mem_of_mem_pieces {p : Text} (h : p ∈ pieces sep t) (hc : c ∈ p) : c ∈ t := by
  induction t generalizing p with
  | nil =>
    simp only [pieces, List.mem_singleton] at h
    simp [h] at hc
  | cons a t ih =>
    by_cases ha : a = sep
    · simp only [pieces, ha, if_true, List.mem_cons] at h
      rcases h with rfl | h
      · cases hc
      · exact List.mem_cons_of_mem a (ih h hc)
    · cases hp : pieces sep t with
      | nil => exact absurd hp (pieces_ne_nil sep t)
      | cons q ps =>
        simp only [pieces, ha, if_false, hp, extend, List.mem_cons] at h
        rcases h with rfl | h
        · rcases List.mem_cons.1 hc with rfl | hc
          · exact List.mem_cons_self
          · exact List.mem_cons_of_mem a (ih (hp ▸ List.mem_cons_self) hc)
        · exact List.mem_cons_of_mem a (ih (hp ▸ List.mem_cons_of_mem q h) hc)

theorem pieces_of_not_mem (h : sep ∉ t) : pieces sep t = [t] := by
  induction t with
  | nil => rfl
  | cons c t ih =>
    rw [List.mem_cons, not_or] at h
    simp [pieces, Ne.symm h.1, ih h.2, extend]

theorem pieces_append (sep : Char) (t u : Text) :
    pieces sep (t ++ sep :: u) = pieces sep t ++ pieces sep u := by
  induction t with
  | nil => simp [pieces]
  | cons c t ih =>
    by_cases h : c = sep
    · simp [pieces, h, ih]
    · cases hp : pieces sep t with
      | nil => exact absurd hp (pieces_ne_nil sep t)
      | cons q ps => simp [pieces, h, ih, hp, extend]

theorem join_cons {p : Text} (sep : Text) (h : ps ≠ []) :
    join sep (p :: ps) = p ++ sep ++ join sep ps := by
  cases ps with
  | nil => exact absurd rfl h
  | cons q ps => rfl

theorem join_append {qs : List Text} (sep : Text) (hp : ps ≠ []) (hq : qs ≠ []) :
    join sep (ps ++ qs) = join sep ps ++ sep ++ join sep qs := by
  induction ps with
  | nil => exact absurd rfl hp
  | cons p ps ih =>
    cases ps with
    | nil => exact join_cons sep hq
    | cons p' ps =>
      rw [List.cons_append, join_cons sep (by simp), ih (by simp), join_cons (p := p) sep (by simp)]
      simp only [List.append_assoc]

theorem pieces_join (hne : ps ≠ []) (h : ∀ p ∈ ps, sep ∉ p) :
    pieces sep (join [sep] ps) = ps := by
  induction ps with
  | nil => exact absurd rfl hne
  | cons p ps ih =>
    rw [List.forall_mem_cons] at h
    cases ps with
    | nil => exact pieces_of_not_mem h.1
    | cons q ps =>
      rw [join_cons _ (by simp), List.append_assoc, List.singleton_append, pieces_append,
        pieces_of_not_mem h.1, ih (by simp) h.2]
      rfl

theorem join_pieces (sep : Char) (t : Text) : join [sep] (pieces sep t) = t := by
  induction t with
  | nil => rfl
  | cons c t ih =>
    have hne := pieces_ne_nil sep t
    by_cases h : c = sep
    · simp [pieces, h, join_cons _ hne, ih]
    · cases hp : pieces sep t with
      | nil => exact absurd hp hne
      | cons q ps =>
        rw [hp] at ih
        simp only [pieces, h, if_false, hp, extend]
        cases ps with
        | nil => rw [← ih]; rfl
        | cons q' ps => rw [← ih]; simp [join]

theorem substitute_of_not_mem {a b : Char} (h : a ∉ t) : substitute a b t = t := by
  have hc : ∀ c ∈ t, (if c = a then b else c) = id c := by
    intro c hc
    have hne : c ≠ a := fun e => h (e ▸ hc)
    simp [hne]
  rw [substitute, List.map_congr_left hc, List.map_id]

theorem not_mem_substitute {a b : Char} (h : a ≠ b) (t : Text) : a ∉ substitute a b t := by
  intro hm
  obtain ⟨c, -, hc⟩ := List.mem_map.1 hm
  split at hc
  · exact h hc.symm
  · contradiction

end Text

namespace Route

structure IsName (n : Text) : Prop where
  ne_nil : n ≠ []
  ne_point : n ≠ ['.']
  not_mem : '/' ∉ n

variable {r : Route} {n : Text} {ns : List Text} {t u : Text}

theorem isName_of_mem_namesOf (h : n ∈ namesOf t) : IsName n := by
  obtain ⟨hp, hn⟩ := List.mem_filter.1 h
  obtain ⟨h1, h2⟩ := of_decide_eq_true hn
  exact ⟨h1, h2, Text.not_mem_of_mem_pieces hp⟩

theorem namesOf_append (t u : Text) : namesOf (t ++ '/' :: u) = namesOf t ++ namesOf u := by
  rw [namesOf, Text.pieces_append, List.filter_append]
  rfl

theorem namesOf_join (h : ∀ n ∈ ns, IsName n) : namesOf (Text.join ['/'] ns) = ns := by
  by_cases hn : ns = []
  · subst hn
    rfl
  · rw [namesOf, Text.pieces_join hn fun n hm => (h n hm).not_mem, List.filter_eq_self]
    intro n hm
    exact decide_eq_true ⟨(h n hm).ne_nil, (h n hm).ne_point⟩

theorem mem_of_mem_namesOf {c : Char} (h : n ∈ namesOf t) (hc : c ∈ n) : c ∈ t :=
  Text.mem_of_mem_pieces (List.mem_filter.1 h).1 hc

theorem head?_join_names (h : ∀ n ∈ ns, IsName n) : (Text.join ['/'] ns).head? ≠ some '/' := by
  cases ns with
  | nil => simp [Text.join]
  | cons n ns =>
    rw [List.forall_mem_cons] at h
    obtain ⟨⟨hn, -, hs⟩, -⟩ := h
    cases n with
    | nil => exact absurd rfl hn
    | cons c n =>
      have hc : c ≠ '/' := fun e => hs (e ▸ List.mem_cons_self)
      cases ns <;> simp [Text.join, hc]

theorem takeWhile_slashes (k : Nat) (h : t.head? ≠ some '/') :
    (List.replicate k '/' ++ t).takeWhile (· = '/') = List.replicate k '/' := by
  induction k with
  | zero =>
    cases t with
    | nil => rfl
    | cons c t =>
      have hc : c ≠ '/' := fun e => h (by rw [e]; rfl)
      simp [hc]
  | succ k ih => simp [List.replicate_succ, ih]

theorem leading_of_slashes {k : Nat} (hk : k ≤ 2) (h : t.head? ≠ some '/') :
    leading (List.replicate k '/' ++ t) = k := by
  rw [leading, takeWhile_slashes k h, List.length_replicate]
  match k, hk with
  | 0, _ => rfl
  | 1, _ => rfl
  | 2, _ => rfl

theorem leading_of_head? (h : t.head? ≠ some '/') : leading t = 0 :=
  leading_of_slashes (Nat.zero_le 2) h

theorem leading_le (t : Text) : leading t ≤ 2 := by
  unfold leading
  split <;> omega

theorem leading_ne_zero (h : t.head? = some '/') : leading t ≠ 0 := by
  obtain ⟨rest, rfl⟩ := List.head?_eq_some_iff.1 h
  unfold leading
  split
  · rename_i hzero
    simp at hzero
  · decide
  · decide

theorem leading_append (u : Text) (h : t.head? ≠ some '/') : leading (u ++ t) = leading u := by
  have htake : (u ++ t).takeWhile (· = '/') = u.takeWhile (· = '/') := by
    induction u with
    | nil =>
      cases t with
      | nil => rfl
      | cons c t => exact List.takeWhile_cons_of_neg (by simpa using h)
    | cons c u ih => by_cases hc : c = '/' <;> simp [hc, ih]
  rw [leading, leading, htake]

theorem isAbsolute_ofText (h : t.head? ≠ some '/') : (ofText t).isAbsolute = false := by
  simp [isAbsolute, ofText, leading_of_head? h]

theorem append_ofText {a : Route} (h : t.head? ≠ some '/') :
    a.append (ofText t) = ⟨a.slashes, a.names ++ namesOf t⟩ := by
  rw [append, isAbsolute_ofText h]
  rfl

theorem namesOf_slashes (k : Nat) (t : Text) :
    namesOf (List.replicate k '/' ++ t) = namesOf t := by
  induction k with
  | zero => rfl
  | succ k ih =>
    rw [List.replicate_succ, List.cons_append, ← List.nil_append ('/' :: _), namesOf_append, ih]
    rfl

/-- A route with names that count is read back from its spelling. -/
theorem ofText_text (hs : r.slashes ≤ 2) (hn : ∀ n ∈ r.names, IsName n) : ofText r.text = r := by
  obtain ⟨k, ns⟩ := r
  rw [text]
  split
  · rename_i h
    obtain ⟨rfl, rfl⟩ := h
    rfl
  · rw [ofText, leading_of_slashes hs (head?_join_names hn), namesOf_slashes, namesOf_join hn]

theorem ofText_join (a t : Text) : ofText (Path.join a t) = (ofText a).append (ofText t) := by
  unfold Path.join
  split
  · rename_i ht
    exact (if_pos (decide_eq_true (leading_ne_zero ht))).symm
  rename_i ht
  have happend : (ofText a).append (ofText t) = ⟨leading a, namesOf a ++ namesOf t⟩ :=
    append_ofText ht
  rw [happend]
  rcases List.eq_nil_or_concat a with rfl | ⟨init, c, rfl⟩
  · have hnil : namesOf [] = [] := rfl
    rw [if_pos (.inl rfl), List.nil_append, hnil, List.nil_append, ofText, leading_of_head? ht]
    rfl
  rw [List.concat_eq_append]
  by_cases hc : c = '/'
  · subst hc
    have hnames : namesOf (init ++ ['/']) = namesOf init := by
      rw [namesOf_append]
      exact List.append_nil _
    rw [if_pos (.inr (by simp)), ofText, leading_append _ ht, hnames, List.append_assoc,
      List.singleton_append, namesOf_append]
  · have hend : ¬(init ++ [c] = [] ∨ (init ++ [c]).getLast? = some '/') := by simpa using hc
    have hhead : ∀ u : Text, (c :: u).head? ≠ some '/' := fun u => by simpa using hc
    rw [if_neg hend, ofText, List.append_assoc, List.singleton_append, namesOf_append,
      List.append_assoc, List.singleton_append, leading_append _ (hhead _),
      leading_append _ (hhead _)]

theorem mem_text {c : Char} (h : c ∈ r.text) : c = '.' ∨ c = '/' ∨ ∃ n ∈ r.names, c ∈ n := by
  rw [text] at h
  split at h
  · exact .inl (List.mem_singleton.1 h)
  · rcases List.mem_append.1 h with h | h
    · exact .inr (.inl (List.eq_of_mem_replicate h))
    · rcases Text.mem_join h with h | h
      · exact .inr (.inl (List.mem_singleton.1 h))
      · exact .inr (.inr h)

end Route

end Splice
