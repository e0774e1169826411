import Mathlib.Data.List.Basic
import Splice.Path.Spelling

set_option autoImplicit false

namespace Splice

namespace Path

variable {absolute : Bool} {past ns : List Text} {d f n t : Text}

/-- A reversed list of names in which nothing is left to cancel: two points have only two points
before them, and there are none in an absolute path. -/
def Calm (absolute : Bool) : List Text → Prop
  | [] => True
  | n :: past => Calm absolute past ∧
    (n = up → absolute = false ∧ (past = [] ∨ past.head? = some up))

theorem settle_of_ne (h : n ≠ up) : settle absolute past n = n :: past := by
  unfold settle
  exact if_pos h

theorem settle_up (absolute : Bool) (past : List Text) :
    settle absolute past up =
      match past with
      | [] => if absolute then [] else [up]
      | last :: rest => if last = up then up :: past else rest := by
  unfold settle
  exact if_neg fun h => h rfl

theorem Calm.settle (h : Calm absolute past) (n : Text) :
    Calm absolute (settle absolute past n) := by
  by_cases hn : n = up
  · rw [hn, settle_up]
    cases past with
    | nil => cases absolute <;> simp [Calm]
    | cons last rest =>
      by_cases hl : last = up
      · simp only [hl, if_true]
        subst hl
        exact ⟨h, fun _ => ⟨(h.2 rfl).1, .inr rfl⟩⟩
      · simp only [hl, if_false]
        exact h.1
  · rw [settle_of_ne hn]
    exact ⟨h, fun e => absurd e hn⟩

theorem Calm.settle_eq (h : Calm absolute (n :: past)) :
    Path.settle absolute past n = n :: past := by
  by_cases hn : n = up
  · obtain ⟨rfl, hp⟩ := h.2 hn
    rw [hn, settle_up]
    cases past with
    | nil => rfl
    | cons last rest =>
      have hl : last = up := by simpa using hp
      simp only [hl, if_true]
  · exact settle_of_ne hn

theorem calm_foldl (h : Calm absolute past) (ns : List Text) :
    Calm absolute (ns.foldl (settle absolute) past) := by
  induction ns generalizing past with
  | nil => exact h
  | cons n ns ih => exact ih (h.settle n)

theorem Calm.foldl_reverse (h : Calm absolute past) :
    past.reverse.foldl (Path.settle absolute) [] = past := by
  induction past with
  | nil => rfl
  | cons n past ih =>
    rw [List.reverse_cons, List.foldl_append, ih h.1]
    exact h.settle_eq

theorem cancel_cancel (absolute : Bool) (ns : List Text) :
    cancel absolute (cancel absolute ns) = cancel absolute ns := by
  have hnil : Calm absolute [] := trivial
  have h := calm_foldl hnil ns
  rw [cancel, cancel, h.foldl_reverse]

theorem cancel_append_cancel (absolute : Bool) (ns ms : List Text) :
    cancel absolute (cancel absolute ns ++ ms) = cancel absolute (ns ++ ms) := by
  have hnil : Calm absolute [] := trivial
  have h := calm_foldl hnil ns
  have hback : (cancel absolute ns).foldl (settle absolute) [] = ns.foldl (settle absolute) [] :=
    h.foldl_reverse
  have hcancel : ∀ ls ms, cancel absolute (ls ++ ms) =
      (ms.foldl (settle absolute) (ls.foldl (settle absolute) [])).reverse := by
    intro ls ms
    rw [cancel, List.foldl_append]
  rw [hcancel, hcancel, hback]

theorem cancel_concat (absolute : Bool) (ns : List Text) (h : n ≠ up) :
    cancel absolute (ns ++ [n]) = cancel absolute ns ++ [n] := by
  rw [cancel, List.foldl_append, List.foldl_cons, List.foldl_nil, settle_of_ne h,
    List.reverse_cons, cancel]

theorem cancel_of_not_mem (h : up ∉ ns) : cancel absolute ns = ns := by
  have hs : ∀ past, ns.foldl (settle absolute) past = ns.reverse ++ past := by
    induction ns with
    | nil => simp
    | cons n ns ih =>
      rw [List.mem_cons, not_or] at h
      intro past
      rw [List.foldl_cons, ih h.2, settle_of_ne (Ne.symm h.1)]
      simp
  rw [cancel, hs, List.append_nil, List.reverse_reverse]

theorem mem_settle (h : n ∈ settle absolute past t) : n = t ∨ n ∈ past := by
  by_cases ht : t = up
  · rw [ht, settle_up] at h
    split at h
    · split at h
      · cases h
      · exact .inl (ht ▸ List.mem_singleton.1 h)
    · split at h
      · exact ht ▸ List.mem_cons.1 h
      · exact .inr (List.mem_cons_of_mem _ h)
  · rw [settle_of_ne ht] at h
    exact List.mem_cons.1 h

theorem mem_of_mem_cancel (h : n ∈ cancel absolute ns) : n ∈ ns := by
  have hs : ∀ past, n ∈ ns.foldl (settle absolute) past → n ∈ past ∨ n ∈ ns := by
    clear h
    induction ns with
    | nil => exact fun past h => .inl h
    | cons m ns ih =>
      intro past h
      rcases ih _ h with h | h
      · rcases mem_settle h with rfl | h
        · exact .inr List.mem_cons_self
        · exact .inl h
      · exact .inr (List.mem_cons_of_mem m h)
  rcases hs [] (List.mem_reverse.1 h) with h | h
  · cases h
  · exact h

theorem ofText_normal (t : Text) :
    Route.ofText (normal t) =
      ⟨Route.leading t, cancel (Route.ofText t).isAbsolute (Route.namesOf t)⟩ :=
  Route.ofText_text (Route.leading_le t) fun _ hn =>
    Route.isName_of_mem_namesOf (mem_of_mem_cancel hn)

theorem normal_normal (t : Text) : normal (normal t) = normal t := by
  have h : (Route.ofText (normal t)).isAbsolute = (Route.ofText t).isAbsolute := by
    rw [ofText_normal]
    rfl
  rw [normal, h, ofText_normal]
  simp only [cancel_cancel]
  rfl

theorem normal_join (a : Text) (h : t.head? ≠ some '/') :
    normal (join a t) = Route.text ⟨Route.leading a,
      cancel (Route.ofText a).isAbsolute (Route.namesOf a ++ Route.namesOf t)⟩ := by
  have hread : Route.ofText (join a t) = ⟨Route.leading a, Route.namesOf a ++ Route.namesOf t⟩ := by
    rw [Route.ofText_join, Route.append_ofText h]
    rfl
  rw [normal, hread]
  rfl

theorem normal_join_congr (h : Route.ofText d = Route.ofText f) (t : Text) :
    normal (join d t) = normal (join f t) := by
  rw [normal, normal, Route.ofText_join, Route.ofText_join, h]

theorem normal_join_normal (a t : Text) : normal (join (normal a) t) = normal (join a t) := by
  by_cases ht : t.head? = some '/'
  · rw [join, join, if_pos ht, if_pos ht]
  have hread := ofText_normal a
  have hslashes : Route.leading (normal a) = Route.leading a := congrArg Route.slashes hread
  have hnames : Route.namesOf (normal a) = cancel (Route.ofText a).isAbsolute (Route.namesOf a) :=
    congrArg Route.names hread
  have habsolute : (Route.ofText (normal a)).isAbsolute = (Route.ofText a).isAbsolute := by
    rw [hread]
    rfl
  rw [normal_join _ ht, normal_join _ ht, hslashes, habsolute, hnames, cancel_append_cancel]

def slashed (t : Text) : Text := Text.substitute '\\' '/' t

theorem slashed_append (t u : Text) : slashed (t ++ u) = slashed t ++ slashed u :=
  List.map_append

theorem slashed_of_not_mem (h : '\\' ∉ t) : slashed t = t := Text.substitute_of_not_mem h

theorem canonical_eq (t : Text) : canonical t = normal (slashed t) := rfl

theorem not_mem_slashed (t : Text) : '\\' ∉ slashed t := Text.not_mem_substitute (by decide) t

theorem canonical_slashed (t : Text) : canonical (slashed t) = canonical t := by
  rw [canonical_eq, slashed_of_not_mem (not_mem_slashed t), canonical_eq]

theorem head?_slashed (h : t.head? ≠ some '\\') :
    (slashed t).head? = some '/' ↔ t.head? = some '/' := by
  cases t with
  | nil => simp [slashed, Text.substitute]
  | cons c t =>
    have hc : c ≠ '\\' := by simpa using h
    simp [slashed, Text.substitute, hc]

theorem getLast?_slashed (h : t.getLast? ≠ some '\\') :
    (slashed t).getLast? = some '/' ↔ t.getLast? = some '/' := by
  rw [slashed, Text.substitute, List.getLast?_map]
  cases ht : t.getLast? with
  | none => simp
  | some c =>
    have hc : c ≠ '\\' := fun e => h (by rw [ht, e])
    simp [hc]

/-- Backslashes can be replaced before joining or after it, unless there is one where the two paths
meet. -/
theorem slashed_join (hd : d.getLast? ≠ some '\\') (hn : n.head? ≠ some '\\') :
    slashed (join d n) = join (slashed d) (slashed n) := by
  have hnil : slashed d = [] ↔ d = [] := List.map_eq_nil_iff
  simp only [join, head?_slashed hn, getLast?_slashed hd, hnil]
  split
  · rfl
  · split
    · exact slashed_append d n
    · rw [slashed_append, slashed_append]
      rfl

theorem canonical_join (hd : d.getLast? ≠ some '\\') (hn : n.head? ≠ some '\\') :
    canonical (join d n) = normal (join (slashed d) (slashed n)) := by
  rw [canonical_eq, slashed_join hd hn]

theorem not_mem_canonical (t : Text) : '\\' ∉ canonical t := by
  intro h
  rcases Route.mem_text h with h | h | ⟨n, hn, h⟩
  · cases h
  · cases h
  · exact Text.not_mem_substitute (by decide) t
      (Route.mem_of_mem_namesOf (mem_of_mem_cancel hn) h)

theorem canonical_canonical (t : Text) : canonical (canonical t) = canonical t := by
  rw [canonical, Text.substitute_of_not_mem (not_mem_canonical t)]
  exact normal_normal _

theorem canonical_of_not_mem (hs : t.head? ≠ some '/') (hb : '\\' ∉ t)
    (hu : up ∉ Route.namesOf t) : canonical t = Route.text ⟨0, Route.namesOf t⟩ := by
  have hn : (Route.ofText t).names = Route.namesOf t := rfl
  have hl : (Route.ofText t).slashes = 0 := Route.leading_of_head? hs
  rw [canonical, Text.substitute_of_not_mem hb, normal]
  simp only [hn, hl, cancel_of_not_mem hu]

theorem normal_point (h : t.head? ≠ some '/') : normal ('.' :: '/' :: t) = normal t := by
  have hn : Route.namesOf ('.' :: '/' :: t) = Route.namesOf t := Route.namesOf_append ['.'] t
  have hl : Route.leading ('.' :: '/' :: t) = Route.leading t := (Route.leading_of_head? h).symm
  have ho : Route.ofText ('.' :: '/' :: t) = Route.ofText t := by rw [Route.ofText, hn, hl]; rfl
  rw [normal, ho]
  rfl

theorem join_nil (t : Text) : join [] t = t := by
  simp [join]

theorem directory_sublist (t : Text) : (directory t).Sublist t := by
  have hhead : (t.reverse.dropWhile (· ≠ '/')).reverse.Sublist t := by
    simpa using (List.dropWhile_sublist (· ≠ '/') (l := t.reverse)).reverse
  simp only [directory]
  split
  · exact hhead
  · refine List.Sublist.trans ?_ hhead
    simpa using (List.dropWhile_sublist (· = '/') (l := t.reverse.dropWhile (· ≠ '/'))).reverse

theorem dropWhile_of_head? {p : Char → Bool} (h : ∀ c ∈ t.head?, p c = false) :
    t.dropWhile p = t := by
  cases t with
  | nil => rfl
  | cons c t => exact List.dropWhile_cons_of_neg (by simp [h c rfl])

theorem getLast?_join_names (hn : ns ≠ []) (h : ∀ n ∈ ns, Route.IsName n) :
    ∃ c, (Text.join ['/'] ns).getLast? = some c ∧ c ≠ '/' := by
  obtain ⟨init, last, rfl⟩ : ∃ init last, ns = init ++ [last] :=
    ⟨_, _, (List.dropLast_concat_getLast hn).symm⟩
  obtain ⟨hne, -, hs⟩ := h last (by simp)
  have hl : (Text.join ['/'] (init ++ [last])).getLast? = last.getLast? := by
    by_cases hi : init = []
    · subst hi
      rfl
    · rw [Text.join_append _ hi (by simp)]
      exact List.getLast?_append_of_ne_nil _ hne
  refine ⟨last.getLast hne, by rw [hl, List.getLast?_eq_some_getLast hne], fun e => hs ?_⟩
  exact e ▸ List.getLast_mem hne

theorem directory_append (hn : '/' ∉ n) (ht : ∀ c ∈ t.getLast?, c = '/') :
    directory (t ++ n) =
      if t.all (· = '/') then t else (t.reverse.dropWhile (· = '/')).reverse := by
  have hname : ∀ c ∈ n.reverse, decide (c ≠ '/') = true := by
    intro c hc
    exact decide_eq_true fun e => hn (e ▸ List.mem_reverse.1 hc)
  have hhead : t.reverse.dropWhile (· ≠ '/') = t.reverse := by
    refine dropWhile_of_head? fun c hc => ?_
    rw [List.head?_reverse] at hc
    simpa using ht c hc
  rw [directory, List.reverse_append, List.dropWhile_append_of_pos hname, hhead,
    List.reverse_reverse]

theorem directory_slashes_join (k : Nat) (hn : ∀ m ∈ ns, Route.IsName m) (h : '/' ∉ n) :
    directory (List.replicate k '/' ++ Text.join ['/'] (ns ++ [n])) =
      List.replicate k '/' ++ Text.join ['/'] ns := by
  by_cases hne : ns = []
  · subst hne
    have hslash : ∀ c ∈ (List.replicate k '/').getLast?, c = '/' := fun c hc =>
      List.eq_of_mem_replicate (List.mem_of_getLast? hc)
    have hall : (List.replicate k '/').all (· = '/') = true := by simp
    simp only [List.nil_append, Text.join, List.append_nil]
    rw [directory_append h hslash, if_pos hall]
  · obtain ⟨c, hc, hcs⟩ := getLast?_join_names hne hn
    have hsplit : List.replicate k '/' ++ Text.join ['/'] (ns ++ [n]) =
        (List.replicate k '/' ++ Text.join ['/'] ns ++ ['/']) ++ n := by
      rw [Text.join_append _ hne (by simp)]
      simp only [Text.join, List.append_assoc]
    have hlast : (List.replicate k '/' ++ Text.join ['/'] ns).getLast? = some c := by
      rw [List.getLast?_append, hc]
      rfl
    generalize List.replicate k '/' ++ Text.join ['/'] ns = body at hsplit hlast
    have hall : ¬(body ++ ['/']).all (· = '/') = true := by
      rw [List.all_eq_true]
      intro hall
      exact hcs (of_decide_eq_true (hall c (List.mem_append_left _ (List.mem_of_getLast? hlast))))
    have hstrip : body.reverse.dropWhile (· = '/') = body.reverse := by
      refine dropWhile_of_head? fun a ha => ?_
      rw [List.head?_reverse, hlast] at ha
      cases ha
      exact decide_eq_false hcs
    rw [hsplit, directory_append h (by simp), if_neg hall, List.reverse_append,
      List.reverse_singleton, List.singleton_append, List.dropWhile_cons_of_pos (by simp), hstrip,
      List.reverse_reverse]

theorem directory_join (hn : ∀ m ∈ ns, Route.IsName m) (h : '/' ∉ n) :
    directory (Text.join ['/'] (ns ++ [n])) = Text.join ['/'] ns :=
  directory_slashes_join 0 hn h

theorem ofText_directory_join (hf : Route.IsName f) (hup : f ≠ up) :
    Route.ofText (directory (normal (join d f))) = Route.ofText (normal d) := by
  have hhead : f.head? ≠ some '/' := fun e => hf.not_mem (List.mem_of_mem_head? e)
  have hsingle : ∀ m ∈ [f], Route.IsName m := by simpa using hf
  have hnames : Route.namesOf f = [f] := Route.namesOf_join hsingle
  have hcancel : ∀ m ∈ cancel (Route.ofText d).isAbsolute (Route.namesOf d), Route.IsName m :=
    fun m hm => Route.isName_of_mem_namesOf (mem_of_mem_cancel hm)
  have hend : ¬(Route.leading d = 0 ∧
      cancel (Route.ofText d).isAbsolute (Route.namesOf d) ++ [f] = []) := by simp
  rw [normal_join d hhead, hnames, cancel_concat _ _ hup, Route.text, if_neg hend,
    directory_slashes_join _ hcancel hf.not_mem, ofText_normal, Route.ofText,
    Route.leading_of_slashes (Route.leading_le d) (Route.head?_join_names hcancel),
    Route.namesOf_slashes, Route.namesOf_join hcancel]

end Path
end Splice
