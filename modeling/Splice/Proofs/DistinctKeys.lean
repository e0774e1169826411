import Splice.Toml.Document

set_option autoImplicit false

namespace Splice

namespace Keyed

universe u v
variable {κ : Type u} {α : Type v} [DecidableEq κ] {k : κ} {a : α} {l m : List (κ × α)}

theorem eq_or_mem_of_mem_put {p : κ × α} (h : p ∈ put k a l) : p = (k, a) ∨ p ∈ l := by
  induction l with
  | nil => exact .inl (List.mem_singleton.1 h)
  | cons q l ih =>
    unfold put at h
    split at h
    · rename_i hq
      rcases List.mem_cons.1 h with rfl | h
      · exact .inl (by rw [hq])
      · exact .inr (List.mem_cons_of_mem _ h)
    · rcases List.mem_cons.1 h with rfl | h
      · exact .inr List.mem_cons_self
      · exact (ih h).imp id (List.mem_cons_of_mem _)

theorem eq_of_get? (hk : keys l = keys m) (hl : (keys l).Nodup)
    (h : ∀ k, get? k l = get? k m) : l = m := by
  induction l generalizing m with
  | nil => exact (List.map_eq_nil_iff.1 hk.symm).symm
  | cons p l ih =>
    cases m with
    | nil => cases hk
    | cons q m =>
      obtain ⟨j, a⟩ := p
      obtain ⟨j', b⟩ := q
      obtain ⟨rfl, hkeys⟩ := List.cons.inj hk
      rw [keys_cons, List.nodup_cons] at hl
      have hhead := h j
      simp only [get?, if_true, Option.some.injEq] at hhead
      have hrest : ∀ k, get? k l = get? k m := by
        intro k
        by_cases hj : j = k
        · subst hj
          have hm : j ∉ keys m := fun hj => hl.1 ((congrArg (j ∈ ·) hkeys).mpr hj)
          rw [get?_eq_none_iff.2 hl.1, get?_eq_none_iff.2 hm]
        · simpa [get?, hj] using h k
      rw [hhead, ih hkeys hl.2 hrest]

end Keyed

namespace Value

mutual

def isDistinct : Value → Bool
  | list vs => areDistinct vs
  | table es => (Keyed.keys es).Nodup && areEntriesDistinct es
  | _ => true

def areDistinct : List Value → Bool
  | [] => true
  | v :: vs => isDistinct v && areDistinct vs

def areEntriesDistinct : List (Text × Value) → Bool
  | [] => true
  | (_, v) :: es => isDistinct v && areEntriesDistinct es

end

theorem areDistinct_iff {vs : List Value} : areDistinct vs ↔ ∀ v ∈ vs, v.isDistinct := by
  induction vs with
  | nil => simp [areDistinct]
  | cons v vs ih => simp [areDistinct, ih]

theorem areEntriesDistinct_iff {es : Table} : areEntriesDistinct es ↔ ∀ p ∈ es, p.2.isDistinct := by
  induction es with
  | nil => simp [areEntriesDistinct]
  | cons p es ih =>
    obtain ⟨k, v⟩ := p
    simp [areEntriesDistinct, ih]

theorem isDistinct_list {vs : List Value} : (list vs).isDistinct ↔ ∀ v ∈ vs, v.isDistinct := by
  rw [isDistinct, areDistinct_iff]

theorem isDistinct_table {es : Table} :
    (table es).isDistinct ↔ (Keyed.keys es).Nodup ∧ ∀ p ∈ es, p.2.isDistinct := by
  rw [isDistinct, Bool.and_eq_true, decide_eq_true_iff, areEntriesDistinct_iff]

variable {t u : Table} {k : Text} {v : Value}

theorem isDistinct_of_get? (h : (table t).isDistinct) (hv : Keyed.get? k t = some v) :
    v.isDistinct :=
  (isDistinct_table.1 h).2 _ (Keyed.mem_of_get? hv)

theorem isDistinct_put (h : (table t).isDistinct) (hv : v.isDistinct) :
    (table (Keyed.put k v t)).isDistinct := by
  rw [isDistinct_table] at h ⊢
  refine ⟨Keyed.nodup_keys_put h.1, fun p hp => ?_⟩
  rcases Keyed.eq_or_mem_of_mem_put hp with rfl | hp
  · exact hv
  · exact h.2 p hp

end Value

namespace Toml

variable {t u : Table} {k : Text} {v : Value} {path : List Text} {s rest : Text}

theorem isDistinct_within {change : Table → Option Table}
    (hchange : ∀ t u, change t = some u → (Value.table t).isDistinct → (Value.table u).isDistinct)
    (h : within change path t = some u) (ht : (Value.table t).isDistinct) :
    (Value.table u).isDistinct := by
  induction path generalizing t u with
  | nil => exact hchange t u h ht
  | cons k path ih =>
    unfold within at h
    split at h
    · obtain ⟨w, hw, rfl⟩ := Option.map_eq_some_iff.1 h
      exact Value.isDistinct_put ht (ih hw rfl)
    · rename_i u' hu'
      obtain ⟨w, hw, rfl⟩ := Option.map_eq_some_iff.1 h
      exact Value.isDistinct_put ht (ih hw (Value.isDistinct_of_get? ht hu'))
    · rename_i vs hvs
      have hall := Value.isDistinct_list.1 (Value.isDistinct_of_get? ht hvs)
      split at h
      · rename_i u' hlast
        obtain ⟨w, hw, rfl⟩ := Option.map_eq_some_iff.1 h
        have hw := ih hw (hall _ (List.mem_of_getLast? hlast))
        refine Value.isDistinct_put ht (Value.isDistinct_list.2 fun x hx => ?_)
        rcases List.mem_append.1 hx with hx | hx
        · exact hall x (List.dropLast_subset vs hx)
        · rw [List.mem_singleton.1 hx]
          exact hw
      · cases h
    · cases h

theorem isDistinct_define (hv : v.isDistinct) (h : define k v t = some u)
    (ht : (Value.table t).isDistinct) : (Value.table u).isDistinct := by
  unfold define at h
  split at h
  · cases h
  · cases h
    exact Value.isDistinct_put ht hv

theorem isDistinct_addElement (h : addElement k t = some u) (ht : (Value.table t).isDistinct) :
    (Value.table u).isDistinct := by
  unfold addElement at h
  split at h
  · cases h
    exact Value.isDistinct_put ht rfl
  · rename_i vs hvs
    cases h
    have hall := Value.isDistinct_list.1 (Value.isDistinct_of_get? ht hvs)
    refine Value.isDistinct_put ht (Value.isDistinct_list.2 fun x hx => ?_)
    rcases List.mem_append.1 hx with hx | hx
    · exact hall x hx
    · rw [List.mem_singleton.1 hx]
      rfl
  · cases h

theorem isDistinct_based? (h : based? s = some (v, rest)) : v.isDistinct := by
  unfold based? at h
  split at h
  · split at h
    · cases h
    · split at h <;> cases h
      rfl
  · cases h

theorem isDistinct_decimal? (h : decimal? s = some (v, rest)) : v.isDistinct := by
  unfold decimal? at h
  simp only at h
  split at h
  · cases h
  · split at h
    · cases h
      rfl
    · split at h <;> cases h <;> rfl

theorem isDistinct_wordFloat? (h : wordFloat? s = some (v, rest)) : v.isDistinct := by
  unfold wordFloat? at h
  simp only at h
  split at h <;> cases h <;> rfl

theorem isDistinct_scalar? (h : scalar? s = some (v, rest)) : v.isDistinct := by
  rw [scalar?, Option.orElse_eq_orElse, Option.orElse_eq_or, Option.or_eq_some_iff] at h
  rcases h with h | ⟨-, h⟩
  · obtain ⟨p, -, hp⟩ := Option.map_eq_some_iff.1 h
    cases hp
    rfl
  · unfold number? at h
    split at h <;> rw [Option.orElse_eq_orElse, Option.orElse_eq_or, Option.or_eq_some_iff] at h
    · exact h.elim isDistinct_based? fun h => isDistinct_decimal? h.2
    · exact h.elim isDistinct_decimal? fun h => isDistinct_wordFloat? h.2

theorem isDistinct_addEntry {m m' : Marks} (hv : v.isDistinct)
    (h : addEntry path v t m = some (u, m')) (ht : (Value.table t).isDistinct) :
    (Value.table u).isDistinct := by
  unfold addEntry at h
  split at h
  · cases h
  · split at h
    · cases h
    · obtain ⟨w, hw, he⟩ := Option.map_eq_some_iff.1 h
      cases he
      exact isDistinct_within (fun _ _ => isDistinct_define hv) hw ht

theorem isDistinct_read (fuel : Nat) :
    (∀ s v rest, value? fuel s = some (v, rest) → v.isDistinct) ∧
    (∀ s vs rest, items? fuel s = some (vs, rest) → ∀ v ∈ vs, v.isDistinct) ∧
    ∀ s t marks u rest, entries? fuel s t marks = some (u, rest) →
      (Value.table t).isDistinct → (Value.table u).isDistinct := by
  induction fuel with
  | zero => simp [value?, items?, entries?]
  | succ fuel ih =>
    obtain ⟨hvalue, hitems, hentries⟩ := ih
    refine ⟨fun s v rest h => ?_, fun s vs rest h => ?_, fun s t marks u rest h ht => ?_⟩
    · unfold value? at h
      split at h
      · obtain ⟨p, -, he⟩ := Option.map_eq_some_iff.1 h
        cases he
        rfl
      · obtain ⟨p, -, he⟩ := Option.map_eq_some_iff.1 h
        cases he
        rfl
      · cases h
        rfl
      · cases h
        rfl
      · obtain ⟨s', -, h⟩ := Option.bind_eq_some_iff.1 h
        obtain ⟨p, hp, he⟩ := Option.map_eq_some_iff.1 h
        cases he
        exact Value.isDistinct_list.2 (hitems _ _ _ hp)
      · split at h
        · cases h
          rfl
        · obtain ⟨p, hp, he⟩ := Option.map_eq_some_iff.1 h
          cases he
          exact hentries _ _ _ _ _ hp rfl
      · exact isDistinct_scalar? h
    · unfold items? at h
      split at h
      · cases h
        simp
      · split at h
        · cases h
        · rename_i v s' hv
          have hv := hvalue _ _ _ hv
          split at h
          · cases h
            simpa using hv
          · obtain ⟨s'', -, h⟩ := Option.bind_eq_some_iff.1 h
            obtain ⟨p, hp, he⟩ := Option.map_eq_some_iff.1 h
            cases he
            exact List.forall_mem_cons.2 ⟨hv, hitems _ _ _ hp⟩
          · cases h
    · unfold entries? at h
      split at h
      · split at h
        · cases h
        · rename_i v s' hv
          split at h
          · cases h
          · rename_i t' marks' hadd
            have ht' := isDistinct_addEntry (hvalue _ _ _ hv) hadd ht
            split at h
            · cases h
              exact ht'
            · exact hentries _ _ _ _ _ h ht'
            · cases h
      · cases h

theorem isDistinct_pair? (h : pair? s = some (path, v, rest)) : v.isDistinct := by
  unfold pair? at h
  split at h
  · obtain ⟨p, hp, he⟩ := Option.map_eq_some_iff.1 h
    cases he
    exact (isDistinct_read _).1 _ _ _ hp
  · cases h

namespace Draft

variable {d e : Draft}

theorem isDistinct_addEntry (hv : v.isDistinct) (h : d.addEntry path v = some e)
    (hd : (Value.table d.root).isDistinct) : (Value.table e.root).isDistinct := by
  unfold addEntry at h
  split at h
  · cases h
  · simp only at h
    split at h
    · cases h
    · obtain ⟨root, hroot, rfl⟩ := Option.map_eq_some_iff.1 h
      exact isDistinct_within (fun _ _ => isDistinct_define hv) hroot hd

theorem isDistinct_openTable (h : d.openTable path = some e)
    (hd : (Value.table d.root).isDistinct) : (Value.table e.root).isDistinct := by
  unfold openTable at h
  split at h
  · cases h
  · obtain ⟨root, hroot, rfl⟩ := Option.map_eq_some_iff.1 h
    exact isDistinct_within (fun _ _ he ht => Option.some.inj he ▸ ht) hroot hd

theorem isDistinct_openElement (h : d.openElement path = some e)
    (hd : (Value.table d.root).isDistinct) : (Value.table e.root).isDistinct := by
  unfold openElement at h
  split at h
  · cases h
  · split at h
    · cases h
    · obtain ⟨root, hroot, rfl⟩ := Option.map_eq_some_iff.1 h
      exact isDistinct_within (fun _ _ => isDistinct_addElement) hroot hd

end Draft

variable {d e : Draft}

theorem isDistinct_header? (h : header? d s = some (e, rest))
    (hd : (Value.table d.root).isDistinct) : (Value.table e.root).isDistinct := by
  unfold header? at h
  split at h
  · split at h
    · obtain ⟨e', he, heq⟩ := Option.map_eq_some_iff.1 h
      cases heq
      exact Draft.isDistinct_openElement he hd
    · cases h
  · split at h
    · obtain ⟨e', he, heq⟩ := Option.map_eq_some_iff.1 h
      cases heq
      exact Draft.isDistinct_openTable he hd
    · cases h

theorem isDistinct_statement? (h : statement? d s = some (e, rest))
    (hd : (Value.table d.root).isDistinct) : (Value.table e.root).isDistinct := by
  unfold statement? at h
  split at h
  · cases h
    exact hd
  · cases h
    exact hd
  · cases h
    exact hd
  · exact isDistinct_header? h hd
  · split at h
    · rename_i path v s' hpair
      obtain ⟨e', he, heq⟩ := Option.map_eq_some_iff.1 h
      cases heq
      exact Draft.isDistinct_addEntry (isDistinct_pair? hpair) he hd
    · cases h

theorem isDistinct_statements? {fuel : Nat} (h : statements? fuel d s = some e)
    (hd : (Value.table d.root).isDistinct) : (Value.table e.root).isDistinct := by
  induction fuel generalizing d s with
  | zero => cases h
  | succ fuel ih =>
    unfold statements? at h
    split at h
    · cases h
    · rename_i d' s' hline
      have hd' := isDistinct_statement? hline hd
      split at h
      · cases h
        exact hd'
      · exact ih h hd'
      · cases h

/-- The table of a document has distinct keys at every depth. -/
theorem isDistinct_parse (h : parse s = .ok t) : (Value.table t).isDistinct := by
  unfold parse at h
  split at h
  · rename_i d hd
    cases h
    exact isDistinct_statements? hd rfl
  · cases h

end Toml
end Splice
