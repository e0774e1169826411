import Splice.Config
import Splice.Proofs.DistinctKeys

/-!
Merged configurations. What a merged table holds is said path by path: where the changes have
something else than a table, it is theirs; where they have nothing, and nothing else than tables on
the way, it is what the base has; and where both have tables, it is their merge. So a table without
entries changes nothing on either side, and making the same changes twice, or changes that are
there, does nothing. Changes can be gathered before they are made, unless a table would come back
that something else had replaced.
-/

set_option autoImplicit false

namespace Splice

namespace Value

def isTable : Value → Bool
  | table _ => true
  | _ => false

/-- The value at a path of keys, through nested tables. -/
def at? : List Text → Value → Option Value
  | [], v => some v
  | k :: path, table t => (Keyed.get? k t).bind (at? path)
  | _ :: _, _ => none

theorem isTable_iff {v : Value} : v.isTable ↔ ∃ t, v = table t := by
  cases v <;> simp [isTable]

theorem at?_cons {k : Text} {path : List Text} {t : Table} :
    at? (k :: path) (table t) = (Keyed.get? k t).bind (at? path) := rfl

theorem isTable_of_at? {path : List Text} {v w : Value} (h : at? path v = some w)
    (hw : w.isTable) : v.isTable := by
  cases path with
  | nil => exact Option.some.inj h ▸ hw
  | cons k path =>
    cases v with
    | table t => rfl
    | _ => cases h

/-- Induction over nested tables: a table may be taken to be as all tables in it are. -/
theorem nested_induction {P : Table → Prop}
    (h : ∀ t, (∀ k u, (k, table u) ∈ t → P u) → P t) (t : Table) : P t := by
  refine h t fun k u hu => ?_
  have hsize : sizeOf u < sizeOf t := by
    have hlt := List.sizeOf_lt_of_mem hu
    simp only [Prod.mk.sizeOf_spec, table.sizeOf_spec] at hlt
    omega
  exact nested_induction h u
termination_by sizeOf t

theorem copyCallsOfEntries_le_iff {t : Table} {n : Nat} :
    copyCallsOfEntries t ≤ n ↔ ∀ p ∈ t, p.2.copyCalls ≤ n := by
  induction t with
  | nil => simp [copyCallsOfEntries]
  | cons p t ih => rw [copyCallsOfEntries, Nat.max_le, ih, List.forall_mem_cons]

theorem copyCalls_table_le_iff {t : Table} {n : Nat} :
    (table t).copyCalls ≤ n + 2 ↔ ∀ p ∈ t, p.2.copyCalls ≤ n := by
  rw [copyCalls, Nat.add_le_add_iff_right, copyCallsOfEntries_le_iff]

theorem copyCalls_table (t : Table) : ∃ n, (table t).copyCalls = n + 2 := ⟨_, rfl⟩

end Value

namespace Config

open Value (at?)

variable {a b c base changes : Table} {k : Text} {v w : Value}

theorem merge_cons :
    merge base ((k, v) :: changes) =
      merge (Keyed.put k (overlay (Keyed.get? k base) v) base) changes := rfl

@[simp] theorem overlay_tables :
    overlay (some (.table base)) (.table changes) = .table (merge base changes) := rfl

theorem overlay_eq {o : Option Value} (h : ∀ s t, o = some (.table s) → v ≠ .table t) :
    overlay o v = v := by
  unfold overlay
  split
  · exact absurd rfl (h _ _ rfl)
  · rfl

@[simp] theorem overlay_none : overlay none v = v := overlay_eq fun _ _ he => by cases he

theorem overlay_cases (o : Option Value) (v : Value) :
    (∃ s t, o = some (.table s) ∧ v = .table t) ∨ overlay o v = v := by
  by_cases h : ∃ s t, o = some (.table s) ∧ v = .table t
  · exact .inl h
  · exact .inr (overlay_eq fun s t ho hv => h ⟨s, t, ho, hv⟩)

theorem overlay_of_plain {o : Option Value} (h : v.isTable = false) : overlay o v = v :=
  overlay_eq fun _ _ _ hv => by cases hv ▸ h

theorem overlay_on_plain (h : w.isTable = false) : overlay (some w) v = v :=
  overlay_eq fun _ _ hw => by cases Option.some.inj hw ▸ h

def layer (x : Option Value) : Option Value → Option Value
  | none => x
  | some v => some (overlay x v)

@[simp] theorem layer_none (x : Option Value) : layer x none = x := rfl

@[simp] theorem layer_some (x : Option Value) : layer x (some v) = some (overlay x v) := rfl

theorem get?_merge (h : (Keyed.keys changes).Nodup) :
    Keyed.get? k (merge base changes) = layer (Keyed.get? k base) (Keyed.get? k changes) := by
  induction changes generalizing base with
  | nil => rfl
  | cons p changes ih =>
    obtain ⟨j, v⟩ := p
    rw [Keyed.keys_cons, List.nodup_cons] at h
    rw [merge_cons, ih h.2, Keyed.get?_put]
    by_cases hk : k = j
    · subst hk
      have hnone : Keyed.get? k changes = none := Keyed.get?_eq_none_iff.2 h.1
      simp [Keyed.get?, hnone]
    · simp [Keyed.get?, hk, Ne.symm hk]

theorem nodup_keys_merge (h : (Keyed.keys base).Nodup) :
    (Keyed.keys (merge base changes)).Nodup := by
  induction changes generalizing base with
  | nil => exact h
  | cons p changes ih => exact ih (Keyed.nodup_keys_put h)

theorem mem_keys_merge : k ∈ Keyed.keys (merge base changes) ↔
    k ∈ Keyed.keys base ∨ k ∈ Keyed.keys changes := by
  induction changes generalizing base with
  | nil => simp [merge]
  | cons p changes ih =>
    rw [merge_cons, ih, Keyed.mem_keys_put, Keyed.keys_cons, List.mem_cons, or_assoc, or_left_comm]

theorem keys_merge (h : (Keyed.keys changes).Nodup) :
    Keyed.keys (merge base changes) =
      Keyed.keys base ++ (Keyed.keys changes).filter (· ∉ Keyed.keys base) := by
  induction changes generalizing base with
  | nil => simp [merge]
  | cons p changes ih =>
    obtain ⟨j, v⟩ := p
    rw [Keyed.keys_cons, List.nodup_cons] at h
    rw [merge_cons, ih h.2, Keyed.keys_put, Keyed.keys_cons]
    by_cases hj : j ∈ Keyed.keys base
    · simp [hj]
    · have hrest : (Keyed.keys changes).filter (· ∉ Keyed.keys base ++ [j]) =
          (Keyed.keys changes).filter (· ∉ Keyed.keys base) := by
        refine List.filter_congr fun k hk => ?_
        have hne : k ≠ j := fun e => h.1 (e ▸ hk)
        simp [hne]
      rw [if_neg hj, hrest]
      simp [hj]

section Paths

variable {path : List Text}

theorem at?_merge_cons (hc : (Value.table changes).isDistinct) :
    at? (k :: path) (.table (merge base changes)) =
      (layer (Keyed.get? k base) (Keyed.get? k changes)).bind (at? path) := by
  rw [Value.at?_cons, get?_merge (Value.isDistinct_table.1 hc).1]

theorem at?_merge_of_changed (hc : (Value.table changes).isDistinct)
    (h : at? path (.table changes) = some v)
    (hv : ∀ s t, at? path (.table base) = some (.table s) → v ≠ .table t) :
    at? path (.table (merge base changes)) = some v := by
  induction path generalizing base changes with
  | nil =>
    cases h
    exact absurd rfl (hv base changes rfl)
  | cons k path ih =>
    obtain ⟨x, hx, h⟩ := Option.bind_eq_some_iff.1 h
    rw [at?_merge_cons hc, hx]
    rcases overlay_cases (Keyed.get? k base) x with ⟨s, t, hs, rfl⟩ | hover
    · rw [Value.at?_cons, hs] at hv
      rw [hs]
      exact ih (Value.isDistinct_of_get? hc hx) h hv
    · simpa [hover] using h

theorem at?_merge_of_unchanged (hc : (Value.table changes).isDistinct)
    (h : at? path (.table changes) = none)
    (hway : ∀ start w, start <+: path → at? start (.table changes) = some w → w.isTable) :
    at? path (.table (merge base changes)) = at? path (.table base) := by
  induction path generalizing base changes with
  | nil => cases h
  | cons k path ih =>
    rw [at?_merge_cons hc, Value.at?_cons]
    cases hx : Keyed.get? k changes with
    | none => rfl
    | some x =>
      have hstart : at? [k] (.table changes) = some x := by rw [Value.at?_cons, hx]; rfl
      obtain ⟨t, rfl⟩ := Value.isTable_iff.1 (hway [k] x ⟨path, rfl⟩ hstart)
      have hbelow : at? path (.table t) = none := by rwa [Value.at?_cons, hx] at h
      have hplain : ∀ w : Value, w.isTable = false → at? path w = none := by
        intro w hw
        cases path with
        | nil => cases hbelow
        | cons => cases w <;> first | rfl | cases hw
      cases hy : Keyed.get? k base with
      | none => simpa using hbelow
      | some y =>
        cases hty : y.isTable with
        | false => simpa [overlay_on_plain hty, hplain y hty] using hbelow
        | true =>
          obtain ⟨s, rfl⟩ := Value.isTable_iff.1 hty
          refine ih (Value.isDistinct_of_get? hc hx) hbelow fun start w hw hat => ?_
          refine hway (k :: start) w (List.cons_prefix_cons.2 ⟨rfl, hw⟩) ?_
          rwa [Value.at?_cons, hx]

theorem at?_of_at?_merge (hc : (Value.table changes).isDistinct)
    (h : at? path (.table (merge base changes)) = some v) (hv : v.isTable = false) :
    at? path (.table changes) = some v ∨ at? path (.table base) = some v := by
  induction path generalizing base changes with
  | nil =>
    cases h
    cases hv
  | cons k path ih =>
    rw [at?_merge_cons hc] at h
    rw [Value.at?_cons, Value.at?_cons]
    cases hx : Keyed.get? k changes with
    | none =>
      rw [hx] at h
      exact .inr h
    | some x =>
      rw [hx] at h
      rcases overlay_cases (Keyed.get? k base) x with ⟨s, t, hs, rfl⟩ | hover
      · rw [hs] at h ⊢
        exact ih (Value.isDistinct_of_get? hc hx) h
      · exact .inl (by simpa [hover] using h)

theorem at?_merge_tables (hc : (Value.table changes).isDistinct)
    (hb : at? path (.table base) = some (.table a))
    (h : at? path (.table changes) = some (.table c)) :
    at? path (.table (merge base changes)) = some (.table (merge a c)) := by
  induction path generalizing base changes with
  | nil =>
    cases hb
    cases h
    rfl
  | cons k path ih =>
    obtain ⟨x, hx, h⟩ := Option.bind_eq_some_iff.1 h
    obtain ⟨y, hy, hb⟩ := Option.bind_eq_some_iff.1 hb
    obtain ⟨t, rfl⟩ := Value.isTable_iff.1 (Value.isTable_of_at? h rfl)
    obtain ⟨s, rfl⟩ := Value.isTable_iff.1 (Value.isTable_of_at? hb rfl)
    rw [at?_merge_cons hc, hx, hy]
    exact ih (Value.isDistinct_of_get? hc hx) hb h

end Paths

theorem merge_nil_left (h : (Keyed.keys changes).Nodup) : merge [] changes = changes := by
  have hk : Keyed.keys (merge [] changes) = Keyed.keys changes := by
    rw [keys_merge h]
    simp
  refine Keyed.eq_of_get? hk (hk ▸ h) fun k => ?_
  rw [get?_merge h]
  cases Keyed.get? k changes <;> simp [Keyed.get?]

theorem merge_self (h : (Value.table a).isDistinct) : merge a a = a := by
  induction a using Value.nested_induction with
  | h a ih =>
    have hnodup := (Value.isDistinct_table.1 h).1
    have hk : Keyed.keys (merge a a) = Keyed.keys a := by
      rw [keys_merge hnodup]
      simp
    refine Keyed.eq_of_get? hk (hk ▸ hnodup) fun k => ?_
    rw [get?_merge hnodup]
    cases hv : Keyed.get? k a with
    | none => rfl
    | some v =>
      rcases overlay_cases (some v) v with ⟨s, t, -, rfl⟩ | hover
      · simp [ih k t (Keyed.mem_of_get? hv) (Value.isDistinct_of_get? h hv)]
      · simp [hover]

theorem merge_merge_self (ha : (Value.table a).isDistinct) (hb : (Value.table b).isDistinct) :
    merge (merge a b) b = merge a b := by
  induction b using Value.nested_induction generalizing a with
  | h b ih =>
    have hnodup := (Value.isDistinct_table.1 hb).1
    have hmerged : (Keyed.keys (merge a b)).Nodup :=
      nodup_keys_merge (Value.isDistinct_table.1 ha).1
    have hk : Keyed.keys (merge (merge a b) b) = Keyed.keys (merge a b) := by
      rw [keys_merge hnodup, List.filter_eq_nil_iff.2, List.append_nil]
      intro k hk
      simp [mem_keys_merge, hk]
    refine Keyed.eq_of_get? hk (hk ▸ hmerged) fun k => ?_
    rw [get?_merge hnodup, get?_merge hnodup]
    cases hv : Keyed.get? k b with
    | none => rfl
    | some v =>
      have hdistinct := Value.isDistinct_of_get? hb hv
      rcases overlay_cases (Keyed.get? k a) v with ⟨s, t, hs, rfl⟩ | hover
      · simp [hs, ih k t (Keyed.mem_of_get? hv) (Value.isDistinct_of_get? ha hs) hdistinct]
      · rcases overlay_cases (some v) v with ⟨s, t, -, rfl⟩ | hself
        · simp [hover, merge_self hdistinct]
        · simp [hover, hself]

theorem layer_assoc {x y z : Option Value}
    (htables : ∀ s t u, x = some (.table s) → y = some (.table t) → z = some (.table u) →
      merge (merge s t) u = merge s (merge t u))
    (hplain : ∀ s t v, x = some (.table s) → z = some (.table t) → y = some v → v.isTable) :
    layer (layer x y) z = layer x (layer y z) := by
  cases z with
  | none => rfl
  | some w =>
    cases y with
    | none => simp
    | some v =>
      simp only [layer_some, Option.some.injEq]
      cases hw : w.isTable with
      | false => simp only [overlay_of_plain hw]
      | true =>
        obtain ⟨u, rfl⟩ := Value.isTable_iff.1 hw
        by_cases hx : ∃ s, x = some (.table s)
        · obtain ⟨s, rfl⟩ := hx
          obtain ⟨t, rfl⟩ := Value.isTable_iff.1 (hplain s u v rfl rfl rfl)
          simp only [overlay_tables, htables s t u rfl rfl rfl]
        · have hover : ∀ v, overlay x v = v := fun v => overlay_eq fun s _ hs => absurd ⟨s, hs⟩ hx
          simp only [hover]

theorem merge_assoc (ha : (Value.table a).isDistinct) (hb : (Value.table b).isDistinct)
    (hc : (Value.table c).isDistinct)
    (h : ∀ path s t v, at? path (.table a) = some (.table s) →
      at? path (.table c) = some (.table t) → at? path (.table b) = some v → v.isTable) :
    merge (merge a b) c = merge a (merge b c) := by
  induction b using Value.nested_induction generalizing a c with
  | h b ih =>
    have ha' := (Value.isDistinct_table.1 ha).1
    have hb' := (Value.isDistinct_table.1 hb).1
    have hc' := (Value.isDistinct_table.1 hc).1
    have hbc : (Keyed.keys (merge b c)).Nodup := nodup_keys_merge hb'
    have hk : Keyed.keys (merge (merge a b) c) = Keyed.keys (merge a (merge b c)) := by
      rw [keys_merge hc', keys_merge hbc, keys_merge hb', keys_merge hc', List.append_assoc,
        List.filter_append, List.filter_filter]
      congr 2
      refine List.filter_congr fun k _ => ?_
      by_cases hka : k ∈ Keyed.keys a <;> simp [hka]
    refine Keyed.eq_of_get? hk (nodup_keys_merge (nodup_keys_merge ha')) fun k => ?_
    rw [get?_merge hc', get?_merge hbc, get?_merge hb', get?_merge hc']
    refine layer_assoc (fun s t u hs ht hu => ?_) fun s t v hs ht hv => ?_
    · refine ih k t (Keyed.mem_of_get? ht) (Value.isDistinct_of_get? ha hs)
        (Value.isDistinct_of_get? hb ht) (Value.isDistinct_of_get? hc hu)
        fun path s' t' v hs' ht' hv => ?_
      refine h (k :: path) s' t' v ?_ ?_ ?_ <;> rwa [Value.at?_cons, ‹Keyed.get? k _ = _›]
    · refine h [k] s t v ?_ ?_ ?_ <;> rw [Value.at?_cons, ‹Keyed.get? k _ = _›] <;> rfl

/-- What it means that a table is the deep merge of two others. -/
structure IsDeepMerge (base changes merged : Table) : Prop where
  /-- What the changes have counts, unless it is a table over a table. -/
  changed : ∀ path v, at? path (.table changes) = some v →
    (v.isTable → ∀ s, at? path (.table base) ≠ some (.table s)) → at? path (.table merged) = some v
  /-- Where the changes have nothing, and nothing else than tables on the way, the base stays. -/
  unchanged : ∀ path, at? path (.table changes) = none →
    (∀ start v, start <+: path → at? start (.table changes) = some v → v.isTable) →
      at? path (.table merged) = at? path (.table base)
  /-- What is no table comes from one of the two. -/
  origin : ∀ path v, at? path (.table merged) = some v → v.isTable = false →
    at? path (.table changes) = some v ∨ at? path (.table base) = some v
  /-- The keys of the base come first, then the new ones, each in their order. -/
  keys : Keyed.keys merged =
    Keyed.keys base ++ (Keyed.keys changes).filter (· ∉ Keyed.keys base)
  /-- Tables at one path are merged in the same way. -/
  nested : ∀ path b c, at? path (.table base) = some (.table b) →
    at? path (.table changes) = some (.table c) →
      at? path (.table merged) = some (.table (merge b c))

theorem isDeepMerge_merge (hc : (Value.table changes).isDistinct) :
    IsDeepMerge base changes (merge base changes) where
  changed _ _ h hv := at?_merge_of_changed hc h fun s _ hs he =>
    hv (Value.isTable_iff.2 ⟨_, he⟩) s hs
  unchanged _ := at?_merge_of_unchanged hc
  origin _ _ := at?_of_at?_merge hc
  keys := keys_merge (Value.isDistinct_table.1 hc).1
  nested _ _ _ := at?_merge_tables hc

section Calls

variable {n : Nat}

theorem copyCalls_merge_le (ha : ∀ p ∈ a, p.2.copyCalls ≤ n) (hb : ∀ p ∈ b, p.2.copyCalls ≤ n) :
    ∀ p ∈ merge a b, p.2.copyCalls ≤ n := by
  induction b using Value.nested_induction generalizing a n with
  | h b ih =>
    have hover : ∀ k v, (k, v) ∈ b → ∀ o, (∀ w, o = some w → w.copyCalls ≤ n) →
        (overlay o v).copyCalls ≤ n := by
      intro k v hv o ho
      rcases overlay_cases o v with ⟨s, t, rfl, rfl⟩ | hover
      · obtain ⟨j, hj⟩ : ∃ j, n = j + 2 := by
          obtain ⟨i, hi⟩ := Value.copyCalls_table t
          have hle := hi ▸ hb _ hv
          exact ⟨n - 2, by omega⟩
        subst hj
        rw [overlay_tables, Value.copyCalls_table_le_iff]
        exact ih k t hv (Value.copyCalls_table_le_iff.1 (ho _ rfl))
          (Value.copyCalls_table_le_iff.1 (hb _ hv))
      · rw [hover]
        exact hb _ hv
    -- The tables inside are settled, so an induction on the entries is left.
    clear ih hb
    induction b generalizing a with
    | nil => exact ha
    | cons e b ih =>
      obtain ⟨k, v⟩ := e
      rw [merge_cons]
      refine ih (fun p hp => ?_) fun k v hv => hover k v (List.mem_cons_of_mem _ hv)
      rcases Keyed.eq_or_mem_of_mem_put hp with rfl | hp
      · exact hover k v List.mem_cons_self _ fun w hw => ha _ (Keyed.mem_of_get? hw)
      · exact ha p hp

/-- A merge takes one call more than the copy of one of its tables, and no more. -/
theorem mergeCalls_le (ha : (Value.table a).copyCalls ≤ n) (hb : (Value.table b).copyCalls ≤ n) :
    mergeCalls a b ≤ n + 1 := by
  induction b using Value.nested_induction generalizing a n with
  | h b ih =>
    obtain ⟨i, hi⟩ := Value.copyCalls_table a
    obtain ⟨j, rfl⟩ : ∃ j, n = j + 2 := ⟨n - 2, by omega⟩
    have ha' := Value.copyCalls_table_le_iff.1 ha
    have hb' := Value.copyCalls_table_le_iff.1 hb
    have hover : ∀ k v, (k, v) ∈ b → overlayCalls (Keyed.get? k a) v ≤ j + 1 := by
      intro k v hv
      unfold overlayCalls
      split
      · rename_i s t hs
        exact ih k t hv (ha' _ (Keyed.mem_of_get? hs)) (hb' _ hv)
      · exact Nat.le_succ_of_le (hb' _ hv)
    -- As before, with the entries of `a` as they were: the calls of a merge are counted on them.
    clear ih hb hb'
    induction b with
    | nil => exact Nat.succ_le_succ ha
    | cons e b ih =>
      obtain ⟨k, v⟩ := e
      have hfirst := hover k v List.mem_cons_self
      have hrest := ih fun k v hv => hover k v (List.mem_cons_of_mem _ hv)
      rw [mergeCalls, Nat.max_le]
      exact ⟨by omega, hrest⟩

theorem lt_mergeCalls (a b : Table) : (Value.table a).copyCalls < mergeCalls a b := by
  induction b with
  | nil => exact Nat.lt_succ_self _
  | cons e b ih => exact Nat.lt_of_lt_of_le ih (Nat.le_max_right _ _)

/-- The table can be copied within the limit of nested calls. -/
def Fits (t : Table) : Prop := (Value.table t).copyCalls < callLimit

instance (t : Table) : Decidable (Fits t) := inferInstanceAs (Decidable (_ < _))

theorem mergeTables_of_fits (ha : Fits a) (hb : Fits b) :
    mergeTables a b = .ok (merge a b) := by
  have hcalls := mergeCalls_le (n := callLimit - 1) (Nat.le_sub_one_of_lt ha)
    (Nat.le_sub_one_of_lt hb)
  exact if_neg (Nat.not_lt.2 hcalls)

theorem mergeTables_of_not_fits (ha : ¬Fits a) :
    mergeTables a b = .error (.tooDeep .copies) :=
  if_pos (Nat.lt_of_le_of_lt (Nat.not_lt.1 ha) (lt_mergeCalls a b))

theorem fits_merge (ha : Fits a) (hb : Fits b) : Fits (merge a b) := by
  have hentries : ∀ t, Fits t ↔ ∀ p ∈ t, p.2.copyCalls ≤ callLimit - 3 := fun t =>
    Nat.lt_succ_iff.trans Value.copyCalls_table_le_iff
  rw [hentries] at ha hb ⊢
  exact copyCalls_merge_le ha hb

theorem mergeTables_eq_ok_iff {m : Table} :
    mergeTables a b = .ok m ↔ mergeCalls a b ≤ callLimit ∧ m = merge a b := by
  unfold mergeTables
  split
  · rename_i h
    simp [Nat.not_le.2 h]
  · rename_i h
    simp [Nat.not_lt.1 h, eq_comm]

theorem mergeTables_cases (a b : Table) :
    mergeTables a b = .ok (merge a b) ∨ mergeTables a b = .error (.tooDeep .copies) := by
  unfold mergeTables
  split
  · exact .inr rfl
  · exact .inl rfl

end Calls

theorem mergeValues_eq_ok_iff {u : Value} : mergeValues v w = .ok u ↔
    (∃ base changes, v = .table base ∧ w = .table changes ∧
      mergeTables base changes = .ok (merge base changes) ∧ u = .table (merge base changes)) ∨
    v.isTable = false ∧ w = .table [] ∧ copied v = .ok u := by
  constructor
  · intro h
    unfold mergeValues at h
    split at h
    · rename_i base changes
      rcases mergeTables_cases base changes with hm | hm <;> rw [hm] at h <;> cases h
      exact .inl ⟨base, changes, rfl, rfl, hm, rfl⟩
    · rename_i hplain
      refine .inr ⟨?_, rfl, h⟩
      cases v with
      | table t => exact (hplain t rfl).elim
      | _ => rfl
    · cases hcopy : copied v <;> rw [hcopy] at h <;> cases h
    · rename_i x _ _ _
      cases hcopy : copied v <;> rw [hcopy] at h
      · cases h
      · cases hchange : copied x <;> rw [hchange] at h <;> cases h
    · cases hcopy : copied v <;> rw [hcopy] at h <;> cases h
  · rintro (⟨base, changes, rfl, rfl, hm, rfl⟩ | ⟨hv, rfl, hcopy⟩)
    · rw [mergeValues, hm]
      rfl
    · cases v with
      | table t => cases hv
      | _ => exact hcopy

/-- Configurations are merged deeply, unless that takes too many nested calls. For tables that can
be copied it does not, and merging has the laws that one expects of making changes: none do nothing,
changes of nothing are all there is, changes that are made already do nothing, and changes can be
gathered unless a table would come back. -/
theorem merge_laws (ha : (Value.table a).isDistinct) (hb : (Value.table b).isDistinct)
    (hc : (Value.table c).isDistinct) :
    (mergeTables a b = .error (.tooDeep .copies) ∨
      ∃ m, mergeTables a b = .ok m ∧ IsDeepMerge a b m) ∧
    (Fits a → Fits b → Fits c →
      (∃ m, mergeTables a b = .ok m ∧ IsDeepMerge a b m ∧ mergeTables m b = .ok m) ∧
      mergeTables a [] = .ok a ∧ mergeTables [] b = .ok b ∧ mergeTables a a = .ok a ∧
      ((∀ path s t v, at? path (.table a) = some (.table s) →
          at? path (.table c) = some (.table t) → at? path (.table b) = some v → v.isTable) →
        ∃ m, (mergeTables a b >>= fun ab => mergeTables ab c) = .ok m ∧
          (mergeTables b c >>= fun bc => mergeTables a bc) = .ok m)) := by
  have hnil : Fits [] := by decide
  refine ⟨?_, fun hfa hfb hfc => ?_⟩
  · rcases mergeTables_cases a b with h | h
    · exact .inr ⟨_, h, isDeepMerge_merge hb⟩
    · exact .inl h
  have hab := mergeTables_of_fits hfa hfb
  have hbc := mergeTables_of_fits hfb hfc
  refine ⟨⟨_, hab, isDeepMerge_merge hb, ?_⟩, mergeTables_of_fits hfa hnil, ?_, ?_, fun h => ?_⟩
  · rw [mergeTables_of_fits (fits_merge hfa hfb) hfb, merge_merge_self ha hb]
  · rw [mergeTables_of_fits hnil hfb, merge_nil_left (Value.isDistinct_table.1 hb).1]
  · rw [mergeTables_of_fits hfa hfa, merge_self ha]
  · refine ⟨merge (merge a b) c, ?_, ?_⟩
    · rw [hab]
      exact mergeTables_of_fits (fits_merge hfa hfb) hfc
    · rw [hbc, merge_assoc ha hb hc h]
      exact mergeTables_of_fits hfa (fits_merge hfb hfc)

def sections : Table :=
  [("s".toList, .table [("x".toList, .int 1), ("y".toList, .int 2)]),
    ("u".toList, .table [("w".toList, .int 3)])]

def clashing : Table :=
  [("u".toList, .int 4), ("s".toList, .table [("x".toList, .table [("z".toList, .int 5)])])]

def further : Table := [("s".toList, .table [("x".toList, .int 6)]), ("v".toList, .null)]

theorem sections_meet_further (path : List Text) (s t : Table) (v : Value)
    (_hs : at? path (.table sections) = some (.table s))
    (ht : at? path (.table further) = some (.table t))
    (hv : at? path (.table clashing) = some v) : v.isTable := by
  rcases path with _ | ⟨k, _ | ⟨j, path⟩⟩
  · cases hv
    rfl
  · simp only [at?, further, clashing, Keyed.get?] at ht hv
    split at ht
    · subst k
      cases hv
      rfl
    · split at ht <;> cases ht
  · -- The second changes have no table below a section.
    simp only [at?, further, Keyed.get?] at ht
    split at ht
    · simp only [Option.bind_some, at?, Keyed.get?] at ht
      split at ht
      · cases Value.isTable_of_at? ht rfl
      · cases ht
    · split at ht <;> cases ht

theorem merge_sections :
    (Value.table sections).isDistinct ∧ (Value.table clashing).isDistinct ∧
      (Value.table further).isDistinct ∧ Fits sections ∧ Fits clashing ∧ Fits further ∧
      (∃ m, mergeTables sections clashing = .ok m ∧ IsDeepMerge sections clashing m) ∧
      (mergeTables clashing further >>= fun m => mergeTables sections m) =
        .ok [("s".toList, .table [("x".toList, .int 6), ("y".toList, .int 2)]),
          ("u".toList, .int 4), ("v".toList, .null)] := by
  have hs : (Value.table sections).isDistinct := by decide
  have hc : (Value.table clashing).isDistinct := by decide
  have hf : (Value.table further).isDistinct := by decide
  have hfs : Fits sections := by decide
  have hfc : Fits clashing := by decide
  have hff : Fits further := by decide
  obtain ⟨-, hlaws⟩ := merge_laws hs hc hf
  obtain ⟨⟨m, hm, hdeep, -⟩, -, -, -, hassoc⟩ := hlaws hfs hfc hff
  obtain ⟨m', hleft, hright⟩ := hassoc sections_meet_further
  have hvalue : (mergeTables sections clashing >>= fun m => mergeTables m further) =
      .ok [("s".toList, .table [("x".toList, .int 6), ("y".toList, .int 2)]),
        ("u".toList, .int 4), ("v".toList, .null)] := rfl
  exact ⟨hs, hc, hf, hfs, hfc, hff, ⟨m, hm, hdeep⟩, hright.trans (hleft.symm.trans hvalue)⟩

def nest : Nat → Table
  | 0 => []
  | n + 1 => [(['k'], .table (nest n))]

theorem copyCalls_nest (n : Nat) : (Value.table (nest n)).copyCalls = 2 * n + 2 := by
  induction n with
  | zero => rfl
  | succ n ih =>
    have hentry : (Value.table (nest (n + 1))).copyCalls =
        max (Value.table (nest n)).copyCalls 0 + 2 := rfl
    rw [hentry, ih]
    omega

theorem isDistinct_nest (n : Nat) : (Value.table (nest n)).isDistinct := by
  induction n with
  | zero => rfl
  | succ n ih => exact Value.isDistinct_table.2 ⟨by simp [nest], by simpa [nest] using ih⟩

theorem fits_nest_iff (n : Nat) : Fits (nest n) ↔ n < 494 := by
  rw [Fits, copyCalls_nest, callLimit]
  omega

/-- Tables that are nested too deeply are not merged, though the laws say what comes out. -/
theorem mergeTables_nest :
    (Value.table (nest 600)).isDistinct ∧ merge (nest 600) [] = nest 600 ∧
      mergeTables (nest 600) [] = .error (.tooDeep .copies) ∧
      mergeTables [] (nest 600) = .error (.tooDeep .copies) ∧
      mergeTables (nest 600) (nest 600) = .error (.tooDeep .copies) := by
  have hno : ¬Fits (nest 600) := fun h => absurd ((fits_nest_iff 600).1 h) (by decide)
  have hcalls : mergeCalls [] (nest 600) =
      max ((Value.table (nest 599)).copyCalls + 1) (mergeCalls [] []) := rfl
  have hover : callLimit < mergeCalls [] (nest 600) := by
    rw [hcalls, copyCalls_nest, callLimit]
    omega
  exact ⟨isDistinct_nest 600, rfl, mergeTables_of_not_fits hno, if_pos hover,
    mergeTables_of_not_fits hno⟩

end Config
end Splice
