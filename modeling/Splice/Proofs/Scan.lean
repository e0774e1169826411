import Splice.Directive

set_option autoImplicit false

namespace Splice

namespace Reading

def directive? : Reading → Option Include
  | inclusion d => some d
  | _ => none

def fault? : Reading → Option Text
  | malformed message => some message
  | _ => none

theorem directive?_eq_some {x : Reading} {d : Include} :
    x.directive? = some d ↔ x = .inclusion d := by
  cases x <;> simp [directive?]

theorem fault?_eq_some {x : Reading} {message : Text} :
    x.fault? = some message ↔ x = .malformed message := by
  cases x <;> simp [fault?]

theorem fault?_eq_none {x : Reading} : x.fault? = none ↔ ∀ message, x ≠ .malformed message := by
  cases x <;> simp [fault?]

end Reading

def directives (read : Text → Reading) (k : Nat) (ls : List Text) : List (Nat × Include) :=
  (ls.zipIdx k).filterMap fun p => (read p.1).directive?.map fun d => (p.2, d)

def firstMalformed (read : Text → Reading) (k : Nat) (ls : List Text) : Option (Nat × Text) :=
  (ls.zipIdx k).findSome? fun p => (read p.1).fault?.map fun message => (p.2, message)

variable {read : Text → Reading} {k : Nat} {l : Text} {ls : List Text}

theorem directives_cons_inclusion {d : Include} (h : read l = .inclusion d) :
    directives read k (l :: ls) = (k, d) :: directives read (k + 1) ls := by
  simp [directives, h, Reading.directive?]

theorem directives_cons_of_none (h : (read l).directive? = none) :
    directives read k (l :: ls) = directives read (k + 1) ls := by
  simp [directives, h]

theorem firstMalformed_cons_malformed {message : Text} (h : read l = .malformed message) :
    firstMalformed read k (l :: ls) = some (k, message) := by
  simp [firstMalformed, h, Reading.fault?]

theorem firstMalformed_cons_of_none (h : (read l).fault? = none) :
    firstMalformed read k (l :: ls) = firstMalformed read (k + 1) ls := by
  simp [firstMalformed, h]

theorem scanFrom_eq (read : Text → Reading) (identity : Option Identity) (k : Nat)
    (ls : List Text) :
    scanFrom read identity k ls =
      match firstMalformed read k ls with
      | some (n, message) => .error (.malformed n message identity)
      | none => .ok (directives read k ls) := by
  induction ls generalizing k with
  | nil => rfl
  | cons l ls ih =>
    cases h : read l with
    | plain =>
      rw [firstMalformed_cons_of_none (by rw [h]; rfl), directives_cons_of_none (by rw [h]; rfl)]
      simp only [scanFrom, h, ih]
    | malformed message =>
      rw [firstMalformed_cons_malformed h]
      simp only [scanFrom, h]
    | inclusion d =>
      rw [firstMalformed_cons_of_none (by rw [h]; rfl), directives_cons_inclusion h]
      simp only [scanFrom, h, ih]
      cases firstMalformed read (k + 1) ls <;> rfl

theorem mem_directives {n : Nat} {d : Include} :
    (n, d) ∈ directives read 0 ls ↔ ∃ l, ls[n]? = some l ∧ read l = .inclusion d := by
  simp only [directives, List.mem_filterMap, Prod.exists, Option.map_eq_some_iff, Prod.mk.injEq,
    Reading.directive?_eq_some]
  constructor
  · rintro ⟨l, n', hl, d', hd, rfl, rfl⟩
    exact ⟨l, List.mk_mem_zipIdx_iff_getElem?.1 hl, hd⟩
  · rintro ⟨l, hl, hd⟩
    exact ⟨l, n, List.mk_mem_zipIdx_iff_getElem?.2 hl, d, hd, rfl, rfl⟩

theorem directive?_of_directives_nil (h : directives read k ls = []) :
    ∀ l ∈ ls, (read l).directive? = none := by
  induction ls generalizing k with
  | nil => simp
  | cons l ls ih =>
    cases hl : (read l).directive? with
    | none =>
      rw [directives_cons_of_none hl] at h
      rw [List.forall_mem_cons]
      exact ⟨hl, ih h⟩
    | some d =>
      rw [directives_cons_inclusion (Reading.directive?_eq_some.1 hl)] at h
      cases h

theorem split_of_directives_cons {n : Nat} {d : Include} {ds : List (Nat × Include)}
    (h : directives read k ls = (n, d) :: ds) :
    ∃ before l after, ls = before ++ l :: after ∧
      (∀ l ∈ before, (read l).directive? = none) ∧ read l = .inclusion d ∧
      directives read (n + 1) after = ds := by
  induction ls generalizing k with
  | nil => cases h
  | cons l ls ih =>
    cases hl : (read l).directive? with
    | none =>
      rw [directives_cons_of_none hl] at h
      obtain ⟨before, l', after, rfl, hb, hd, ha⟩ := ih h
      refine ⟨l :: before, l', after, rfl, ?_, hd, ha⟩
      rw [List.forall_mem_cons]
      exact ⟨hl, hb⟩
    | some d' =>
      have hd := Reading.directive?_eq_some.1 hl
      rw [directives_cons_inclusion hd] at h
      cases h
      exact ⟨[], l, ls, rfl, by simp, hd, rfl⟩

theorem pairwise_directives (read : Text → Reading) (k : Nat) (ls : List Text) :
    (directives read k ls).Pairwise fun p q => p.1 < q.1 := by
  have hz : (ls.zipIdx k).Pairwise fun p q => p.2 < q.2 := by
    rw [← List.pairwise_map (f := Prod.snd) (R := (· < ·)), List.zipIdx_map_snd]
    exact List.pairwise_lt_range'
  refine List.Pairwise.filterMap _ ?_ hz
  intro p q hpq x hx y hy
  obtain ⟨_, _, rfl⟩ := Option.map_eq_some_iff.1 hx
  obtain ⟨_, _, rfl⟩ := Option.map_eq_some_iff.1 hy
  exact hpq

theorem firstMalformed_eq_none :
    firstMalformed read k ls = none ↔ ∀ l ∈ ls, ∀ message, read l ≠ .malformed message := by
  induction ls generalizing k with
  | nil => simp [firstMalformed]
  | cons l ls ih =>
    rw [List.forall_mem_cons]
    cases h : (read l).fault? with
    | none =>
      rw [firstMalformed_cons_of_none h, ih]
      exact ⟨fun hs => ⟨Reading.fault?_eq_none.1 h, hs⟩, And.right⟩
    | some message =>
      have hm := Reading.fault?_eq_some.1 h
      simp [firstMalformed_cons_malformed hm, hm]

/-- The line with number `i` is malformed, with `message`, and no line before it is. -/
structure FirstFault (read : Text → Reading) (ls : List Text) (i : Nat) (message : Text) :
    Prop where
  malformed : (ls.map read)[i]? = some (.malformed message)
  earlier : ∀ j < i, ∀ other, (ls.map read)[j]? ≠ some (.malformed other)

theorem firstFault_zero {message : Text} :
    FirstFault read (l :: ls) 0 message ↔ read l = .malformed message := by
  constructor
  · intro h
    simpa using h.malformed
  · intro h
    exact ⟨by simpa using h, fun j hj => absurd hj (Nat.not_lt_zero j)⟩

theorem firstFault_succ {i : Nat} {message : Text} :
    FirstFault read (l :: ls) (i + 1) message ↔
      (read l).fault? = none ∧ FirstFault read ls i message := by
  constructor
  · intro h
    have hl : (read l).fault? = none := by
      rw [Reading.fault?_eq_none]
      intro other
      simpa using h.earlier 0 (Nat.succ_pos i) other
    exact ⟨hl, by simpa using h.malformed,
      fun j hj other => by simpa using h.earlier (j + 1) (Nat.succ_lt_succ hj) other⟩
  · rintro ⟨hl, h⟩
    refine ⟨by simpa using h.malformed, fun j hj other => ?_⟩
    cases j with
    | zero => simpa using Reading.fault?_eq_none.1 hl other
    | succ j => simpa using h.earlier j (Nat.lt_of_succ_lt_succ hj) other

theorem firstMalformed_eq_some {n : Nat} {message : Text} :
    firstMalformed read k ls = some (n, message) ↔
      ∃ i, n = k + i ∧ FirstFault read ls i message := by
  induction ls generalizing k with
  | nil =>
    have hn : ∀ i, ¬FirstFault read [] i message := fun i h => by simpa using h.malformed
    simp [firstMalformed, hn]
  | cons l ls ih =>
    cases hl : (read l).fault? with
    | none =>
      rw [firstMalformed_cons_of_none hl, ih]
      constructor
      · rintro ⟨i, rfl, hi⟩
        exact ⟨i + 1, by omega, firstFault_succ.2 ⟨hl, hi⟩⟩
      · rintro ⟨i, rfl, hi⟩
        cases i with
        | zero => exact absurd (firstFault_zero.1 hi) (Reading.fault?_eq_none.1 hl message)
        | succ i => exact ⟨i, by omega, (firstFault_succ.1 hi).2⟩
    | some other =>
      have hm := Reading.fault?_eq_some.1 hl
      rw [firstMalformed_cons_malformed hm]
      constructor
      · rintro ⟨⟩
        exact ⟨0, rfl, firstFault_zero.2 hm⟩
      · rintro ⟨i, rfl, hi⟩
        cases i with
        | zero =>
          cases hm.symm.trans (firstFault_zero.1 hi)
          rfl
        | succ i => cases hl.symm.trans (firstFault_succ.1 hi).1

def raised (n : Nat) :
    Except Failure (List (Nat × Include)) → Except Failure (List (Nat × Include))
  | .ok ds => .ok (ds.map fun p => (n + p.1, p.2))
  | .error (.malformed i message identity) => .error (.malformed (n + i) message identity)
  | .error e => .error e

variable {identity : Option Identity}

theorem scanFrom_add (n k : Nat) (ls : List Text) :
    scanFrom read identity (n + k) ls = raised n (scanFrom read identity k ls) := by
  induction ls generalizing k with
  | nil => rfl
  | cons l ls ih =>
    have ih : scanFrom read identity (n + k + 1) ls = _ := ih (k + 1)
    cases hl : read l with
    | plain => simp only [scanFrom, hl, ih]
    | malformed message => simp only [scanFrom, hl, raised]
    | inclusion d =>
      simp only [scanFrom, hl, ih]
      cases scanFrom read identity (k + 1) ls with
      | ok ds => rfl
      | error e => cases e <;> rfl

theorem scanFrom_append (k : Nat) (xs ys : List Text) :
    scanFrom read identity k (xs ++ ys) =
      (scanFrom read identity k xs).bind fun ds =>
        (scanFrom read identity (k + xs.length) ys).map (ds ++ ·) := by
  induction xs generalizing k with
  | nil =>
    rw [List.nil_append, List.length_nil, Nat.add_zero]
    cases scanFrom read identity k ys <;> rfl
  | cons l xs ih =>
    have hn : k + (l :: xs).length = k + 1 + xs.length := by
      rw [List.length_cons]
      omega
    rw [hn]
    cases hl : read l with
    | plain => simp only [List.cons_append, scanFrom, hl, ih]
    | malformed message =>
      simp only [List.cons_append, scanFrom, hl]
      rfl
    | inclusion d =>
      simp only [List.cons_append, scanFrom, hl, ih]
      cases scanFrom read identity (k + 1) xs with
      | error e => rfl
      | ok ds => cases scanFrom read identity (k + 1 + xs.length) ys <;> rfl

theorem scan_append (xs ys : List Text) :
    scan read identity (xs ++ ys) =
      (scan read identity xs).bind fun ds =>
        (raised xs.length (scan read identity ys)).map (ds ++ ·) := by
  rw [scan, scanFrom_append, Nat.zero_add, ← Nat.add_zero xs.length, scanFrom_add]
  rfl

theorem scan_eq_error_iff {e : Failure} :
    scan read identity ls = .error e ↔
      ∃ i message, e = .malformed i message identity ∧ FirstFault read ls i message := by
  rw [scan, scanFrom_eq]
  constructor
  · intro h
    split at h
    · rename_i n message hf
      cases h
      obtain ⟨i, hi, hfirst⟩ := firstMalformed_eq_some.1 hf
      exact ⟨n, message, rfl, by rwa [hi, Nat.zero_add]⟩
    · cases h
  · rintro ⟨i, message, rfl, hi⟩
    rw [firstMalformed_eq_some.2 ⟨i, (Nat.zero_add i).symm, hi⟩]

theorem scan_of_not_malformed (h : ∀ l ∈ ls, ∀ message, read l ≠ .malformed message) :
    scan read identity ls = .ok (directives read 0 ls) := by
  rw [scan, scanFrom_eq, firstMalformed_eq_none.2 h]

/-- A scan reports the first malformed line, whatever stands before and behind it. If no line is
malformed, it gives the directives of exactly the lines that are directives, in the order of their
numbers. So the lines behind others are scanned as they are alone, with raised numbers, if the scan
gets there. -/
theorem scan_first_fault_or_directives (read : Text → Reading) (identity : Option Identity) :
    (∀ ls e, scan read identity ls = .error e ↔
      ∃ i message, e = .malformed i message identity ∧ FirstFault read ls i message) ∧
    (∀ ls, (∀ l ∈ ls, ∀ message, read l ≠ .malformed message) →
      ∃ ds, scan read identity ls = .ok ds ∧ ds.Pairwise (fun p q => p.1 < q.1) ∧
        ∀ i d, (i, d) ∈ ds ↔ (ls.map read)[i]? = some (.inclusion d)) ∧
    ∀ xs ys, scan read identity (xs ++ ys) =
      (scan read identity xs).bind fun ds =>
        (raised xs.length (scan read identity ys)).map (ds ++ ·) := by
  refine ⟨fun ls e => scan_eq_error_iff, fun ls h => ?_, scan_append⟩
  refine ⟨directives read 0 ls, scan_of_not_malformed h, pairwise_directives read 0 ls, ?_⟩
  intro i d
  rw [mem_directives, List.getElem?_map, Option.map_eq_some_iff]

def notes : List Text := ["x".toList, "//&include <a>".toList, [], "//&include \"b\"".toList]

def blots : List Text := ["//&wrong".toList, "//&include <c>".toList, "//&".toList]

theorem notes_not_malformed :
    ∀ l ∈ notes, ∀ message, Marker.default.read l ≠ .malformed message := by
  have h : ∀ l ∈ notes, (Marker.default.read l).fault? = none := by decide
  intro l hl
  exact Reading.fault?_eq_none.1 (h l hl)

theorem scan_notes_and_blots :
    (∀ l ∈ notes, ∀ message, Marker.default.read l ≠ .malformed message) ∧
      (∃ ds, scan Marker.default.read (some ['f']) notes = .ok ds ∧
        (3, ⟨.relative, ['b']⟩) ∈ ds ∧ ∀ d, (2, d) ∉ ds) ∧
      scan Marker.default.read (some ['f']) (notes ++ blots) =
        .error (.malformed 4 "invalid preproc statement `wrong`".toList (some ['f'])) := by
  obtain ⟨-, hok, happend⟩ := scan_first_fault_or_directives Marker.default.read (some ['f'])
  obtain ⟨ds, hds, -, hmem⟩ := hok notes notes_not_malformed
  refine ⟨notes_not_malformed, ⟨ds, hds, (hmem 3 _).2 (by decide), fun d hd => ?_⟩, ?_⟩
  · have h : (notes.map Marker.default.read)[2]? = some .plain := by decide
    cases h.symm.trans ((hmem 2 d).1 hd)
  · rw [happend, hds]
    rfl

end Splice
