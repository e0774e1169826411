set_option autoImplicit false

namespace Splice.Keyed

universe u v
variable {κ : Type u} {α : Type v} [DecidableEq κ]

def keys (l : List (κ × α)) : List κ := l.map Prod.fst

def get? (k : κ) : List (κ × α) → Option α
  | [] => none
  | (j, a) :: l => if j = k then some a else get? k l

/-- Replaces the value of a key in its place, or appends the key. -/
def put (k : κ) (a : α) : List (κ × α) → List (κ × α)
  | [] => [(k, a)]
  | (j, b) :: l => if j = k then (j, a) :: l else (j, b) :: put k a l

def putAll (l m : List (κ × α)) : List (κ × α) := m.foldl (fun l p => put p.1 p.2 l) l

omit [DecidableEq κ] in
@[simp] theorem keys_nil : keys ([] : List (κ × α)) = [] := rfl

omit [DecidableEq κ] in
@[simp] theorem keys_cons (p : κ × α) (l : List (κ × α)) : keys (p :: l) = p.1 :: keys l := rfl

theorem keys_put (k : κ) (a : α) (l : List (κ × α)) :
    keys (put k a l) = if k ∈ keys l then keys l else keys l ++ [k] := by
  induction l with
  | nil => simp [put]
  | cons p l ih =>
    by_cases h : p.1 = k
    · simp [put, h]
    · have h' : ¬k = p.1 := fun e => h e.symm
      simp only [put, h, if_false, keys_cons, ih, List.mem_cons, h', false_or]
      split <;> simp

theorem mem_keys_put {j k : κ} {a : α} {l : List (κ × α)} :
    j ∈ keys (put k a l) ↔ j = k ∨ j ∈ keys l := by
  rw [keys_put]
  split
  · constructor
    · exact Or.inr
    · rintro (rfl | h) <;> assumption
  · simp [or_comm]

theorem nodup_keys_put {k : κ} {a : α} {l : List (κ × α)} (h : (keys l).Nodup) :
    (keys (put k a l)).Nodup := by
  rw [keys_put]
  split
  · exact h
  · rename_i hk
    rw [List.nodup_append]
    exact ⟨h, by simp, by rintro x hx y hy rfl; simp at hy; exact hk (hy ▸ hx)⟩

theorem nodup_keys_putAll {l m : List (κ × α)} (h : (keys l).Nodup) :
    (keys (putAll l m)).Nodup := by
  induction m generalizing l with
  | nil => exact h
  | cons p m ih => exact ih (nodup_keys_put h)

theorem get?_put (j k : κ) (a : α) (l : List (κ × α)) :
    get? j (put k a l) = if j = k then some a else get? j l := by
  induction l with
  | nil => simp [put, get?, eq_comm]
  | cons p l ih =>
    by_cases h : p.1 = k
    · by_cases hj : j = k <;> simp [put, get?, h, hj, eq_comm]
    · simp only [put, h, if_false, get?, ih]
      by_cases hj : j = k
      · simp [hj, h]
      · simp [hj]

theorem get?_filter (f : κ → Bool) (j : κ) (l : List (κ × α)) :
    get? j (l.filter fun p => f p.1) = if f j then get? j l else none := by
  induction l with
  | nil => simp [get?]
  | cons p l ih =>
    by_cases hp : p.1 = j
    · cases hf : f j <;> simp [get?, hp, hf, ih]
    · cases hf : f p.1 <;> simp [get?, hp, hf, ih]

theorem get?_eq_none_iff {k : κ} {l : List (κ × α)} : get? k l = none ↔ k ∉ keys l := by
  induction l with
  | nil => simp [get?]
  | cons p l ih =>
    by_cases h : p.1 = k
    · simp [get?, h]
    · simp [get?, h, ih, eq_comm (a := k)]

theorem exists_get?_of_mem {k : κ} {l : List (κ × α)} (h : k ∈ keys l) :
    ∃ a, get? k l = some a := by
  cases hg : get? k l with
  | none => exact absurd h (get?_eq_none_iff.1 hg)
  | some a => exact ⟨a, rfl⟩

theorem mem_of_get? {k : κ} {a : α} {l : List (κ × α)} (h : get? k l = some a) : (k, a) ∈ l := by
  induction l with
  | nil => cases h
  | cons p l ih =>
    by_cases hk : p.1 = k
    · simp only [get?, hk, if_true, Option.some.injEq] at h
      exact List.mem_cons.2 (.inl (by rw [← hk, ← h]))
    · simp only [get?, hk, if_false] at h
      exact List.mem_cons_of_mem _ (ih h)

theorem mem_keys_of_get? {k : κ} {a : α} {l : List (κ × α)} (h : get? k l = some a) :
    k ∈ keys l :=
  List.mem_map_of_mem (mem_of_get? h)

end Splice.Keyed
