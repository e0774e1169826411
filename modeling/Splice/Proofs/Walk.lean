import Mathlib.Data.List.Induction
import Splice.Proofs.HeldFiles

/-!
Where paths lead. `Tree.Leads` says it step by step, without a limit on the links that are followed
and with each link resolved by itself before the path goes on behind it. A walk that has enough
links to follow ends at a file exactly if its steps lead there. On a tree as disks have them, the
names that lead to a place are its path: it goes through directories alone.
-/

set_option autoImplicit false

namespace Splice

namespace Tree

/-- Every entry stands below directories, under names that a path can spell. -/
structure WellFormed (t : Tree) : Prop where
  names : ∀ q ∈ t.entries, ∀ n ∈ q.1, IsStep n ∧ '\x00' ∉ n
  parents : ∀ q ∈ t.entries, t.node? q.1.dropLast = some .directory

instance : DecidablePred WellFormed := fun t =>
  decidable_of_iff
    ((∀ q ∈ t.entries, ∀ n ∈ q.1, IsStep n ∧ '\x00' ∉ n) ∧
      ∀ q ∈ t.entries, t.node? q.1.dropLast = some .directory)
    ⟨fun ⟨hn, hp⟩ => ⟨hn, hp⟩, fun ⟨hn, hp⟩ => ⟨hn, hp⟩⟩

/-- Steps from one place lead to another, and a number of links is followed on the way. -/
inductive Leads (t : Tree) : Place → List Text → Nat → Place → Prop
  | done (p : Place) : Leads t p [] 0 p
  | stay {p q : Place} {n : Text} {rest : List Text} {k : Nat} :
    n = [] ∨ n = ['.'] → t.node? p = some .directory → Leads t p rest k q →
      Leads t p (n :: rest) k q
  | up {p q : Place} {rest : List Text} {k : Nat} :
    t.node? p = some .directory → Leads t p.dropLast rest k q → Leads t p (Path.up :: rest) k q
  | enter {p q : Place} {n : Text} {e : Entry} {rest : List Text} {k : Nat} :
    IsStep n → t.node? (p ++ [n]) = some e → (∀ target, e ≠ .link target) →
      Leads t (p ++ [n]) rest k q → Leads t p (n :: rest) k q
  | link {p m q : Place} {n target : Text} {rest : List Text} {k l : Nat} :
    IsStep n → t.node? (p ++ [n]) = some (.link target) →
      Leads t (linkStart p target) (linkSteps target) k m → Leads t m rest l q →
      Leads t p (n :: rest) (k + l + 1) q

variable {t : Tree} {p q m : Place} {n target : Text} {e : Entry} {a rest steps : List Text}
  {k l links : Nat} {b : List UInt8}

theorem IsStep.not_blank (h : IsStep n) : ¬(n = [] ∨ n = ['.']) := by
  rintro (e | e)
  · exact h.isName.ne_nil e
  · exact h.isName.ne_point e

theorem up_not_blank : ¬(Path.up = [] ∨ Path.up = ['.']) := by decide

theorem mem_entries (h : t.node? p = some e) (hp : p ≠ []) : (p, e) ∈ t.entries := by
  rw [node?, if_neg hp] at h
  exact Keyed.mem_of_get? h

theorem node?_linkStart (hp : t.node? p = some .directory) (target : Text) :
    t.node? (linkStart p target) = some .directory := by
  unfold linkStart
  split
  · rfl
  · exact hp

namespace WellFormed

variable (ht : t.WellFormed)

include ht

theorem isStep (h : t.node? p = some e) (hn : n ∈ p) : IsStep n ∧ '\x00' ∉ n :=
  ht.names _ (mem_entries h (List.ne_nil_of_mem hn)) n hn

theorem isStep_last (h : t.node? (p ++ [n]) = some e) : IsStep n := (ht.isStep h (by simp)).1

theorem node?_dropLast (h : t.node? p = some e) : t.node? p.dropLast = some .directory := by
  by_cases hp : p = []
  · subst hp
    rfl
  · exact ht.parents _ (mem_entries h hp)

theorem directory_of_append (h : t.node? (p ++ [n]) = some e) : t.node? p = some .directory := by
  have hd := ht.node?_dropLast h
  rwa [List.dropLast_concat] at hd

theorem directory_of_prefix (h : t.node? p = some e) (hq : q <+: p) (hne : q ≠ p) :
    t.node? q = some .directory := by
  obtain ⟨rest, rfl⟩ := hq
  induction rest using List.reverseRecOn generalizing e with
  | nil => exact absurd (List.append_nil q).symm hne
  | append_singleton rest n ih =>
    rw [← List.append_assoc] at h
    have hd := ht.directory_of_append h
    by_cases hr : rest = []
    · rwa [hr, List.append_nil] at hd
    · exact ih hd fun e => hr (by simpa using e)

end WellFormed

theorem Leads.append (h : t.Leads p a k m) (h' : t.Leads m rest l q) :
    t.Leads p (a ++ rest) (k + l) q := by
  induction h with
  | done p => rwa [List.nil_append, Nat.zero_add]
  | stay hn hp _ ih => exact .stay hn hp (ih h')
  | up hp _ ih => exact .up hp (ih h')
  | enter hn he hl _ ih => exact .enter hn he hl (ih h')
  | @link p m₁ m n target rest₁ k₁ l₁ hn he ht _ _ ih =>
    have hk : k₁ + l₁ + 1 + l = k₁ + (l₁ + l) + 1 := by omega
    rw [List.cons_append, hk]
    exact .link hn he ht (ih h')

theorem Leads.split (h : t.Leads p (a ++ rest) k q) :
    ∃ m k₁ k₂, t.Leads p a k₁ m ∧ t.Leads m rest k₂ q ∧ k = k₁ + k₂ := by
  induction a generalizing p k with
  | nil => exact ⟨p, 0, k, .done p, h, (Nat.zero_add k).symm⟩
  | cons n a ih =>
    rw [List.cons_append] at h
    cases h with
    | stay hn hp h =>
      obtain ⟨m, k₁, k₂, h₁, h₂, hk⟩ := ih h
      exact ⟨m, k₁, k₂, .stay hn hp h₁, h₂, hk⟩
    | up hp h =>
      obtain ⟨m, k₁, k₂, h₁, h₂, hk⟩ := ih h
      exact ⟨m, k₁, k₂, .up hp h₁, h₂, hk⟩
    | enter hn he hl h =>
      obtain ⟨m, k₁, k₂, h₁, h₂, hk⟩ := ih h
      exact ⟨m, k₁, k₂, .enter hn he hl h₁, h₂, hk⟩
    | @link _ _ _ _ target _ k₀ l₀ hn he ht h =>
      obtain ⟨m, k₁, k₂, h₁, h₂, hk⟩ := ih h
      exact ⟨m, k₀ + k₁ + 1, k₂, .link hn he ht h₁, h₂, by omega⟩

section Walk

variable {follow : Place → List Text → Except PathFault Spot}

theorem leads_of_walkWith (ht : t.WellFormed)
    (hf : ∀ {p steps}, t.node? p = some .directory → follow p steps = .ok (.file q b) →
      ∃ k < links, t.Leads p steps k q)
    (hp : t.node? p = some .directory) (h : t.walkWith false follow p steps = .ok (.file q b)) :
    ∃ k ≤ links, t.Leads p steps k q := by
  induction steps generalizing p with
  | nil => simp [walkWith] at h
  | cons n rest ih =>
    unfold walkWith at h
    split at h
    · rename_i hn
      obtain ⟨k, hk, hl⟩ := ih hp h
      exact ⟨k, hk, .stay hn hp hl⟩
    split at h
    · rename_i hn
      obtain ⟨k, hk, hl⟩ := ih (ht.node?_dropLast hp) h
      exact ⟨k, hk, hn ▸ .up hp hl⟩
    split at h
    · cases h
    split at h
    · cases h
    split at h
    · split at h <;> cases h
    · rename_i he
      obtain ⟨k, hk, hl⟩ := ih he h
      exact ⟨k, hk, .enter (ht.isStep_last he) he (by simp) hl⟩
    · rename_i he
      split at h
      · rename_i hrest
        subst hrest
        cases h
        exact ⟨0, Nat.zero_le _, .enter (ht.isStep_last he) he (by simp) (.done _)⟩
      · cases h
    · rename_i target he
      obtain ⟨k, hk, hl⟩ := hf (node?_linkStart (ht.directory_of_append he) target) h
      obtain ⟨m, k₁, k₂, h₁, h₂, hsum⟩ := hl.split
      exact ⟨k₁ + k₂ + 1, by omega, .link (ht.isStep_last he) he h₁ h₂⟩

theorem leads_of_walk (ht : t.WellFormed) (hp : t.node? p = some .directory)
    (h : t.walk false links p steps = .ok (.file q b)) : ∃ k ≤ links, t.Leads p steps k q := by
  induction links generalizing p steps with
  | zero => exact leads_of_walkWith ht (fun _ h => by cases h) hp h
  | succ links ih =>
    refine leads_of_walkWith ht (fun hp h => ?_) hp h
    obtain ⟨k, hk, hl⟩ := ih hp h
    exact ⟨k, by omega, hl⟩

theorem walk_stay (hn : n = [] ∨ n = ['.']) :
    t.walk false links p (n :: rest) = t.walk false links p rest := by
  obtain ⟨follow, hw⟩ := Disk.walk_eq_walkWith t links
  rw [hw, walkWith, if_pos hn]

theorem walk_up : t.walk false links p (Path.up :: rest) = t.walk false links p.dropLast rest := by
  obtain ⟨follow, hw⟩ := Disk.walk_eq_walkWith t links
  rw [hw, walkWith, if_neg up_not_blank, if_pos rfl]

theorem walk_directory (hn : IsStep n) (he : t.node? (p ++ [n]) = some .directory) :
    t.walk false links p (n :: rest) = t.walk false links (p ++ [n]) rest := by
  obtain ⟨follow, hw⟩ := Disk.walk_eq_walkWith t links
  rw [hw, walkWith_cons hn, he]

theorem walk_file (hn : IsStep n) (he : t.node? (p ++ [n]) = some (.file b)) :
    t.walk false links p [n] = .ok (.file (p ++ [n]) b) := by
  obtain ⟨follow, hw⟩ := Disk.walk_eq_walkWith t links
  rw [hw, walkWith_cons hn, he]
  rfl

theorem walk_link (hn : IsStep n) (he : t.node? (p ++ [n]) = some (.link target)) :
    t.walk false (links + 1) p (n :: rest) =
      t.walk false links (linkStart p target) (linkSteps target ++ rest) := by
  rw [walk, walkWith_cons hn, he]

def Arrives (t : Tree) (l : Nat) (p : Place) (steps : List Text) (q : Place)
    (b : List UInt8) : Prop :=
  p = q ∧ steps = [] ∨ t.node? p = some .directory ∧
    ∀ links, l ≤ links → t.walk false links p steps = .ok (.file q b)

theorem Arrives.walk (h : t.Arrives l p steps q b) (hp : t.node? p = some .directory)
    (hq : t.node? q = some (.file b)) (hl : l ≤ links) :
    t.walk false links p steps = .ok (.file q b) := by
  rcases h with ⟨rfl, -⟩ | ⟨-, h⟩
  · cases hp.symm.trans hq
  · exact h links hl

theorem Leads.arrives (ht : t.WellFormed) (hq : t.node? q = some (.file b))
    (h : t.Leads p steps k m) (h' : t.Arrives l m rest q b) :
    t.Arrives (k + l) p (steps ++ rest) q b := by
  induction h generalizing rest l with
  | done p => rwa [List.nil_append, Nat.zero_add]
  | stay hn hp _ ih =>
    refine .inr ⟨hp, fun links hl => ?_⟩
    rw [List.cons_append, walk_stay hn]
    exact (ih h').walk hp hq hl
  | up hp _ ih =>
    refine .inr ⟨hp, fun links hl => ?_⟩
    rw [List.cons_append, walk_up]
    exact (ih h').walk (ht.node?_dropLast hp) hq hl
  | @enter p m n e rest₁ k hn he hlink _ ih =>
    refine .inr ⟨ht.directory_of_append he, fun links hl => ?_⟩
    rw [List.cons_append]
    rcases ih h' with ⟨rfl, hnil⟩ | ⟨hd, hw⟩
    · rw [hnil]
      exact walk_file hn hq
    · rw [walk_directory hn hd]
      exact hw links hl
  | @link p m₁ m n target rest₁ k₁ l₁ hn he _ _ ih₁ ih₂ =>
    have hp := ht.directory_of_append he
    refine .inr ⟨hp, fun links hl => ?_⟩
    obtain ⟨links, rfl⟩ : ∃ j, links = j + 1 := ⟨links - 1, by omega⟩
    rw [List.cons_append, walk_link hn he]
    exact (ih₁ (ih₂ h')).walk (node?_linkStart hp target) hq (by omega)

theorem walk_eq_file_iff (ht : t.WellFormed) (hp : t.node? p = some .directory) :
    t.walk false links p steps = .ok (.file q b) ↔
      t.node? q = some (.file b) ∧ ∃ k ≤ links, t.Leads p steps k q := by
  constructor
  · intro h
    exact ⟨node?_of_walk h, leads_of_walk ht hp h⟩
  · rintro ⟨hq, k, hk, h⟩
    have hend : t.Arrives 0 q [] q b := .inl ⟨rfl, rfl⟩
    have ha := h.arrives ht hq hend
    rw [List.append_nil] at ha
    exact ha.walk hp hq hk

end Walk

theorem leads_down {ns : List Text} (hs : ∀ n ∈ ns, IsStep n)
    (hd : ∀ q, q <+: ns → q ≠ [] → ∃ e, t.node? (p ++ q) = some e ∧ ∀ target, e ≠ .link target) :
    t.Leads p ns 0 (p ++ ns) := by
  induction ns using List.reverseRecOn with
  | nil =>
    rw [List.append_nil]
    exact .done p
  | append_singleton ns n ih =>
    obtain ⟨e, he, hl⟩ := hd (ns ++ [n]) (List.prefix_refl _) (by simp)
    have hn : IsStep n := hs n (by simp)
    have hinit : t.Leads p ns 0 (p ++ ns) :=
      ih (fun m hm => hs m (List.mem_append_left _ hm))
        fun q hq => hd q (hq.trans (List.prefix_append ns [n]))
    rw [← List.append_assoc] at he ⊢
    exact hinit.append (.enter hn he hl (.done _))

theorem leads_path (ht : t.WellFormed) (h : t.node? p = some e) (hl : ∀ target, e ≠ .link target) :
    t.Leads [] p 0 p := by
  refine leads_down (fun n hn => (ht.isStep h hn).1) fun q hq _ => ?_
  by_cases hne : q = p
  · exact ⟨e, hne ▸ h, hl⟩
  · exact ⟨.directory, ht.directory_of_prefix h hq hne, by simp⟩

end Tree
end Splice
