import Splice.Disk

/-!
Writing files. A path that can be written leads to a place where a file stands or can be made. After
a file is put there, every walk that came to an end before ends where it ended, and finds the new
bytes if that is the place. So what is written is read back, and all other files stay as they were.
-/

set_option autoImplicit false

namespace Splice

theorem Keyed.put_put {κ α : Type} [DecidableEq κ] (k : κ) (a b : α) (l : List (κ × α)) :
    put k a (put k b l) = put k a l := by
  induction l with
  | nil => simp [put]
  | cons p l ih => by_cases h : p.1 = k <;> simp [put, h, ih]

namespace Spot

def place? : Spot → Option Place
  | file p _ => some p
  | vacant p => some p
  | directory _ => none

def bytes? : Spot → Option (List UInt8)
  | file _ b => some b
  | _ => none

def filled (p : Place) (bytes : List UInt8) : Spot → Spot
  | file q b => if q = p then file p bytes else file q b
  | vacant q => if q = p then file p bytes else vacant q
  | directory q => directory q

variable {p : Place} {s : Spot}

@[simp] theorem place?_filled (p : Place) (bytes : List UInt8) (s : Spot) :
    (s.filled p bytes).place? = s.place? := by
  cases s with
  | file q b => by_cases h : q = p <;> simp [filled, place?, h]
  | directory q => rfl
  | vacant q => by_cases h : q = p <;> simp [filled, place?, h]

theorem filled_of_place? (h : s.place? = some p) (bytes : List UInt8) :
    s.filled p bytes = .file p bytes := by
  cases s with
  | file q b => simp_all [filled, place?]
  | directory q => cases h
  | vacant q => simp_all [filled, place?]

end Spot

namespace Tree

structure Passes (making : Bool) (n : Text) (rest : List Text) : Prop where
  counts : ¬(n = [] ∨ n = ['.'])
  ne_up : n ≠ Path.up
  noSlash : ¬(making ∧ rest = [[]])
  short : ¬nameLimit < byteCount n

/-- The steps come to an end at a spot, with links followed by `follow`. -/
inductive Ends (t : Tree) (making : Bool) (follow : Place → List Text → Except PathFault Spot) :
    Place → List Text → Spot → Prop
  | done (p : Place) : Ends t making follow p [] (.directory p)
  | stay {p : Place} {n : Text} {rest : List Text} {s : Spot} :
    n = [] ∨ n = ['.'] → Ends t making follow p rest s → Ends t making follow p (n :: rest) s
  | up {p : Place} {rest : List Text} {s : Spot} :
    Ends t making follow p.dropLast rest s → Ends t making follow p (Path.up :: rest) s
  | vacant {p : Place} {n : Text} :
    Passes making n [] → t.node? (p ++ [n]) = none →
      Ends t making follow p [n] (.vacant (p ++ [n]))
  | file {p : Place} {n : Text} {b : List UInt8} :
    Passes making n [] → t.node? (p ++ [n]) = some (.file b) →
      Ends t making follow p [n] (.file (p ++ [n]) b)
  | directory {p : Place} {n : Text} {rest : List Text} {s : Spot} :
    Passes making n rest → t.node? (p ++ [n]) = some .directory →
      Ends t making follow (p ++ [n]) rest s → Ends t making follow p (n :: rest) s
  | link {p : Place} {n target : Text} {rest : List Text} {s : Spot} :
    Passes making n rest → t.node? (p ++ [n]) = some (.link target) →
      follow (linkStart p target) (linkSteps target ++ rest) = .ok s →
      Ends t making follow p (n :: rest) s

/-- Neither a directory nor a link stands at the place. -/
structure Open (t : Tree) (p : Place) : Prop where
  ne_nil : p ≠ []
  isFile : ∀ e, t.node? p = some e → ∃ b, e = .file b

variable {t : Tree} {making : Bool} {links : Nat} {p q o : Place} {n : Text}
  {rest steps : List Text} {s : Spot}

theorem node?_put (hp : p ≠ []) (e : Entry) (q : Place) :
    (t.put p e).node? q = if q = p then some e else t.node? q := by
  by_cases hq : q = []
  · subst hq
    simp [node?, Ne.symm hp]
  · simp only [node?, put, if_neg hq, Keyed.get?_put]

theorem Open.node?_put_of_ne {e : Entry} {bytes : List UInt8} (hp : t.Open p)
    (hq : t.node? q = some e) (he : ∀ b, e ≠ .file b) :
    (t.put p (.file bytes)).node? q = some e := by
  rw [node?_put hp.ne_nil, if_neg, hq]
  rintro rfl
  obtain ⟨b, hb⟩ := hp.isFile e hq
  exact he b hb

section WalkWith

variable {follow follow' : Place → List Text → Except PathFault Spot}

theorem Passes.walkWith_eq (h : Passes making n rest) :
    t.walkWith making follow p (n :: rest) =
      match t.node? (p ++ [n]) with
      | none => if rest = [] then .ok (.vacant (p ++ [n])) else .error .missing
      | some .directory => t.walkWith making follow (p ++ [n]) rest
      | some (.file b) => if rest = [] then .ok (.file (p ++ [n]) b) else .error .notDirectory
      | some (.link target) => follow (linkStart p target) (linkSteps target ++ rest) := by
  rw [walkWith, if_neg h.counts, if_neg h.ne_up, if_neg h.noSlash]
  exact if_neg h.short

theorem ends_of_walkWith (h : t.walkWith making follow p steps = .ok s) :
    t.Ends making follow p steps s := by
  induction steps generalizing p with
  | nil =>
    cases h
    exact .done p
  | cons n rest ih =>
    unfold walkWith at h
    split at h
    · rename_i hn
      exact .stay hn (ih h)
    rename_i hcounts
    split at h
    · rename_i hn
      exact hn ▸ .up (ih h)
    rename_i hup
    split at h
    · cases h
    rename_i hslash
    split at h
    · cases h
    rename_i hshort
    have hpass : Passes making n rest := ⟨hcounts, hup, hslash, hshort⟩
    split at h
    · split at h <;> cases h
      rename_i hnode hrest
      subst hrest
      exact .vacant hpass hnode
    · rename_i hnode
      exact .directory hpass hnode (ih h)
    · split at h <;> cases h
      rename_i hnode hrest
      subst hrest
      exact .file hpass hnode
    · rename_i hnode
      exact .link hpass hnode h

theorem Ends.walkWith_eq (h : t.Ends making follow p steps s) :
    t.walkWith making follow p steps = .ok s := by
  induction h with
  | done p => rfl
  | stay hn _ ih => rw [walkWith, if_pos hn, ih]
  | up _ ih => rw [walkWith, if_neg (by decide), if_pos rfl, ih]
  | vacant hpass hnode => simp [hpass.walkWith_eq, hnode]
  | file hpass hnode => simp [hpass.walkWith_eq, hnode]
  | directory hpass hnode _ ih => simp [hpass.walkWith_eq, hnode, ih]
  | link hpass hnode hlink => simp [hpass.walkWith_eq, hnode, hlink]

theorem Ends.stands
    (hf : ∀ {o steps s}, follow o steps = .ok s → s.place? = some p →
      p ≠ [] ∧ t.node? p = s.bytes?.map .file)
    (h : t.Ends making follow o steps s) (hs : s.place? = some p) :
    p ≠ [] ∧ t.node? p = s.bytes?.map .file := by
  induction h with
  | done => cases hs
  | stay _ _ ih => exact ih hs
  | up _ ih => exact ih hs
  | vacant _ hnode =>
    cases hs
    exact ⟨by simp, hnode⟩
  | file _ hnode =>
    cases hs
    exact ⟨by simp, hnode⟩
  | directory _ _ _ ih => exact ih hs
  | link _ _ hlink => exact hf hlink hs

/-- Steps that come to an end do so after a file was put at an open place. They passed the place by,
or ended there. -/
theorem Ends.put (hp : t.Open p) (bytes : List UInt8)
    (hf : ∀ {o steps s}, follow o steps = .ok s → follow' o steps = .ok (s.filled p bytes))
    (h : t.Ends making follow o steps s) :
    (t.put p (.file bytes)).Ends making follow' o steps (s.filled p bytes) := by
  induction h with
  | done q => exact .done q
  | stay hn _ ih => exact .stay hn ih
  | up _ ih => exact .up ih
  | @vacant o n hpass hnode =>
    have hput := node?_put (t := t) hp.ne_nil (.file bytes) (o ++ [n])
    by_cases hplace : o ++ [n] = p
    · rw [if_pos hplace] at hput
      rw [Spot.filled, if_pos hplace, ← hplace]
      exact .file hpass (hplace ▸ hput)
    · rw [if_neg hplace, hnode] at hput
      rw [Spot.filled, if_neg hplace]
      exact .vacant hpass hput
  | @file o n b hpass hnode =>
    have hput := node?_put (t := t) hp.ne_nil (.file bytes) (o ++ [n])
    by_cases hplace : o ++ [n] = p
    · rw [if_pos hplace] at hput
      rw [Spot.filled, if_pos hplace, ← hplace]
      exact .file hpass (hplace ▸ hput)
    · rw [if_neg hplace, hnode] at hput
      rw [Spot.filled, if_neg hplace]
      exact .file hpass hput
  | directory hpass hnode _ ih => exact .directory hpass (hp.node?_put_of_ne hnode (by simp)) ih
  | link hpass hnode hlink => exact .link hpass (hp.node?_put_of_ne hnode (by simp)) (hf hlink)

theorem Ends.of_making
    (hf : ∀ {o steps s}, follow o steps = .ok s → follow' o steps = .ok s)
    (h : t.Ends true follow o steps s) : t.Ends false follow' o steps s := by
  have hlook : ∀ {n rest}, Passes true n rest → Passes false n rest :=
    fun h => ⟨h.counts, h.ne_up, by simp, h.short⟩
  induction h with
  | done q => exact .done q
  | stay hn _ ih => exact .stay hn ih
  | up _ ih => exact .up ih
  | vacant hpass hnode => exact .vacant (hlook hpass) hnode
  | file hpass hnode => exact .file (hlook hpass) hnode
  | directory hpass hnode _ ih => exact .directory (hlook hpass) hnode ih
  | link hpass hnode hlink => exact .link (hlook hpass) hnode (hf hlink)

end WalkWith

theorem stands_of_walk (h : t.walk making links o steps = .ok s) (hs : s.place? = some p) :
    p ≠ [] ∧ t.node? p = s.bytes?.map .file := by
  induction links generalizing o steps s with
  | zero => exact (ends_of_walkWith h).stands (fun h => by cases h) hs
  | succ links ih => exact (ends_of_walkWith h).stands (fun h hs => ih h hs) hs

theorem walk_put (hp : t.Open p) (bytes : List UInt8) (h : t.walk making links o steps = .ok s) :
    (t.put p (.file bytes)).walk making links o steps = .ok (s.filled p bytes) := by
  induction links generalizing o steps s with
  | zero => exact ((ends_of_walkWith h).put hp bytes (fun h => by cases h)).walkWith_eq
  | succ links ih => exact ((ends_of_walkWith h).put hp bytes (fun h => ih h)).walkWith_eq

theorem walk_of_making (h : t.walk true links o steps = .ok s) :
    t.walk false links o steps = .ok s := by
  induction links generalizing o steps s with
  | zero => exact ((ends_of_walkWith h).of_making (fun h => by cases h)).walkWith_eq
  | succ links ih => exact ((ends_of_walkWith h).of_making (fun h => ih h)).walkWith_eq

end Tree

namespace Disk

def fill (d : Disk) (p : Place) (bytes : List UInt8) : Disk :=
  { d with tree := d.tree.put p (.file bytes) }

structure Writes (d : Disk) (r : Route) (p : Place) : Prop where
  noZero : hasZero r = false
  reaches : ∃ s, d.reach true r = .ok s ∧ s.place? = some p

variable {d d' : Disk} {r k : Route} {p q : Place} {b bytes : List UInt8} {s : Spot}
  {making : Bool}

theorem stands_of_reach (h : d.reach making r = .ok s) (hs : s.place? = some p) :
    p ≠ [] ∧ d.tree.node? p = s.bytes?.map .file := by
  unfold reach at h
  split at h
  · cases h
  · exact Tree.stands_of_walk h hs

theorem reach_fill (hp : d.tree.Open p) (bytes : List UInt8) (h : d.reach making r = .ok s) :
    (d.fill p bytes).reach making r = .ok (s.filled p bytes) := by
  unfold reach at h ⊢
  split at h
  · cases h
  · rename_i hl
    rw [if_neg hl]
    exact Tree.walk_put hp bytes h

theorem locate_of_making (h : d.reach true r = .ok s) : d.locate r = .ok s := by
  unfold locate
  unfold reach at h ⊢
  split at h
  · cases h
  · rename_i hl
    rw [if_neg hl]
    exact Tree.walk_of_making h

theorem fill_fill (d : Disk) (p : Place) (b bytes : List UInt8) :
    (d.fill p b).fill p bytes = d.fill p bytes := by
  simp [fill, Tree.put, Keyed.put_put]

theorem read_eq_ok_iff :
    d.read r = .ok b ↔ hasZero r = false ∧ ∃ p, d.locate r = .ok (.file p b) := by
  constructor
  · intro h
    unfold read at h
    split at h
    · cases h
    · rename_i hz
      split at h <;> cases h
      rename_i p hr
      exact ⟨by simpa using hz, p, hr⟩
  · rintro ⟨hz, p, hr⟩
    rw [read, hz, hr]
    rfl

namespace Writes

theorem isOpen (h : d.Writes r p) : d.tree.Open p := by
  obtain ⟨s, hr, hs⟩ := h.reaches
  obtain ⟨hne, hnode⟩ := stands_of_reach hr hs
  refine ⟨hne, fun e he => ?_⟩
  rw [hnode, Option.map_eq_some_iff] at he
  obtain ⟨b, -, hb⟩ := he
  exact ⟨b, hb.symm⟩

theorem fill (h : d.Writes r q) (hp : d.tree.Open p) (bytes : List UInt8) :
    (d.fill p bytes).Writes r q := by
  obtain ⟨s, hr, hs⟩ := h.reaches
  exact ⟨h.noZero, _, reach_fill hp bytes hr, (s.place?_filled p bytes).trans hs⟩

theorem write_eq (h : d.Writes r p) (bytes : List UInt8) :
    d.write r bytes = .ok (d.fill p bytes) := by
  obtain ⟨s, hr, hs⟩ := h.reaches
  rw [write, h.noZero, hr]
  cases s <;> cases hs <;> rfl

theorem read_fill (h : d.Writes r p) (bytes : List UInt8) :
    (d.fill p bytes).read r = .ok bytes := by
  obtain ⟨s, hr, hs⟩ := h.reaches
  have hfill := reach_fill h.isOpen bytes hr
  rw [Spot.filled_of_place? hs] at hfill
  exact read_eq_ok_iff.2 ⟨h.noZero, p, locate_of_making hfill⟩

theorem file?_eq (h : d.Writes r p) :
    d.file? r = .ok (some p) ∨ d.file? r = .ok none ∧ d.tree.node? p = none := by
  obtain ⟨s, hr, hs⟩ := h.reaches
  have hnode := (stands_of_reach hr hs).2
  rw [file?, h.noZero, locate_of_making hr]
  cases s with
  | file q b =>
    cases hs
    exact .inl rfl
  | directory q => cases hs
  | vacant q => exact .inr ⟨rfl, hnode⟩

/-- Of the files that can be read, the one at the place that was written has the new bytes, and all
others have their own. -/
theorem read_fill_of_read (h : d.Writes r p) (bytes : List UInt8) (hk : d.read k = .ok b) :
    (d.file? r = d.file? k → (d.fill p bytes).read k = .ok bytes) ∧
      (d.file? r ≠ d.file? k → (d.fill p bytes).read k = .ok b) := by
  obtain ⟨hz, q, hq⟩ := read_eq_ok_iff.1 hk
  have hfile : d.file? k = .ok (some q) := by
    rw [file?, hz, hq]
    rfl
  have hnode : d.tree.node? q = some (.file b) := (stands_of_reach hq rfl).2
  have hfill : (d.fill p bytes).locate k = .ok (Spot.filled p bytes (.file q b)) :=
    reach_fill h.isOpen bytes hq
  rw [hfile]
  by_cases hpq : q = p
  · rw [Spot.filled, if_pos hpq] at hfill
    refine ⟨fun _ => read_eq_ok_iff.2 ⟨hz, p, hfill⟩, fun hne => absurd ?_ hne⟩
    obtain hr | ⟨-, hnone⟩ := h.file?_eq
    · rw [hr, hpq]
    · rw [hpq, hnone] at hnode
      cases hnode
  · rw [Spot.filled, if_neg hpq] at hfill
    refine ⟨fun heq => absurd ?_ hpq, fun _ => read_eq_ok_iff.2 ⟨hz, q, hfill⟩⟩
    obtain hr | ⟨hr, -⟩ := h.file?_eq
    · rw [hr] at heq
      cases heq
      rfl
    · rw [hr] at heq
      cases heq

end Writes

theorem writes_of_write (h : d.write r bytes = .ok d') :
    ∃ p, d.Writes r p ∧ d' = d.fill p bytes := by
  unfold write at h
  split at h
  · cases h
  rename_i hz
  have hz : hasZero r = false := by simpa using hz
  split at h
  · rename_i p b hr
    cases h
    exact ⟨p, ⟨hz, _, hr, rfl⟩, rfl⟩
  · rename_i p hr
    cases h
    exact ⟨p, ⟨hz, _, hr, rfl⟩, rfl⟩
  · cases h
  · cases h

end Disk
end Splice
