import Splice.Disk.Change
import Splice.Proofs.FilledDisks

set_option autoImplicit false

namespace Splice

namespace Tree

/-- The tree is as disks have them, and a link can lead along its target. -/
structure Sound (t : Tree) : Prop where
  wellFormed : t.WellFormed
  links : ∀ p target, t.node? p = some (.link target) → '\x00' ∉ target

variable {t : Tree} {making : Bool} {links : Nat} {o p q : Place} {n : Text} {e e' : Entry}
  {steps : List Text} {follow : Place → List Text → Except PathFault Spot}

theorem sound_empty : empty.Sound := by
  refine ⟨⟨by simp [empty], by simp [empty]⟩, fun p target h => ?_⟩
  unfold node? at h
  split at h <;> cases h

theorem node?_put_of_none (hp : t.node? p = none) (e : Entry) (hq : t.node? q = some e') :
    (t.put p e).node? q = some e' := by
  have hne : p ≠ [] := by
    rintro rfl
    cases hp
  rw [node?_put hne, if_neg, hq]
  rintro rfl
  cases hp.symm.trans hq

theorem Sound.put (ht : t.Sound) (hfits : t.Fits p) (hp : t.node? p = none)
    (he : ∀ target, e = .link target → '\x00' ∉ target) : (t.put p e).Sound := by
  have hne : p ≠ [] := by
    rintro rfl
    cases hp
  refine ⟨ht.wellFormed.put_of_kept hfits fun _ => node?_put_of_none hp e, fun q target h => ?_⟩
  rw [node?_put hne] at h
  split at h
  · exact he target (Option.some.inj h)
  · exact ht.links q target h

theorem node?_erase (hp : p ≠ []) (q : Place) :
    (t.erase p).node? q = if q = p then none else t.node? q := by
  by_cases hq : q = []
  · subst hq
    simp [node?, Ne.symm hp]
  · have hget := Keyed.get?_filter (fun k => k ≠ p) q t.entries
    simp only [node?, erase, if_neg hq, hget]
    by_cases hqp : q = p <;> simp [hqp]

theorem Sound.erase (ht : t.Sound) (hp : t.node? p = some e) (he : e ≠ .directory) :
    (t.erase p).Sound ∧
      ∀ q, t.node? q = some .directory → (t.erase p).node? q = some .directory := by
  have hne : p ≠ [] := by
    rintro rfl
    exact he (Option.some.inj hp).symm
  have hkept : ∀ q, t.node? q = some .directory → (t.erase p).node? q = some .directory := by
    intro q hq
    rw [node?_erase hne, if_neg, hq]
    rintro rfl
    exact he (Option.some.inj (hp.symm.trans hq))
  have hmem : ∀ q ∈ (t.erase p).entries, q ∈ t.entries := fun q hq => (List.mem_filter.1 hq).1
  refine ⟨⟨⟨fun q hq => ht.wellFormed.names q (hmem q hq), fun q hq =>
    hkept _ (ht.wellFormed.parents q (hmem q hq))⟩, fun q target h => ?_⟩, hkept⟩
  rw [node?_erase hne] at h
  split at h
  · cases h
  · exact ht.links q target h

theorem directory_of_walkWith (ht : t.WellFormed)
    (hf : ∀ {o steps}, t.node? o = some .directory → follow o steps = .ok (.directory q) →
      t.node? q = some .directory)
    (ho : t.node? o = some .directory)
    (h : t.walkWith making follow o steps = .ok (.directory q)) :
    t.node? q = some .directory := by
  have hends := ends_of_walkWith h
  generalize hs : Spot.directory q = s at hends
  clear h
  induction hends with
  | done o =>
    cases hs
    exact ho
  | stay _ _ ih => exact ih ho hs
  | up _ ih => exact ih (ht.node?_dropLast ho) hs
  | vacant => cases hs
  | file => cases hs
  | directory _ hnode _ ih => exact ih hnode hs
  | link _ _ hlink =>
    cases hs
    exact hf (node?_linkStart ho _) hlink

theorem directory_of_walk (ht : t.WellFormed) (ho : t.node? o = some .directory)
    (h : t.walk making links o steps = .ok (.directory q)) : t.node? q = some .directory := by
  induction links generalizing o steps with
  | zero => exact directory_of_walkWith ht (fun _ h => by cases h) ho h
  | succ links ih => exact directory_of_walkWith ht (fun ho h => ih ho h) ho h

end Tree

theorem Route.mem_text_of_mem {r : Route} {n : Text} {c : Char} (hn : n ∈ r.names) (hc : c ∈ n) :
    c ∈ r.text := by
  rw [Route.text, if_neg fun h => List.ne_nil_of_mem hn h.2]
  exact List.mem_append_right _ (Text.mem_join_of_mem _ hn hc)

namespace Disk

structure Sound (d : Disk) : Prop where
  tree : d.tree.Sound
  cwd : d.tree.node? d.cwd = some .directory

variable {d d' : Disk} {p q : Place} {r : Route} {n target : Text} {names : List Text}
  {bytes : List UInt8} {e : Entry}

theorem Sound.wellFormed (hd : d.Sound) : d.WellFormed := ⟨hd.tree.wellFormed, hd.cwd⟩

theorem not_mem_of_hasZero (hr : ¬hasZero r) (hn : n ∈ r.names) : '\x00' ∉ n := fun hc =>
  hr (decide_eq_true (Route.mem_text_of_mem hn hc))

theorem sound_bare : Sound ⟨.empty, []⟩ := ⟨Tree.sound_empty, rfl⟩

theorem Sound.move (hd : d.Sound) (h : d.move r = .ok d') : d'.Sound := by
  unfold Disk.move at h
  split at h
  · rename_i q hq
    cases h
    refine ⟨hd.tree, ?_⟩
    unfold locate reach at hq
    split at hq
    · cases hq
    · exact Tree.directory_of_walk hd.tree.wellFormed (origin_directory hd.wellFormed r) hq
  · cases h
  · cases h
  · cases h

theorem Sound.put (hd : d.Sound) (hfits : d.tree.Fits p) (hp : d.tree.node? p = none)
    (he : ∀ target, e = .link target → '\x00' ∉ target) :
    Sound { d with tree := d.tree.put p e } :=
  ⟨hd.tree.put hfits hp he, Tree.node?_put_of_none hp e hd.cwd⟩

/-- Directories are made where nothing stands, so those that were there stay. -/
theorem Sound.furnish (hd : d.Sound) (hp : d.tree.node? p = some .directory)
    (hn : ∀ n ∈ names, '/' ∉ n) (h : d.furnish p r names = .ok (d', q)) :
    d'.Sound ∧ d'.tree.node? q = some .directory ∧
      ∀ o, d.tree.node? o = some .directory → d'.tree.node? o = some .directory := by
  induction names generalizing d p r with
  | nil =>
    cases h
    exact ⟨hd, hp, fun _ ho => ho⟩
  | cons n names ih =>
    rw [List.forall_mem_cons] at hn
    unfold Disk.furnish at h
    dsimp only at h
    split at h
    · rename_i m hm
      exact ih hd (Tree.directory_of_walk hd.tree.wellFormed hp hm) hn.2 h
    · rename_i m hm
      split at h
      · cases h
      rename_i hz
      split at h
      -- A walk that ends elsewhere has followed a link to nothing, and then nothing is made.
      · rename_i hlast
        subst hlast
        have hzero : '\x00' ∉ n := not_mem_of_hasZero hz (by simp)
        have hfits := Tree.fits_of_walk hd.tree.wellFormed hd.tree.links hp
          (by simpa [Tree.Plain] using ⟨hn.1, hzero⟩) hm rfl
        have hnone := (Tree.stands_of_walk hm rfl).2
        have hput : (d.tree.put (p ++ [n]) .directory).node? (p ++ [n]) = some .directory := by
          rw [Tree.node?_put (by simp), if_pos rfl]
        obtain ⟨hsound, hq, hkept⟩ := ih (hd.put hfits hnone (by simp)) hput hn.2 h
        exact ⟨hsound, hq, fun o ho => hkept o (Tree.node?_put_of_none hnone _ ho)⟩
      · cases names <;> cases h
    · cases names <;> cases h
    · cases h
    · cases names <;> cases h

theorem Sound.link (hd : d.Sound) (hq : d.tree.node? q = some .directory) (hn : '/' ∉ n)
    (hr : n ≠ [] → n ∈ r.names) (h : d.link q r n target = .ok d') : d'.Sound := by
  unfold Disk.link at h
  split at h
  · cases h
  rename_i hzero
  split at h
  · cases h
  rename_i hname
  split at h
  · cases h
  rename_i hshort
  split at h
  · cases h
  cases h
  rw [not_or] at hzero hname
  simp only [List.mem_cons, List.not_mem_nil, or_false, not_or, Bool.not_eq_true,
    Option.isSome_eq_false_iff, Option.isNone_iff_eq_none] at hname
  obtain ⟨⟨hnil, hpoint, hup⟩, hnone⟩ := hname
  refine hd.put ⟨fun m hm => ?_, by rwa [List.dropLast_concat]⟩ hnone fun _ he => ?_
  · rcases List.mem_append.1 hm with hm | hm
    · exact hd.tree.wellFormed.isStep hq hm
    · rw [List.mem_singleton.1 hm]
      exact ⟨⟨⟨hnil, hpoint, hn⟩, hup, Nat.le_of_not_lt hshort⟩,
        not_mem_of_hasZero hzero.1 (hr hnil)⟩
  · cases he
    exact hzero.2

theorem Sound.write (hd : d.Sound) (hr : r.Spelled) (h : d.write r bytes = .ok d') :
    d'.Sound := by
  obtain ⟨p, hw, rfl⟩ := writes_of_write h
  have hwf := hw.wellFormed_fill hd.wellFormed (hw.fits hd.wellFormed hd.tree.links hr) bytes
  refine ⟨⟨hwf.tree, fun q target hq => ?_⟩, hwf.cwd⟩
  rw [fill, Tree.node?_put hw.isOpen.ne_nil] at hq
  split at hq
  · cases hq
  · exact hd.tree.links q target hq

theorem Sound.plant (hd : d.Sound) (hp : d.tree.node? p = some .directory)
    (hn : ∀ n ∈ names, Route.IsName n) (h : d.plant p names e = .ok d') : d'.Sound := by
  have hslash : ∀ n ∈ names, '/' ∉ n := fun n h => (hn n h).not_mem
  unfold Disk.plant at h
  dsimp only at h
  split at h
  · cases h
  rename_i d₁ q hfurnish
  obtain ⟨hd₁, hq, hkept⟩ :=
    hd.furnish hp (fun n h => hslash n (List.mem_of_mem_dropLast h)) hfurnish
  split at h
  · cases hfull : d₁.furnish p ⟨1, p⟩ names with
    | error f =>
      rw [hfull] at h
      cases h
    | ok x =>
      rw [hfull] at h
      cases h
      exact (hd₁.furnish (hkept p hp) hslash hfull).1
  · refine hd₁.write (Route.ofText_text (by simp) fun n hm => ?_) h
    rcases List.mem_append.1 hm with hm | hm
    · exact (hd.tree.wellFormed.isStep hp hm).1.isName
    · exact hn n hm
  · cases hlast : names.getLast? with
    | none =>
      rw [hlast] at h
      exact hd₁.link hq (by simp) (fun hnil => absurd rfl hnil) h
    | some m =>
      have hm : m ∈ names := List.mem_of_getLast? hlast
      rw [hlast] at h
      exact hd₁.link hq (hslash m hm) (fun _ => List.mem_append_right _ hm) h

theorem Sound.uproot (hd : d.Sound) (h : d.uproot p names = .ok d') : d'.Sound := by
  unfold Disk.uproot at h
  dsimp only at h
  split at h
  · cases h
  · cases h
  · cases h
  · cases h
  · split at h
    · cases h
    split at h
    · cases h
    split at h
    · cases h
    · cases h
    · rename_i e hno hnode
      cases h
      have he : e ≠ .directory := fun he => hno he
      obtain ⟨htree, hkept⟩ := hd.tree.erase hnode he
      exact ⟨htree, hkept _ hd.cwd⟩

/-- The disks that changes make of an empty one. -/
inductive Arises : Disk → Prop
  | bare : Arises ⟨.empty, []⟩
  | moved {d d' : Disk} {r : Route} : Arises d → d.move r = .ok d' → Arises d'
  | planted {d d' : Disk} {p : Place} {names : List Text} {e : Entry} :
    Arises d → d.tree.node? p = some .directory → (∀ n ∈ names, Route.IsName n) →
      d.plant p names e = .ok d' → Arises d'
  | uprooted {d d' : Disk} {p : Place} {names : List Text} :
    Arises d → d.uproot p names = .ok d' → Arises d'

/-- What the results about disks ask of one holds of every disk that changes make. -/
theorem Arises.sound (h : d.Arises) : d.Sound := by
  induction h with
  | bare => exact sound_bare
  | moved _ hmove ih => exact ih.move hmove
  | planted _ hp hn hplant ih => exact ih.plant hp hn hplant
  | uprooted _ huproot ih => exact ih.uproot huproot

end Disk
end Splice
