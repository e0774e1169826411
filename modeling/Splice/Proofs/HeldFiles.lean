import Mathlib.Data.List.Infix
import Splice.Bundle
import Splice.Disk
import Splice.Proofs.NormalPath
import Splice.Proofs.Renaming

set_option autoImplicit false

namespace Splice

open Codec (Utf8.encode)

namespace Place

def below (p : Place) : Identity ↪ Identity where
  toFun i := text (p ++ [i])
  inj' := by
    intro i j h
    have hj := List.cons.inj h
    by_cases hp : p = []
    · subst hp
      exact hj.2
    · have he := hj.2
      rw [Text.join_append _ hp (by simp), Text.join_append _ hp (by simp)] at he
      exact List.append_cancel_left he

variable {p : Place} {ns : List Text}

theorem below_eq (p : Place) (i : Identity) :
    below p i = ['/'] ++ Text.join ['/'] (p ++ [i]) := rfl

theorem text_append (hn : ns ≠ []) : text (p ++ ns) = below p (Text.join ['/'] ns) := by
  rw [below_eq, text, List.singleton_append]
  by_cases hp : p = []
  · subst hp
    rfl
  · rw [Text.join_append _ hp hn, Text.join_append _ hp (by simp)]
    rfl

end Place

namespace Tree

variable {t : Tree} {p : Place} {n : Text} {ns rest : List Text}
  {follow : Place → List Text → Except PathFault Spot}

theorem byteCount_append (a b : Text) : byteCount (a ++ b) = byteCount a + byteCount b := by
  simp [byteCount, Codec.Utf8.encode]

structure IsStep (n : Text) : Prop where
  isName : Route.IsName n
  ne_up : n ≠ Path.up
  short : byteCount n ≤ nameLimit

instance : DecidablePred IsStep := fun n =>
  decidable_of_iff
    ((n ≠ [] ∧ n ≠ ['.'] ∧ '/' ∉ n) ∧ n ≠ Path.up ∧ byteCount n ≤ nameLimit)
    ⟨fun ⟨⟨hn, hp, hs⟩, hu, hl⟩ => ⟨⟨hn, hp, hs⟩, hu, hl⟩,
      fun ⟨⟨hn, hp, hs⟩, hu, hl⟩ => ⟨⟨hn, hp, hs⟩, hu, hl⟩⟩

theorem walkWith_cons (h : IsStep n) :
    t.walkWith false follow p (n :: rest) =
      match t.node? (p ++ [n]) with
      | none => if rest = [] then .ok (.vacant (p ++ [n])) else .error .missing
      | some .directory => t.walkWith false follow (p ++ [n]) rest
      | some (.file b) => if rest = [] then .ok (.file (p ++ [n]) b) else .error .notDirectory
      | some (.link target) => follow (linkStart p target) (linkSteps target ++ rest) := by
  have hn : ¬(n = [] ∨ n = ['.']) := by
    rintro (e | e)
    · exact h.isName.ne_nil e
    · exact h.isName.ne_point e
  rw [walkWith, if_neg hn, if_neg h.ne_up, if_neg (by simp)]
  exact if_neg (Nat.not_lt.2 h.short)

theorem walkWith_directories (hs : ∀ n ∈ ns, IsStep n)
    (hd : ∀ q, q <+: ns → q ≠ [] → t.node? (p ++ q) = some .directory) :
    t.walkWith false follow p (ns ++ rest) = t.walkWith false follow (p ++ ns) rest := by
  induction ns generalizing p with
  | nil => simp
  | cons n ns ih =>
    rw [List.forall_mem_cons] at hs
    have hn : t.node? (p ++ [n]) = some .directory := hd [n] (by simp) (by simp)
    rw [List.cons_append, walkWith_cons hs.1, hn]
    simp only
    rw [ih hs.2, List.append_assoc, List.singleton_append]
    intro q hq _
    have := hd (n :: q) ((List.prefix_cons_inj n).2 hq) (by simp)
    rwa [List.append_assoc, List.singleton_append]

def LeadsNowhere (x : Except PathFault Spot) : Prop :=
  x ≠ .error .tooLong ∧ ∀ p b, x ≠ .ok (.file p b)

end Tree

namespace Path

/-- A name that a file below a directory can have in a bundle and on a disk. -/
structure Storable (t : Text) : Prop where
  parts : ∀ n ∈ Text.pieces '/' t, n ≠ [] ∧ n ≠ ['.'] ∧ n ≠ up
  noBackslash : '\\' ∉ t
  noZero : '\x00' ∉ t

instance : DecidablePred Storable := fun t =>
  decidable_of_iff
    ((∀ n ∈ Text.pieces '/' t, n ≠ [] ∧ n ≠ ['.'] ∧ n ≠ up) ∧ '\\' ∉ t ∧ '\x00' ∉ t)
    ⟨fun ⟨hp, hb, hz⟩ => ⟨hp, hb, hz⟩, fun ⟨hp, hb, hz⟩ => ⟨hp, hb, hz⟩⟩

theorem Storable.isName {t n : Text} (h : Storable t) (hn : n ∈ Text.pieces '/' t) :
    Route.IsName n :=
  ⟨(h.parts n hn).1, (h.parts n hn).2.1, Text.not_mem_of_mem_pieces hn⟩

theorem Storable.namesOf_eq {t : Text} (h : Storable t) :
    Route.namesOf t = Text.pieces '/' t := by
  rw [Route.namesOf, List.filter_eq_self]
  intro n hn
  exact decide_eq_true ⟨(h.isName hn).ne_nil, (h.isName hn).ne_point⟩

end Path

namespace Disk

/-- The disk has the files of a bundle below its working directory, which is reached without links,
and neither other files nor links there. -/
structure Holds (d : Disk) (b : Bundle) : Prop where
  storable : ∀ i ∈ b.names, Path.Storable i
  cwd_steps : ∀ n ∈ d.cwd, Tree.IsStep n ∧ '\x00' ∉ n
  cwd_directories : ∀ p, p <+: d.cwd → d.tree.node? p = some .directory
  directories : ∀ i ∈ b.names, ∀ q, q <+: Text.pieces '/' i → q ≠ Text.pieces '/' i →
    d.tree.node? (d.cwd ++ q) = some .directory
  files : ∀ i t, b.content? i = some t →
    d.tree.node? (d.cwd ++ Text.pieces '/' i) = some (.file (Utf8.encode t))
  others : ∀ q e, d.tree.node? (d.cwd ++ q) = some e →
    e = .directory ∨ ∃ i ∈ b.names, q = Text.pieces '/' i

def Descends (d : Disk) (r : Route) (ns : List Text) : Prop := r = ⟨0, ns⟩ ∨ r = ⟨1, d.cwd ++ ns⟩

variable {d : Disk} {b : Bundle} {i : Identity} {t : Text} {r : Route} {n : Text}
  {ns : List Text}

theorem walk_eq_walkWith (t : Tree) (links : Nat) :
    ∃ follow, t.walk false links = t.walkWith false follow := by
  cases links with
  | zero => exact ⟨_, rfl⟩
  | succ links => exact ⟨_, rfl⟩

namespace Holds

variable {follow : Place → List Text → Except PathFault Spot} (h : d.Holds b)

include h

theorem walkWith_found (hc : b.content? i = some t)
    (hs : ∀ n ∈ Text.pieces '/' i, Tree.IsStep n) :
    d.tree.walkWith false follow d.cwd (Text.pieces '/' i) =
      .ok (.file (d.cwd ++ Text.pieces '/' i) (Utf8.encode t)) := by
  have hi : i ∈ b.names := Keyed.mem_keys_of_get? hc
  obtain ⟨init, last, hp⟩ := Text.exists_pieces '/' i
  have hf := h.files i t hc
  have hd := h.directories i hi
  rw [hp] at hs hf hd ⊢
  rw [Tree.walkWith_directories (fun n hn => hs n (List.mem_append_left _ hn)),
    Tree.walkWith_cons (hs last (by simp)), List.append_assoc, hf]
  · rfl
  · intro q hq _
    refine hd q (hq.trans (List.prefix_append init [last])) fun e => ?_
    have hle := hq.length_le
    rw [e, List.length_append, List.length_singleton] at hle
    omega

theorem walkWith_nowhere {q : List Text} (hs : ∀ n ∈ ns, Tree.IsStep n)
    (hn : ∀ i ∈ b.names, q ++ ns ≠ Text.pieces '/' i) :
    Tree.LeadsNowhere (d.tree.walkWith false follow (d.cwd ++ q) ns) := by
  induction ns generalizing q with
  | nil => simp [Tree.walkWith, Tree.LeadsNowhere]
  | cons n rest ih =>
    rw [List.forall_mem_cons] at hs
    rw [Tree.walkWith_cons hs.1, List.append_assoc]
    cases he : d.tree.node? (d.cwd ++ (q ++ [n])) with
    | none =>
      simp only
      split <;> simp [Tree.LeadsNowhere]
    | some e =>
      rcases h.others _ e he with rfl | ⟨i, hi, hq⟩
      · refine ih hs.2 ?_
        simpa using hn
      · obtain ⟨t, ht⟩ : ∃ t, b.content? i = some t := Keyed.exists_get?_of_mem hi
        have hf := h.files i t ht
        rw [← hq, he] at hf
        cases hf
        have hrest : rest ≠ [] := by
          rintro rfl
          exact hn i hi hq
        simp [hrest, Tree.LeadsNowhere]

theorem locate_eq (hr : d.Descends r ns) (hl : Tree.byteCount r.text < Tree.pathLimit) :
    ∃ follow, d.locate r = d.tree.walkWith false follow d.cwd ns := by
  obtain ⟨follow, hw⟩ := walk_eq_walkWith d.tree Tree.linkLimit
  refine ⟨follow, ?_⟩
  rw [locate, reach, if_neg (Nat.not_le.2 hl), hw]
  rcases hr with rfl | rfl
  · rfl
  · exact Tree.walkWith_directories (p := []) (fun n hn => (h.cwd_steps n hn).1)
      fun q hq _ => h.cwd_directories q hq

theorem hasZero_eq_false (hr : d.Descends r ns) (hz : ∀ n ∈ ns, '\x00' ∉ n) :
    hasZero r = false := by
  refine decide_eq_false fun hm => ?_
  have hnames : ∀ n ∈ r.names, '\x00' ∉ n := by
    rcases hr with rfl | rfl
    · exact hz
    · intro n hn
      rcases List.mem_append.1 hn with hn | hn
      · exact (h.cwd_steps n hn).2
      · exact hz n hn
  rcases Route.mem_text hm with hc | hc | ⟨n, hn, hc⟩
  · cases hc
  · cases hc
  · exact hnames n hn hc

theorem noZero (hi : i ∈ b.names) : ∀ n ∈ Text.pieces '/' i, '\x00' ∉ n := by
  intro n hn hz
  exact (h.storable i hi).noZero (Text.mem_of_mem_pieces hn hz)

theorem file?_found (hr : d.Descends r (Text.pieces '/' i)) (hi : i ∈ b.names)
    (hs : ∀ n ∈ Text.pieces '/' i, Tree.IsStep n)
    (hl : Tree.byteCount r.text < Tree.pathLimit) :
    d.file? r = .ok (some (d.cwd ++ Text.pieces '/' i)) := by
  obtain ⟨t, ht⟩ : ∃ t, b.content? i = some t := Keyed.exists_get?_of_mem hi
  obtain ⟨follow, hw⟩ := h.locate_eq hr hl
  rw [file?, h.hasZero_eq_false hr (h.noZero hi), hw, h.walkWith_found ht hs]
  rfl

theorem file?_missing (hr : d.Descends r ns) (hs : ∀ n ∈ ns, Tree.IsStep n)
    (hn : ∀ i ∈ b.names, ns ≠ Text.pieces '/' i)
    (hl : Tree.byteCount r.text < Tree.pathLimit) : d.file? r = .ok none := by
  obtain ⟨follow, hw⟩ := h.locate_eq hr hl
  have hno : Tree.LeadsNowhere (d.tree.walkWith false follow (d.cwd ++ []) ns) :=
    h.walkWith_nowhere hs hn
  rw [List.append_nil] at hno
  rw [file?, hw]
  split
  · rfl
  · split
    · rename_i p b he
      exact absurd he (hno.2 p b)
    · rfl
    · rename_i he
      exact absurd he hno.1
    · rfl

theorem read_eq (hr : d.Descends r (Text.pieces '/' i)) (hc : b.content? i = some t)
    (hs : ∀ n ∈ Text.pieces '/' i, Tree.IsStep n)
    (hl : Tree.byteCount r.text < Tree.pathLimit) : d.read r = .ok (Utf8.encode t) := by
  have hi : i ∈ b.names := Keyed.mem_keys_of_get? hc
  obtain ⟨follow, hw⟩ := h.locate_eq hr hl
  rw [read, h.hasZero_eq_false hr (h.noZero hi), hw, h.walkWith_found hc hs]
  rfl

end Holds

def directoriesFor (root : Place) (b : Bundle) : List Place :=
  root.inits ++ b.names.flatMap fun i => (Text.pieces '/' i).dropLast.inits.map (root ++ ·)

theorem pieces_injective (sep : Char) : Function.Injective (Text.pieces sep) := by
  intro i j h
  rw [← Text.join_pieces sep i, h, Text.join_pieces]

def placeBelow (root : Place) : Identity ↪ Place where
  toFun i := root ++ Text.pieces '/' i
  inj' := by
    intro i j h
    exact pieces_injective '/' (List.append_cancel_left h)

def ofBundle (root : Place) (b : Bundle) : Disk where
  tree := ⟨(directoriesFor root b).map (fun p => (p, Entry.directory)) ++
    b.files.map (Prod.map (placeBelow root) fun t => .file (Utf8.encode t))⟩
  cwd := root

section OfBundle

variable {root p : Place} {e : Entry} {l : List (Place × Entry)} {ps : List Place}

theorem get?_directories (h : p ∈ ps) :
    Keyed.get? p (ps.map (fun q => (q, e)) ++ l) = some e := by
  induction ps with
  | nil => cases h
  | cons q ps ih =>
    by_cases hq : q = p
    · simp [Keyed.get?, hq]
    · rcases List.mem_cons.1 h with rfl | h
      · exact absurd rfl hq
      · simpa [Keyed.get?, hq] using ih h

theorem get?_beside (h : p ∉ ps) :
    Keyed.get? p (ps.map (fun q => (q, e)) ++ l) = Keyed.get? p l := by
  induction ps with
  | nil => rfl
  | cons q ps ih =>
    rw [List.mem_cons, not_or] at h
    simpa [Keyed.get?, Ne.symm h.1] using ih h.2

theorem node?_directory (h : p ∈ directoriesFor root b) :
    (ofBundle root b).tree.node? p = some .directory := by
  rw [Tree.node?]
  split
  · rfl
  · exact get?_directories h

theorem mem_directoriesFor (hi : i ∈ b.names) {q : Place}
    (hq : q <+: (Text.pieces '/' i).dropLast) : root ++ q ∈ directoriesFor root b := by
  refine List.mem_append_right _ (List.mem_flatMap.2 ⟨i, hi, ?_⟩)
  exact List.mem_map_of_mem ((List.mem_inits _ _).2 hq)

theorem not_mem_directoriesFor
    (hp : ∀ i ∈ b.names, ∀ j ∈ b.names, ¬(i ++ ['/']) <+: j) (hi : i ∈ b.names) :
    placeBelow root i ∉ directoriesFor root b := by
  have hne := Text.pieces_ne_nil '/' i
  intro hm
  rcases List.mem_append.1 hm with hm | hm
  · have hle := ((List.mem_inits _ _).1 hm).length_le
    have hpos := List.length_pos_iff.2 hne
    change (root ++ Text.pieces '/' i).length ≤ root.length at hle
    rw [List.length_append] at hle
    omega
  · obtain ⟨j, hj, hm⟩ := List.mem_flatMap.1 hm
    obtain ⟨q, hq, he⟩ := List.mem_map.1 hm
    cases List.append_cancel_left he
    obtain ⟨init, last, hlast⟩ := Text.exists_pieces '/' j
    rw [hlast, List.dropLast_concat, List.mem_inits] at hq
    obtain ⟨rest, rfl⟩ := hq
    refine hp i hi j hj ⟨Text.join ['/'] (rest ++ [last]), ?_⟩
    rw [← Text.join_pieces '/' j, hlast, List.append_assoc (Text.pieces '/' i),
      Text.join_append _ hne (by simp), Text.join_pieces]

/-- Every bundle of names that can stand beside each other is held by a disk. -/
theorem holds_ofBundle (hs : ∀ i ∈ b.names, Path.Storable i)
    (hp : ∀ i ∈ b.names, ∀ j ∈ b.names, ¬(i ++ ['/']) <+: j)
    (hr : ∀ n ∈ root, Tree.IsStep n ∧ '\x00' ∉ n) : (ofBundle root b).Holds b where
  storable := hs
  cwd_steps := hr
  cwd_directories p hp := node?_directory (List.mem_append_left _ ((List.mem_inits _ _).2 hp))
  directories := by
    intro i hi q hq hne
    obtain ⟨init, last, hlast⟩ := Text.exists_pieces '/' i
    refine node?_directory (mem_directoriesFor hi ?_)
    rw [hlast] at hq hne ⊢
    rw [List.dropLast_concat]
    exact (List.prefix_concat_iff.1 hq).resolve_left hne
  files := by
    intro i t hc
    have hi : i ∈ b.names := Keyed.mem_keys_of_get? hc
    have hn : placeBelow root i ≠ [] := by
      intro hn
      exact Text.pieces_ne_nil '/' i (List.append_eq_nil_iff.1 hn).2
    change (ofBundle root b).tree.node? (placeBelow root i) = _
    rw [Tree.node?, if_neg hn]
    refine (get?_beside (not_mem_directoriesFor hp hi)).trans ?_
    rw [Keyed.get?_map]
    exact congrArg (Option.map fun t => Entry.file (Utf8.encode t)) hc
  others := by
    intro q e he
    rw [Tree.node?] at he
    split at he
    · exact .inl (Option.some.inj he).symm
    rcases List.mem_append.1 (Keyed.mem_of_get? he) with hm | hm
    · obtain ⟨p, -, hp⟩ := List.mem_map.1 hm
      exact .inl (Prod.mk.inj hp).2.symm
    · obtain ⟨⟨i, t⟩, hi, hp⟩ := List.mem_map.1 hm
      refine .inr ⟨i, List.mem_map_of_mem hi, ?_⟩
      exact (List.append_cancel_left (Prod.mk.inj hp).1).symm

end OfBundle
end Disk
end Splice
