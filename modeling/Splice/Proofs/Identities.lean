import Splice.Proofs.BundleOnDisk

/-!
Identities of files on a disk. The identity of a file is its real path: absolute, without names that
drop out and without links. It resolves to itself, and all references that lead to one file resolve
to the identity of that file. Both need that paths are short enough for the disk. A file far down is
found by a short path, but not by its identity; and a link that is met at too long a path, while a
path is resolved, stays in the identity.
-/

set_option autoImplicit false

namespace Splice

namespace Route

variable {r a b : Route}

instance : DecidablePred Spelled := fun r => inferInstanceAs (Decidable (ofText r.text = r))

theorem spelled_ofText (t : Text) : (ofText t).Spelled :=
  ofText_text (leading_le t) fun _ => isName_of_mem_namesOf

theorem Spelled.slashes_le (h : r.Spelled) : r.slashes ≤ 2 := by
  rw [← h]
  exact leading_le _

theorem Spelled.append (ha : a.Spelled) (hb : b.Spelled) : (a.append b).Spelled := by
  unfold Route.append
  split
  · exact hb
  · refine ofText_text ha.slashes_le fun n hn => ?_
    exact (List.mem_append.1 hn).elim ha.isName hb.isName

theorem Spelled.parent (h : r.Spelled) : r.parent.Spelled :=
  ofText_text h.slashes_le fun _ hn => h.isName (List.mem_of_mem_dropLast hn)

end Route

namespace Tree

/-- The absolute path of a file, without names that drop out and without links. -/
structure IsReal (t : Tree) (i : Identity) : Prop where
  absolute : i.head? = some '/'
  names : ∀ n ∈ (Text.pieces '/' i).tail, n ≠ [] ∧ n ≠ ['.'] ∧ n ≠ Path.up
  noLink : ∀ q, q <+: (Text.pieces '/' i).tail → ∀ target, t.node? q ≠ some (.link target)
  isFile : ∃ b, t.node? (Text.pieces '/' i).tail = some (.file b)

variable {t : Tree} {p : Place} {i : Identity} {b : List UInt8}

theorem ne_nil_of_file (h : t.node? p = some (.file b)) : p ≠ [] := by
  rintro rfl
  cases h

theorem tail_pieces_text (hp : p ≠ []) (hn : ∀ n ∈ p, '/' ∉ n) :
    (Text.pieces '/' p.text).tail = p := by
  have hpieces : Text.pieces '/' p.text = [] :: Text.pieces '/' (Text.join ['/'] p) := if_pos rfl
  rw [hpieces, List.tail_cons, Text.pieces_join hp hn]

theorem WellFormed.isReal (ht : t.WellFormed) (h : t.node? p = some (.file b)) :
    t.IsReal p.text := by
  have hstep : ∀ n ∈ p, IsStep n := fun n hn => (ht.isStep h hn).1
  have hp := tail_pieces_text (ne_nil_of_file h) fun n hn => (hstep n hn).isName.not_mem
  refine ⟨rfl, ?_, ?_, ?_⟩ <;> rw [hp]
  · intro n hn
    exact ⟨(hstep n hn).isName.ne_nil, (hstep n hn).isName.ne_point, (hstep n hn).ne_up⟩
  · -- What stands above a file is a directory.
    intro q hq target he
    by_cases hne : q = p
    · cases (hne ▸ he).symm.trans h
    · cases he.symm.trans (ht.directory_of_prefix h hq hne)
  · exact ⟨b, h⟩

theorem IsReal.isAbsolute (h : t.IsReal i) : (Route.ofText i).isAbsolute = true :=
  decide_eq_true (Route.leading_ne_zero h.absolute)

theorem IsReal.exists_place (h : t.IsReal i) :
    ∃ p b, i = Place.text p ∧ t.node? p = some (.file b) := by
  obtain ⟨b, hb⟩ := h.isFile
  refine ⟨_, b, ?_, hb⟩
  obtain ⟨rest, rfl⟩ : ∃ rest, i = '/' :: rest := List.head?_eq_some_iff.1 h.absolute
  have hpieces : Text.pieces '/' ('/' :: rest) = [] :: Text.pieces '/' rest := if_pos rfl
  rw [hpieces, List.tail_cons, Place.text, Text.join_pieces]

end Tree

namespace Disk

structure WellFormed (d : Disk) : Prop where
  tree : d.tree.WellFormed
  cwd : d.tree.node? d.cwd = some .directory

structure Finds (d : Disk) (r : Route) (q : Place) : Prop where
  noZero : hasZero r = false
  short : Tree.byteCount r.text < Tree.pathLimit
  isFile : ∃ b, d.tree.node? q = some (.file b)
  leads : ∃ k ≤ Tree.linkLimit, d.tree.Leads (d.origin r) r.names k q

variable {d : Disk} {r : Route} {p : Place} {b : List UInt8}

theorem WellFormed.isStep (hd : d.WellFormed) : ∀ n ∈ d.cwd, Tree.IsStep n :=
  fun _ hn => (hd.tree.isStep hd.cwd hn).1

theorem origin_directory (hd : d.WellFormed) (r : Route) :
    d.tree.node? (d.origin r) = some .directory := by
  unfold origin
  split
  · rfl
  · exact hd.cwd

theorem locate_eq_file_iff (hd : d.WellFormed) :
    d.locate r = .ok (.file p b) ↔
      Tree.byteCount r.text < Tree.pathLimit ∧ d.tree.node? p = some (.file b) ∧
        ∃ k ≤ Tree.linkLimit, d.tree.Leads (d.origin r) r.names k p := by
  rw [locate, reach]
  by_cases hl : Tree.pathLimit ≤ Tree.byteCount r.text
  · rw [if_pos hl]
    constructor
    · intro h
      cases h
    · intro h
      exact absurd hl (Nat.not_le.2 h.1)
  · rw [if_neg hl, Tree.walk_eq_file_iff hd.tree (origin_directory hd r)]
    exact ⟨fun h => ⟨Nat.lt_of_not_le hl, h⟩, fun h => h.2⟩

theorem file?_eq_some_iff (hd : d.WellFormed) : d.file? r = .ok (some p) ↔ d.Finds r p := by
  constructor
  · intro h
    unfold file? at h
    split at h
    · cases h
    · rename_i hz
      split at h <;> cases h
      rename_i b hloc
      obtain ⟨hshort, hb, hleads⟩ := (locate_eq_file_iff hd).1 hloc
      exact ⟨by simpa using hz, hshort, ⟨b, hb⟩, hleads⟩
  · rintro ⟨hz, hshort, ⟨b, hb⟩, hleads⟩
    have hloc : d.locate r = .ok (.file p b) := (locate_eq_file_iff hd).2 ⟨hshort, hb, hleads⟩
    rw [file?, hz, hloc]
    rfl

theorem isFile_eq_true_iff (hd : d.WellFormed) :
    d.isFile r = .ok true ↔ ∃ p, d.Finds r p := by
  simp only [← file?_eq_some_iff hd, isFile]
  cases d.file? r with
  | error e => simp [Except.map]
  | ok found => cases found <;> simp [Except.map]

theorem hasZero_place (hd : d.WellFormed) {e : Entry} (h : d.tree.node? p = some e) :
    hasZero ⟨1, p⟩ = false := by
  refine decide_eq_false fun hm => ?_
  rcases Route.mem_text hm with hc | hc | ⟨n, hn, hc⟩
  · cases hc
  · cases hc
  · exact (hd.tree.isStep h hn).2 hc

theorem finds_place (hd : d.WellFormed) (h : d.tree.node? p = some (.file b))
    (hl : Tree.byteCount p.text < Tree.pathLimit) : d.Finds ⟨1, p⟩ p :=
  ⟨hasZero_place hd h, hl, ⟨b, h⟩, 0, Nat.zero_le _, Tree.leads_path hd.tree h (by simp)⟩

theorem spelled_place (hd : d.WellFormed) {e : Entry} (h : d.tree.node? p = some e) :
    Route.Spelled ⟨1, p⟩ :=
  Route.ofText_text (Nat.le_succ 1) fun _ hn => (hd.tree.isStep h hn).1.isName

theorem legible_place (hd : d.WellFormed) (h : d.tree.node? p = some (.file b)) :
    d.Legible ⟨1, p⟩ :=
  legible_of_leads hd.isStep (spelled_place hd h) (Tree.leads_path hd.tree h (by simp))

theorem Finds.real_eq (hd : d.WellFormed) (hr : r.Spelled) (hlegible : d.Legible r)
    (h : d.Finds r p) : d.real r = .ok ⟨1, p⟩ := by
  obtain ⟨b, hb⟩ := h.isFile
  obtain ⟨k, hk, hleads⟩ := h.leads
  refine Disk.real_eq hd.isStep hr h.noZero hlegible hleads hk fun hl => ?_
  exact (file?_eq_some_iff hd).2 (finds_place hd hb hl)

section OfBundle

variable {bundle : Bundle} {root : Place}

theorem mem_directoriesFor_iff :
    p ∈ directoriesFor root bundle ↔
      p <+: root ∨ ∃ i ∈ bundle.names, ∃ q, q <+: (Text.pieces '/' i).dropLast ∧ root ++ q = p := by
  simp only [directoriesFor, List.mem_append, List.mem_flatMap, List.mem_map, List.mem_inits]

theorem dropLast_mem_directoriesFor (h : p ∈ directoriesFor root bundle) :
    p.dropLast ∈ directoriesFor root bundle := by
  rw [mem_directoriesFor_iff] at h ⊢
  rcases h with h | ⟨i, hi, q, hq, rfl⟩
  · exact .inl ((List.dropLast_prefix p).trans h)
  · by_cases hne : q = []
    · rw [hne, List.append_nil]
      exact .inl (List.dropLast_prefix root)
    · rw [List.dropLast_append_of_ne_nil hne]
      exact .inr ⟨i, hi, q.dropLast, (List.dropLast_prefix q).trans hq, rfl⟩

theorem wellFormed_ofBundle
    (hb : ∀ i ∈ bundle.names, ∀ n ∈ Text.pieces '/' i, Tree.IsStep n ∧ '\x00' ∉ n)
    (hr : ∀ n ∈ root, Tree.IsStep n ∧ '\x00' ∉ n) : (ofBundle root bundle).WellFormed := by
  refine ⟨⟨?_, ?_⟩, node?_directory (List.mem_append_left _ ((List.mem_inits _ _).2 ?_))⟩
  · intro q hq
    rcases List.mem_append.1 hq with hq | hq
    · obtain ⟨p, hp, rfl⟩ := List.mem_map.1 hq
      rcases mem_directoriesFor_iff.1 hp with hp | ⟨i, hi, q', hq', rfl⟩
      · exact fun n hn => hr n (hp.subset hn)
      · intro n hn
        rcases List.mem_append.1 hn with hn | hn
        · exact hr n hn
        · exact hb i hi n ((hq'.trans (List.dropLast_prefix _)).subset hn)
    · obtain ⟨⟨i, t⟩, hi, rfl⟩ := List.mem_map.1 hq
      intro n hn
      exact (List.mem_append.1 hn).elim (hr n) (hb i (List.mem_map_of_mem hi) n)
  · intro q hq
    rcases List.mem_append.1 hq with hq | hq
    · obtain ⟨p, hp, rfl⟩ := List.mem_map.1 hq
      exact node?_directory (dropLast_mem_directoriesFor hp)
    · obtain ⟨⟨i, t⟩, hi, rfl⟩ := List.mem_map.1 hq
      have hne := Text.pieces_ne_nil '/' i
      have hlast : (root ++ Text.pieces '/' i).dropLast = root ++ (Text.pieces '/' i).dropLast :=
        List.dropLast_append_of_ne_nil hne
      change (ofBundle root bundle).tree.node? (root ++ Text.pieces '/' i).dropLast = _
      rw [hlast]
      exact node?_directory (mem_directoriesFor (List.mem_map_of_mem hi) (List.prefix_refl _))
  · exact List.prefix_refl root

end OfBundle

end Disk

namespace Locator

def Spelled (l : Locator) : Prop := ∀ p ∈ l.searchPaths ++ [l.fallback], p.Spelled

instance : DecidablePred Spelled := fun l =>
  inferInstanceAs (Decidable (∀ p ∈ l.searchPaths ++ [l.fallback], p.Spelled))

/-- A reference comes to be looked for at a path: what it is looked for before is no file. -/
inductive Tries (l : Locator) (d : Disk) : Reference → Route → Prop
  | searched {name : Text} {before after : List Route} {route : Route} :
    l.candidates d name = before ++ route :: after → (∀ c ∈ before, d.isFile c = .ok false) →
      Tries l d (.searched name) route
  | relative {name parent : Text} {b : Route} :
    base d parent = .ok b → Tries l d (.relative name parent) (b.append (.ofText name))

/-- All links on the way to the file of a reference are seen. -/
def Legible (l : Locator) (d : Disk) (ref : Reference) : Prop :=
  ∀ route, l.Tries d ref route → d.isFile route = .ok true → d.Legible route

/-- A reference leads to a file by a path that is within the limits of the disk. -/
def LeadsTo (l : Locator) (d : Disk) (ref : Reference) (p : Place) : Prop :=
  ∃ route, l.Tries d ref route ∧ d.Legible route ∧ d.Finds route p

variable {l : Locator} {d : Disk} {ref : Reference} {route : Route} {p : Place} {i : Identity}

theorem firstFile_eq_some_iff {rs : List Route} :
    firstFile d rs = .ok (some route) ↔
      (∃ before after, rs = before ++ route :: after ∧ ∀ c ∈ before, d.isFile c = .ok false) ∧
        d.isFile route = .ok true := by
  induction rs with
  | nil => simp [firstFile]
  | cons r rs ih =>
    unfold firstFile
    constructor
    · intro h
      split at h
      · cases h
      · rename_i hr
        cases h
        exact ⟨⟨[], rs, rfl, by simp⟩, hr⟩
      · rename_i hr
        obtain ⟨⟨before, after, rfl, hbefore⟩, hroute⟩ := ih.1 h
        exact ⟨⟨r :: before, after, rfl, List.forall_mem_cons.2 ⟨hr, hbefore⟩⟩, hroute⟩
    · rintro ⟨⟨before, after, hrs, hbefore⟩, hroute⟩
      cases before with
      | nil =>
        cases hrs
        rw [hroute]
      | cons c before =>
        cases hrs
        rw [List.forall_mem_cons] at hbefore
        rw [hbefore.1]
        exact ih.2 ⟨⟨before, after, rfl, hbefore.2⟩, hroute⟩

theorem route?_eq_some_iff :
    l.route? d ref = .ok (some route) ↔ l.Tries d ref route ∧ d.isFile route = .ok true := by
  cases ref with
  | searched name =>
    rw [route?, firstFile_eq_some_iff]
    refine and_congr_left fun _ => ⟨?_, ?_⟩
    · rintro ⟨before, after, hrs, hbefore⟩
      exact .searched hrs hbefore
    · rintro ⟨hrs, hbefore⟩
      exact ⟨_, _, hrs, hbefore⟩
  | relative name parent =>
    rw [route?]
    constructor
    · intro h
      split at h
      · cases h
      · rename_i b hb
        obtain ⟨⟨before, after, hrs, -⟩, hroute⟩ := firstFile_eq_some_iff.1 h
        obtain ⟨rfl, hrest⟩ : before = [] ∧ after = [] := by
          have hlen := congrArg List.length hrs
          simp only [List.length_append, List.length_cons, List.length_nil] at hlen
          exact ⟨List.length_eq_zero_iff.1 (by omega), List.length_eq_zero_iff.1 (by omega)⟩
        cases hrs
        exact ⟨.relative hb, hroute⟩
    · rintro ⟨h, hroute⟩
      cases h with
      | relative hb =>
        rw [hb]
        exact firstFile_eq_some_iff.2 ⟨⟨[], [], rfl, by simp⟩, hroute⟩

theorem Tries.spelled (h : l.Tries d ref route) (hd : d.WellFormed) (hl : l.Spelled) :
    route.Spelled := by
  have hcwd : Route.Spelled ⟨1, d.cwd⟩ := Disk.spelled_place hd hd.cwd
  cases h with
  | @searched name before after _ hrs _ =>
    have hm : route ∈ l.candidates d name := by
      rw [hrs]
      simp
    unfold candidates at hm
    simp only at hm
    split at hm
    · rw [List.mem_singleton.1 hm]
      exact Route.spelled_ofText name
    split at hm
    · rw [List.mem_singleton.1 hm]
      exact hcwd.append (Route.spelled_ofText name)
    · obtain ⟨dir, hdir, rfl⟩ := List.mem_map.1 hm
      exact (hl dir hdir).append (Route.spelled_ofText name)
  | @relative name parent b hb =>
    refine Route.Spelled.append ?_ (Route.spelled_ofText name)
    have hparent := Route.spelled_ofText parent
    unfold base at hb
    simp only at hb
    split at hb
    · cases hb
    · cases hb
      exact hparent.parent
    · cases hb
      exact hparent

theorem resolve_of_leadsTo (hd : d.WellFormed) (hl : l.Spelled) (h : l.LeadsTo d ref p) :
    l.resolve d ref = .ok (some p.text) := by
  obtain ⟨route, htries, hlegible, hfinds⟩ := h
  have hfile : d.isFile route = .ok true := (Disk.isFile_eq_true_iff hd).2 ⟨p, hfinds⟩
  have hroute : l.route? d ref = .ok (some route) := route?_eq_some_iff.2 ⟨htries, hfile⟩
  have hreal : d.real route = .ok ⟨1, p⟩ := hfinds.real_eq hd (htries.spelled hd hl) hlegible
  rw [resolve, hroute]
  simp only [hreal]
  rfl

theorem leadsTo_of_resolve (hd : d.WellFormed) (hl : l.Spelled) (hlegible : l.Legible d ref)
    (h : l.resolve d ref = .ok (some i)) : ∃ p, l.LeadsTo d ref p ∧ i = p.text := by
  have h' := h
  unfold resolve at h
  split at h
  · cases h
  · cases h
  · rename_i route hroute
    obtain ⟨htries, hfile⟩ := route?_eq_some_iff.1 hroute
    obtain ⟨p, hfinds⟩ := (Disk.isFile_eq_true_iff hd).1 hfile
    have hto : l.LeadsTo d ref p := ⟨route, htries, hlegible route htries hfile, hfinds⟩
    refine ⟨p, hto, ?_⟩
    rw [resolve_of_leadsTo hd hl hto] at h'
    exact (Option.some.inj (Except.ok.inj h')).symm

theorem tries_of_candidates {name : Text} (h : l.candidates d name = [route]) :
    l.Tries d (.searched name) route := by
  have hrs : l.candidates d name = [] ++ route :: [] := h
  exact .searched hrs (by simp)

theorem legible_of_candidates {name : Text} (h : l.candidates d name = [route])
    (hlegible : d.Legible route) : l.Legible d (.searched name) := by
  intro r htries _
  cases htries with
  | searched hrs _ =>
    have hm : r ∈ l.candidates d name := by
      rw [hrs]
      simp
    rw [h] at hm
    rwa [List.mem_singleton.1 hm]

section Identity

variable (hd : d.WellFormed) (hi : d.tree.IsReal i)

include hi

theorem candidates_identity (l : Locator) : l.candidates d i = [.ofText i] := by
  rw [candidates, hi.isAbsolute]
  rfl

include hd

theorem text_ofText_identity : (Route.ofText i).text = i := by
  obtain ⟨p, b, rfl, hb⟩ := hi.exists_place
  exact congrArg Route.text (Disk.spelled_place hd hb)

theorem hasZero_identity : Disk.hasZero (.ofText i) = false := by
  obtain ⟨p, b, rfl, hb⟩ := hi.exists_place
  have hof : Route.ofText p.text = ⟨1, p⟩ := Disk.spelled_place hd hb
  rw [hof]
  exact Disk.hasZero_place hd hb

theorem resolve_of_route? (l : Locator) (hs : Tree.byteCount i < Tree.pathLimit)
    (h : l.route? d ref = firstFile d [.ofText i]) : l.resolve d ref = .ok (some i) := by
  obtain ⟨p, b, rfl, hb⟩ := hi.exists_place
  have hof : Route.ofText p.text = ⟨1, p⟩ := Disk.spelled_place hd hb
  have hfinds := Disk.finds_place hd hb hs
  have hfile : d.isFile ⟨1, p⟩ = .ok true := (Disk.isFile_eq_true_iff hd).2 ⟨p, hfinds⟩
  have hreal : d.real ⟨1, p⟩ = .ok ⟨1, p⟩ :=
    hfinds.real_eq hd (Disk.spelled_place hd hb) (Disk.legible_place hd hb)
  rw [resolve, h, hof]
  simp only [firstFile, hfile, hreal]
  rfl

theorem resolve_identity (l : Locator) (hs : Tree.byteCount i < Tree.pathLimit) :
    l.resolve d (.searched i) = .ok (some i) := by
  refine resolve_of_route? hd hi l hs ?_
  rw [route?, candidates_identity hi]

theorem resolve_identity_relative (l : Locator) (hs : Tree.byteCount i < Tree.pathLimit)
    {parent : Text} {dir : Route} (hp : base d parent = .ok dir) :
    l.resolve d (.relative i parent) = .ok (some i) := by
  refine resolve_of_route? hd hi l hs ?_
  rw [route?, hp]
  simp only [Route.append, hi.isAbsolute, if_true]

theorem resolve_identity_tooLong (l : Locator) (hs : Tree.pathLimit ≤ Tree.byteCount i) :
    l.resolve d (.searched i) = .error (.access .tooLong i) := by
  have htext := text_ofText_identity hd hi
  have hlocate : d.locate (.ofText i) = .error .tooLong := by
    rw [Disk.locate, Disk.reach, htext]
    exact if_pos hs
  have hfile : d.isFile (.ofText i) = .error (.access .tooLong i) := by
    rw [Disk.isFile, Disk.file?, hasZero_identity hd hi, hlocate, htext]
    rfl
  rw [resolve, route?, candidates_identity hi, firstFile, hfile]

end Identity

/-- Identities are canonical. What a reference resolves to is the real path of a file, as long as
the links on the way are seen. If it is short enough for the disk, it resolves to itself, whatever
the directories of the locator and the working directory are, and from every parent that can be
looked up. And all references that lead to one file within the limits of the disk resolve to the
path of that file. -/
theorem resolve_canonical (hd : d.WellFormed) (hl : l.Spelled) :
    (∀ ref i, l.resolve d ref = .ok (some i) → l.Legible d ref →
      d.tree.IsReal i ∧
        (Tree.byteCount i < Tree.pathLimit →
          ∀ (l' : Locator) (cwd : Place), d.tree.node? cwd = some .directory →
            l'.resolve ⟨d.tree, cwd⟩ (.searched i) = .ok (some i) ∧
              ∀ parent dir, base ⟨d.tree, cwd⟩ parent = .ok dir →
                l'.resolve ⟨d.tree, cwd⟩ (.relative i parent) = .ok (some i))) ∧
      ∀ (l' : Locator) (cwd : Place) (ref ref' : Reference) (p : Place), l'.Spelled →
        d.tree.node? cwd = some .directory → l.LeadsTo d ref p →
        l'.LeadsTo ⟨d.tree, cwd⟩ ref' p →
          l.resolve d ref = .ok (some p.text) ∧
            l'.resolve ⟨d.tree, cwd⟩ ref' = .ok (some p.text) := by
  constructor
  · intro ref i hr hlegible
    obtain ⟨p, ⟨route, -, -, hfinds⟩, rfl⟩ := leadsTo_of_resolve hd hl hlegible hr
    obtain ⟨b, hb⟩ := hfinds.isFile
    have hi : d.tree.IsReal p.text := hd.tree.isReal hb
    refine ⟨hi, fun hs l' cwd hcwd => ?_⟩
    have hd' : Disk.WellFormed ⟨d.tree, cwd⟩ := ⟨hd.tree, hcwd⟩
    exact ⟨resolve_identity hd' hi l' hs,
      fun parent dir hp => resolve_identity_relative hd' hi l' hs hp⟩
  · intro l' cwd ref ref' p hl' hcwd h h'
    have hd' : Disk.WellFormed ⟨d.tree, cwd⟩ := ⟨hd.tree, hcwd⟩
    exact ⟨resolve_of_leadsTo hd hl h, resolve_of_leadsTo hd' hl' h'⟩

def yard : Disk :=
  ⟨⟨[(["srv".toList], .directory), (["srv".toList, "real".toList], .directory),
    (["srv".toList, "real".toList, "f".toList], .file []),
    (["srv".toList, "link".toList], .link "real".toList),
    (["srv".toList, "real".toList, "up".toList], .link "../link/f".toList),
    (["srv".toList, "loop".toList], .link "loop".toList),
    (["srv".toList, "lost".toList], .link "/none".toList)]⟩, ["srv".toList]⟩

def yardFile : Place := ["srv".toList, "real".toList, "f".toList]

theorem wellFormed_yard : yard.WellFormed := ⟨by decide, by decide⟩

theorem legible_yard : yard.Legible (.ofText "link/up".toList) := by
  have hlink : yard.linkAt? ⟨0, ["link".toList]⟩ = some "real".toList := by decide
  have hup : yard.linkAt? ⟨0, ["real".toList, "up".toList]⟩ = some "../link/f".toList := by decide
  have hreal : yard.Traces ⟨0, []⟩ ["real".toList] 0 ⟨0, ["real".toList]⟩ :=
    .enter (by decide) (by decide) (.done _)
  have hfile : yard.Traces ⟨0, ["real".toList]⟩ ["f".toList] 0 ⟨0, ["real".toList, "f".toList]⟩ :=
    .enter (by decide) (by decide) (.done _)
  -- The second link leads up and through the first one.
  have htarget : yard.Traces ⟨0, ["real".toList]⟩ [Path.up, "link".toList, "f".toList] 1
      ⟨0, ["real".toList, "f".toList]⟩ :=
    .up (.link (n := "link".toList) (by decide) hlink hreal hfile)
  have hlast : yard.Traces ⟨0, ["real".toList]⟩ ["up".toList] 2 ⟨0, ["real".toList, "f".toList]⟩ :=
    .link (n := "up".toList) (by decide) hup htarget (.done _)
  exact ⟨3, _, .link (n := "link".toList) (by decide) hlink hreal hlast⟩

theorem candidates_yard :
    default.candidates yard "link/up".toList = [.ofText "link/up".toList] := by
  decide

theorem leadsTo_yard : default.LeadsTo yard (.searched "link/up".toList) yardFile := by
  have hfile : yard.file? (.ofText "link/up".toList) = .ok (some yardFile) := by decide +kernel
  exact ⟨_, tries_of_candidates candidates_yard, legible_yard,
    (Disk.file?_eq_some_iff wellFormed_yard).1 hfile⟩

theorem leadsTo_yard_relative :
    default.LeadsTo ⟨yard.tree, []⟩ (.relative "f".toList "/srv/link/up".toList) yardFile := by
  have hbase : base ⟨yard.tree, []⟩ "/srv/link/up".toList =
      .ok ⟨1, ["srv".toList, "link".toList]⟩ := by decide +kernel
  have hfile : Disk.file? ⟨yard.tree, []⟩ ⟨1, ["srv".toList, "link".toList, "f".toList]⟩ =
      .ok (some yardFile) := by decide +kernel
  have hlink : Disk.linkAt? ⟨yard.tree, []⟩ ⟨1, ["srv".toList, "link".toList]⟩ =
      some "real".toList := by decide +kernel
  have hreal : Disk.Traces ⟨yard.tree, []⟩ ⟨1, ["srv".toList]⟩ ["real".toList] 0
      ⟨1, ["srv".toList, "real".toList]⟩ := .enter (by decide) (by decide +kernel) (.done _)
  have hf : Disk.Traces ⟨yard.tree, []⟩ ⟨1, ["srv".toList, "real".toList]⟩ ["f".toList] 0
      ⟨1, yardFile⟩ := .enter (by decide) (by decide +kernel) (.done _)
  have hrest : Disk.Traces ⟨yard.tree, []⟩ ⟨1, ["srv".toList]⟩ ["link".toList, "f".toList] 1
      ⟨1, yardFile⟩ := .link (n := "link".toList) (by decide) hlink hreal hf
  have hlegible : Disk.Legible ⟨yard.tree, []⟩ ⟨1, ["srv".toList, "link".toList, "f".toList]⟩ :=
    ⟨1, _, .stay (n := []) (.inl rfl)
      (.enter (n := "srv".toList) (by decide) (by decide +kernel) hrest)⟩
  have hmoved : Disk.WellFormed ⟨yard.tree, []⟩ := ⟨wellFormed_yard.tree, rfl⟩
  exact ⟨_, .relative hbase, hlegible, (Disk.file?_eq_some_iff hmoved).1 hfile⟩

theorem resolve_yard :
    default.LeadsTo yard (.searched "link/up".toList) yardFile ∧
      default.LeadsTo ⟨yard.tree, []⟩ (.relative "f".toList "/srv/link/up".toList) yardFile ∧
      default.resolve yard (.searched "link/up".toList) = .ok (some yardFile.text) ∧
      default.resolve ⟨yard.tree, []⟩ (.relative "f".toList "/srv/link/up".toList) =
        .ok (some yardFile.text) ∧
      yard.tree.IsReal yardFile.text ∧
      default.resolve ⟨yard.tree, []⟩ (.searched yardFile.text) = .ok (some yardFile.text) ∧
      default.resolve ⟨yard.tree, []⟩ (.relative yardFile.text "/srv/loop".toList) =
        .ok (some yardFile.text) := by
  have hdefault : default.Spelled := by decide
  have hlegible : default.Legible yard (.searched "link/up".toList) :=
    legible_of_candidates candidates_yard legible_yard
  have hbase : base ⟨yard.tree, []⟩ "/srv/loop".toList =
      .ok ⟨1, ["srv".toList, "loop".toList]⟩ := by decide +kernel
  obtain ⟨hcanonical, hsame⟩ := resolve_canonical wellFormed_yard hdefault
  obtain ⟨hr, hr'⟩ := hsame default [] _ _ yardFile hdefault rfl leadsTo_yard leadsTo_yard_relative
  obtain ⟨hreal, hself⟩ := hcanonical _ _ hr hlegible
  obtain ⟨hsearched, hrelative⟩ := hself (by decide) default [] rfl
  exact ⟨leadsTo_yard, leadsTo_yard_relative, hr, hr', hreal, hsearched, hrelative _ _ hbase⟩

end Locator

def Path.ups (k : Nat) : Text := Text.join ['/'] (List.replicate k Path.up)

section Ups

variable {d : Disk} {t : Tree} {ongoing : List Route} {known : Disk.Resolved}
  {follow : List Route → Disk.Resolved → Route → Text →
    Except Disk.Snag (Route × Disk.Resolved)}

theorem Path.pieces_ups (k : Nat) :
    Text.pieces '/' (Path.ups (k + 1)) = List.replicate (k + 1) Path.up :=
  Text.pieces_join (by simp) fun n hn => by
    rw [List.eq_of_mem_replicate hn]
    decide

theorem Path.head?_ups (k : Nat) : (Path.ups k).head? ≠ some '/' :=
  Route.head?_join_names fun n hn => by
    rw [List.eq_of_mem_replicate hn]
    exact ⟨by decide, by decide, by decide⟩

theorem Tree.leads_ups (k : Nat) :
    t.Leads (Tree.linkStart [] (Path.ups (k + 1))) (Tree.linkSteps (Path.ups (k + 1))) 0 [] := by
  have hsteps : ∀ s ∈ Tree.linkSteps (Path.ups (k + 1)), s = [] ∨ s = Path.up := by
    intro s hs
    rcases List.mem_append.1 hs with hs | hs
    · have hm := (List.mem_filter.1 hs).1
      rw [Path.pieces_ups] at hm
      exact .inr (List.eq_of_mem_replicate hm)
    · split at hs
      · exact .inl (List.mem_singleton.1 hs)
      · cases hs
  rw [Tree.linkStart, if_neg (Path.head?_ups _)]
  generalize Tree.linkSteps (Path.ups (k + 1)) = steps at hsteps
  induction steps with
  | nil => exact .done []
  | cons s steps ih =>
    rw [List.forall_mem_cons] at hsteps
    rcases hsteps with ⟨rfl | rfl, hrest⟩
    · exact .stay (.inl rfl) rfl (ih hrest)
    · exact .up rfl (ih hrest)

theorem Disk.above_ups (k : Nat) :
    Disk.above ⟨0, List.replicate k Path.up⟩ = ⟨0, List.replicate (k + 1) Path.up⟩ := by
  have hsettle : Path.settle false (List.replicate k Path.up) Path.up =
      List.replicate (k + 1) Path.up := by
    rw [Path.settle_up]
    cases k with
    | zero => rfl
    | succ k => exact if_pos rfl
  have habs : Route.isAbsolute ⟨0, List.replicate k Path.up⟩ = false := rfl
  rw [Disk.above, habs]
  simp only [List.reverse_replicate, hsettle]

theorem Disk.above_next {r : Route} {n : Text} (hn : n ≠ Path.up) : Disk.above (r.next n) = r := by
  have hsettle : Path.settle r.isAbsolute (n :: r.names.reverse) Path.up = r.names.reverse := by
    rw [Path.settle_up]
    exact if_neg hn
  have habs : (r.next n).isAbsolute = r.isAbsolute := rfl
  rw [Disk.above, habs, Route.next]
  simp only [List.reverse_concat, hsettle, List.reverse_reverse]

theorem Disk.at_ups (hc : d.cwd = []) (k : Nat) : d.At ⟨0, List.replicate k Path.up⟩ [] := by
  induction k with
  | zero =>
    refine ⟨Nat.zero_le 1, by simp, ?_⟩
    rw [Disk.origin, hc]
    rfl
  | succ k ih =>
    rw [← Disk.above_ups]
    exact ih.up

theorem Disk.traceWith_ups (k j : Nat) :
    d.traceWith follow ongoing known ⟨0, List.replicate j Path.up⟩ (List.replicate k Path.up) =
      .ok (⟨0, List.replicate (j + k) Path.up⟩, known) := by
  induction k generalizing j with
  | zero => rfl
  | succ k ih =>
    have hsum : j + (k + 1) = j + 1 + k := by omega
    rw [List.replicate_succ, Disk.traceWith_up, Disk.above_ups, ih, hsum]

theorem Disk.trace_behind_ups {u : Text} {rest : List Text} {k depth : Nat} (hc : d.cwd = [])
    (ha : d.tree.node? ["a".toList] = some (.link (Path.ups (k + 1))))
    (hhead : u.head? ≠ some '/') (hsteps : Text.pieces '/' u = "a".toList :: rest) :
    d.trace (depth + 2) [] [] ⟨0, []⟩ u =
      d.traceWith (d.trace (depth + 1)) []
        [(⟨0, ["a".toList]⟩, ⟨0, List.replicate (k + 1) Path.up⟩)]
        ⟨0, List.replicate (k + 1) Path.up⟩ rest := by
  have hseen : ¬Tree.pathLimit ≤ Tree.byteCount (Route.next ⟨0, []⟩ "a".toList).text := by decide
  have hlink : d.linkAt? (Route.next ⟨0, []⟩ "a".toList) = some (Path.ups (k + 1)) := by
    rw [Disk.linkAt?, if_neg hseen]
    exact ((Disk.at_ups hc 0).next (by decide)).target?_eq_some (by simp [hc]) ha
  have hfollow : d.trace (depth + 1) [Route.next ⟨0, []⟩ "a".toList] [] ⟨0, []⟩
      (Path.ups (k + 1)) = .ok (⟨0, List.replicate (k + 1) Path.up⟩, []) := by
    rw [Disk.trace, if_neg (Path.head?_ups _), Path.pieces_ups]
    exact (Disk.traceWith_ups (k + 1) 0).trans (by rw [Nat.zero_add])
  rw [Disk.trace, if_neg hhead, hsteps]
  exact Disk.traceWith_link (by decide) hlink rfl (by simp) hfollow

theorem Route.byteCount_ups (k : Nat) (n : Text) :
    Tree.byteCount (Route.text ⟨0, List.replicate k Path.up ++ [n]⟩) =
      3 * k + Tree.byteCount n := by
  have hbelow := Place.byteCount_below_replicate k Path.up n
  have hup : Tree.byteCount Path.up = 2 := by decide
  have hslash : Tree.byteCount ['/'] = 1 := by decide
  rw [Place.below_eq, Tree.byteCount_append, hup, hslash] at hbelow
  rw [Disk.text_eq_join (by simp)]
  omega

end Ups

namespace Locator

def stairs : Disk :=
  ⟨⟨[(["a".toList], .link (Path.ups 1365)), (["x".toList], .link "y".toList),
    (["y".toList], .file [])]⟩, []⟩

theorem wellFormed_stairs : stairs.WellFormed := ⟨by decide, rfl⟩

theorem leads_stairs : stairs.tree.Leads [] ["a".toList, "x".toList] 2 ["y".toList] := by
  have ha : stairs.tree.node? ["a".toList] = some (.link (Path.ups 1365)) := rfl
  have hx : stairs.tree.node? ["x".toList] = some (.link "y".toList) := rfl
  have hy : stairs.tree.node? ["y".toList] = some (.file []) := rfl
  have hlast : stairs.tree.Leads [] ["x".toList] 1 ["y".toList] :=
    .link (k := 0) (by decide) hx (.enter (by decide) hy (by simp) (.done _)) (.done _)
  exact .link (k := 0) (by decide) ha (Tree.leads_ups 1364) hlast

theorem real_stairs : stairs.real (.ofText "a/x".toList) = .ok ⟨1, ["x".toList]⟩ := by
  have hups := Disk.at_ups (d := stairs) rfl
  -- Behind the steps up the path of the second link takes 4096 bytes.
  have hx : stairs.linkAt? (Route.next ⟨0, List.replicate 1365 Path.up⟩ "x".toList) = none :=
    if_pos (Nat.le_of_eq (Route.byteCount_ups 1365 "x".toList).symm)
  have hsteps : Text.pieces '/' "a/x".toList = ["a".toList, "x".toList] := by decide
  have htrace : stairs.trace Disk.depthLimit [] [] ⟨0, []⟩ "a/x".toList =
      .ok (Route.next ⟨0, List.replicate 1365 Path.up⟩ "x".toList, _) :=
    (Disk.trace_behind_ups rfl rfl (by decide) hsteps).trans (Disk.traceWith_plain (by decide) hx)
  have habs := ((hups 1365).next (n := "x".toList) (by decide)).absolute_eq (by simp [stairs])
  have hz : Disk.hasZero (.ofText "a/x".toList) = false := by decide
  have htext : (Route.ofText "a/x".toList).text = "a/x".toList := by decide
  have hend : stairs.locate ⟨1, ["x".toList]⟩ = .ok (.file ["y".toList] []) := by decide
  rw [Disk.real, hz, htext, htrace]
  simp only [habs, List.nil_append, hend]
  rfl

theorem resolve_stairs :
    default.resolve stairs (.searched "a/x".toList) = .ok (some "/x".toList) := by
  have hfinds : stairs.Finds (.ofText "a/x".toList) ["y".toList] :=
    ⟨by decide, by decide, ⟨[], rfl⟩, 2, by decide, leads_stairs⟩
  have hfile : stairs.isFile (.ofText "a/x".toList) = .ok true :=
    (Disk.isFile_eq_true_iff wellFormed_stairs).2 ⟨_, hfinds⟩
  have hcandidates : default.candidates stairs "a/x".toList = [.ofText "a/x".toList] := by
    decide
  rw [resolve, route?, hcandidates]
  simp only [firstFile, hfile, real_stairs]
  rfl

def chain : Disk :=
  ⟨⟨(["l".toList], .file []) :: (List.range 41).map fun k =>
    ([List.replicate (k + 2) 'l'], .link (List.replicate (k + 1) 'l'))⟩, []⟩

theorem wellFormed_chain : chain.WellFormed := ⟨by decide +kernel, rfl⟩

theorem leads_chain : ∃ k ≤ 41, chain.tree.Leads [] [List.replicate 42 'l'] k ["l".toList] := by
  have hwalk : chain.tree.walk false 41 [] [List.replicate 42 'l'] =
      .ok (.file ["l".toList] []) := by decide +kernel
  exact Tree.leads_of_walk wellFormed_chain.tree rfl hwalk

theorem resolve_chain :
    default.resolve chain (.searched (List.replicate 42 'l')) = .ok none := by
  decide +kernel

theorem wellFormed_farDisk : Bundle.farDisk.WellFormed := by
  refine Disk.wellFormed_ofBundle (by decide) ?_
  intro n hn
  rw [List.eq_of_mem_replicate hn]
  decide

def farIdentity : Identity := Bundle.farDisk.cwd.below "chapter".toList

theorem resolve_farDisk :
    default.resolve Bundle.farDisk (.searched "chapter".toList) =
        .ok (some farIdentity) ∧
      default.resolve Bundle.farDisk (.searched farIdentity) =
        .error (.access .tooLong farIdentity) := by
  have h := Bundle.holds_lone
  obtain ⟨-, hlong⟩ := Bundle.byteCount_farDisk
  have hroute : default.route? Bundle.farDisk (.searched "chapter".toList) =
      firstFile Bundle.farDisk [⟨0, ["chapter".toList]⟩] := by
    have hc : default.candidates Bundle.farDisk "chapter".toList =
        [⟨0, ["chapter".toList]⟩] := by decide
    rw [route?, hc]
  have hb : Bundle.lone.target (.searched "chapter".toList) =
      Route.text ⟨0, ["chapter".toList]⟩ := by decide
  have hu : Bundle.lone.resolve (.searched "chapter".toList) = some "chapter".toList := by decide
  have hreal : Bundle.farDisk.tree.IsReal farIdentity :=
    wellFormed_farDisk.tree.isReal (h.files "chapter".toList ['x'] (by decide))
  constructor
  · rw [h.resolve_eq hb (by decide) (.inl rfl) hroute (by decide), hu]
    rfl
  · exact resolve_identity_tooLong wellFormed_farDisk hreal default hlong

/-- Beyond the limits of a disk identities are not canonical. A file far down is found, but not by
its identity; of two paths to one file one keeps a link; and a path through too many links leads
nowhere. -/
theorem resolve_beyond_limits :
    (Bundle.farDisk.WellFormed ∧
      default.resolve Bundle.farDisk (.searched "chapter".toList) = .ok (some farIdentity) ∧
      default.resolve Bundle.farDisk (.searched farIdentity) =
        .error (.access .tooLong farIdentity)) ∧
    (stairs.WellFormed ∧ stairs.tree.Leads [] ["a".toList, "x".toList] 2 ["y".toList] ∧
      default.resolve stairs (.searched "a/x".toList) = .ok (some "/x".toList) ∧
      stairs.tree.node? ["x".toList] = some (.link "y".toList) ∧
      default.resolve stairs (.searched "y".toList) = .ok (some "/y".toList)) ∧
    chain.WellFormed ∧
      (∃ k ≤ 41, chain.tree.Leads [] [List.replicate 42 'l'] k ["l".toList]) ∧
      default.resolve chain (.searched (List.replicate 42 'l')) = .ok none ∧
      default.resolve chain (.searched "l".toList) = .ok (some "/l".toList) := by
  obtain ⟨hfar, hfar'⟩ := resolve_farDisk
  have hy : default.resolve stairs (.searched "y".toList) = .ok (some "/y".toList) := by
    decide +kernel
  have hl : default.resolve chain (.searched "l".toList) = .ok (some "/l".toList) := by
    decide +kernel
  exact ⟨⟨wellFormed_farDisk, hfar, hfar'⟩,
    ⟨wellFormed_stairs, leads_stairs, resolve_stairs, rfl, hy⟩,
    wellFormed_chain, leads_chain, resolve_chain, hl⟩

end Locator
end Splice
