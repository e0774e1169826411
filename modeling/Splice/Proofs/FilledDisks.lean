import Splice.Proofs.Identities
import Splice.Proofs.WrittenFiles

set_option autoImplicit false

namespace Splice

namespace Tree

/-- A file can stand at the place: it is below a directory, under names that a path can spell. -/
structure Fits (t : Tree) (p : Place) : Prop where
  names : ∀ n ∈ p, IsStep n ∧ '\x00' ∉ n
  parent : t.node? p.dropLast = some .directory

variable {t : Tree} {making : Bool} {links : Nat} {o p : Place} {n : Text} {steps : List Text}
  {s : Spot} {follow : Place → List Text → Except PathFault Spot}

theorem WellFormed.put_of_kept {e : Entry} (ht : t.WellFormed) (hfits : t.Fits p)
    (hkept : ∀ q, t.node? q = some .directory → (t.put p e).node? q = some .directory) :
    (t.put p e).WellFormed := by
  have hkey : ∀ q ∈ (t.put p e).entries, q.1 = p ∨ ∃ e', (q.1, e') ∈ t.entries := by
    intro q hq
    rcases Keyed.mem_keys_put.1 (List.mem_map_of_mem hq) with h | h
    · exact .inl h
    · obtain ⟨r, hr, he⟩ := List.mem_map.1 h
      exact .inr ⟨r.2, he ▸ hr⟩
  constructor
  · intro q hq
    rcases hkey q hq with h | ⟨e', he'⟩
    · rw [h]
      exact hfits.names
    · exact ht.names (q.1, e') he'
  · intro q hq
    rcases hkey q hq with h | ⟨e', he'⟩
    · rw [h]
      exact hkept _ hfits.parent
    · exact hkept _ (ht.parents (q.1, e') he')

theorem WellFormed.put (ht : t.WellFormed) (hp : t.Open p) (hfits : t.Fits p)
    (bytes : List UInt8) : (t.put p (.file bytes)).WellFormed :=
  ht.put_of_kept hfits fun _ hq => hp.node?_put_of_ne hq (by simp)

def Plain (n : Text) : Prop := '/' ∉ n ∧ '\x00' ∉ n

theorem plain_of_mem_linkSteps {target : Text} (hz : '\x00' ∉ target) (h : n ∈ linkSteps target) :
    Plain n := by
  rcases List.mem_append.1 h with h | h
  · have hpiece := (List.mem_filter.1 h).1
    exact ⟨Text.not_mem_of_mem_pieces hpiece, fun hc => hz (Text.mem_of_mem_pieces hpiece hc)⟩
  · split at h
    · rw [List.mem_singleton.1 h]
      exact ⟨by simp, by simp⟩
    · cases h

theorem Ends.fits (ht : t.WellFormed)
    (hlinks : ∀ q target, t.node? q = some (.link target) → '\x00' ∉ target)
    (hf : ∀ {o steps s}, t.node? o = some .directory → (∀ n ∈ steps, Plain n) →
      follow o steps = .ok s → s.place? = some p → t.Fits p)
    (ho : t.node? o = some .directory) (hsteps : ∀ n ∈ steps, Plain n)
    (h : t.Ends making follow o steps s) (hs : s.place? = some p) : t.Fits p := by
  have hlast : ∀ {o n rest}, t.node? o = some .directory → Plain n → Passes making n rest →
      t.Fits (o ++ [n]) := by
    intro o n rest ho hn hpass
    obtain ⟨hnil, hpoint⟩ := not_or.1 hpass.counts
    refine ⟨fun m hm => ?_, by rwa [List.dropLast_concat]⟩
    rcases List.mem_append.1 hm with hm | hm
    · exact ht.isStep ho hm
    · rw [List.mem_singleton.1 hm]
      exact ⟨⟨⟨hnil, hpoint, hn.1⟩, hpass.ne_up, Nat.le_of_not_lt hpass.short⟩, hn.2⟩
  induction h with
  | done => cases hs
  | stay _ _ ih => exact ih ho (List.forall_mem_cons.1 hsteps).2 hs
  | up _ ih => exact ih (ht.node?_dropLast ho) (List.forall_mem_cons.1 hsteps).2 hs
  | vacant hpass _ =>
    cases hs
    exact hlast ho (List.forall_mem_cons.1 hsteps).1 hpass
  | file hpass _ =>
    cases hs
    exact hlast ho (List.forall_mem_cons.1 hsteps).1 hpass
  | directory _ hnode _ ih => exact ih hnode (List.forall_mem_cons.1 hsteps).2 hs
  | @link o n target rest s _ hnode hlink =>
    refine hf (node?_linkStart ho target) (fun m hm => ?_) hlink hs
    rcases List.mem_append.1 hm with hm | hm
    · exact plain_of_mem_linkSteps (hlinks _ target hnode) hm
    · exact (List.forall_mem_cons.1 hsteps).2 m hm

theorem fits_of_walk (ht : t.WellFormed)
    (hlinks : ∀ q target, t.node? q = some (.link target) → '\x00' ∉ target)
    (ho : t.node? o = some .directory) (hsteps : ∀ n ∈ steps, Plain n)
    (h : t.walk making links o steps = .ok s) (hs : s.place? = some p) : t.Fits p := by
  induction links generalizing o steps s with
  | zero => exact (ends_of_walkWith h).fits ht hlinks (fun _ _ h => by cases h) ho hsteps hs
  | succ links ih =>
    exact (ends_of_walkWith h).fits ht hlinks (fun ho hsteps h hs => ih ho hsteps h hs) ho hsteps hs

theorem place?_of_walkWith (hn : n = [] ∨ n = ['.'])
    (hf : ∀ {o steps s}, follow o (steps ++ [n]) = .ok s → s.place? = none)
    (h : t.walkWith making follow o (steps ++ [n]) = .ok s) : s.place? = none := by
  induction steps generalizing o with
  | nil =>
    rw [List.nil_append, walkWith, if_pos hn] at h
    cases h
    rfl
  | cons m steps ih =>
    have hrest : steps ++ [n] ≠ [] := by simp
    rw [List.cons_append, walkWith] at h
    split at h
    · exact ih h
    split at h
    · exact ih h
    split at h
    · cases h
    split at h
    · cases h
    split at h
    · cases h
    · exact ih h
    · cases h
    · rw [← List.append_assoc] at h
      exact hf h

theorem place?_of_walk (hn : n = [] ∨ n = ['.'])
    (h : t.walk making links o (steps ++ [n]) = .ok s) : s.place? = none := by
  induction links generalizing o steps s with
  | zero => exact place?_of_walkWith hn (fun h => by cases h) h
  | succ links ih => exact place?_of_walkWith hn (fun h => ih h) h

end Tree

namespace Route

variable {r : Route} {n suffix : Text}

theorem isPrefix_stem (n : Text) : stem n <+: n := by
  simp only [stem]
  split
  · exact List.take_prefix _ _
  · exact List.prefix_rfl

theorem stem_ne_nil (h : n ≠ []) : stem n ≠ [] := by
  simp only [stem]
  split
  · rename_i hs
    exact hs.2.2
  · exact h

theorem Spelled.withSuffix (hr : r.Spelled) (hn : r.name ≠ []) (hs : isSuffix suffix = true)
    (hp : stem r.name ++ suffix ≠ ['.']) : (r.withSuffix suffix).Spelled := by
  refine ofText_text hr.slashes_le fun n hm => ?_
  rcases List.mem_append.1 hm with hm | hm
  · exact hr.isName (List.mem_of_mem_dropLast hm)
  · rw [List.mem_singleton.1 hm]
    have hname : r.name ∈ r.names := by
      unfold name at hn ⊢
      cases hl : r.names.getLast? with
      | none => simp_all
      | some n =>
        rw [List.getLastD_eq_getLast?, hl]
        exact List.mem_of_getLast? hl
    have hslash : '/' ∉ suffix := by
      intro hc
      simp [isSuffix, hc] at hs
      simp [hs] at hc
    refine ⟨by simp [stem_ne_nil hn], hp, fun hc => ?_⟩
    rcases List.mem_append.1 hc with hc | hc
    · exact (hr.isName hname).not_mem ((isPrefix_stem _).subset hc)
    · exact hslash hc

end Route

namespace Disk

variable {d : Disk} {r q : Route} {p : Place} {steps : List Text} {k : Nat}

theorem target?_fill (hp : d.tree.Open p) (bytes : List UInt8) (r : Route) :
    (d.fill p bytes).target? r = d.target? r := by
  have habsolute : (d.fill p bytes).absolute r.text = d.absolute r.text := rfl
  have hnode : ∀ q, (d.fill p bytes).tree.node? q = _ := Tree.node?_put hp.ne_nil _
  rw [target?, target?, habsolute, hnode]
  by_cases hq : (d.absolute r.text).names = p
  · rw [if_pos hq, hq]
    cases he : d.tree.node? p with
    | none => rfl
    | some e =>
      obtain ⟨b, rfl⟩ := hp.isFile e he
      rfl
  · rw [if_neg hq]

theorem linkAt?_fill (hp : d.tree.Open p) (bytes : List UInt8) (r : Route) :
    (d.fill p bytes).linkAt? r = d.linkAt? r := by
  rw [linkAt?, linkAt?, target?_fill hp]

theorem Traces.fill (hp : d.tree.Open p) (bytes : List UInt8) (h : d.Traces r steps k q) :
    (d.fill p bytes).Traces r steps k q := by
  induction h with
  | done r => exact .done r
  | stay hn _ ih => exact .stay hn ih
  | up _ ih => exact .up ih
  | enter hn ht _ ih => exact .enter hn ((target?_fill hp bytes _).trans ht) ih
  | link hn ht _ _ iht ih => exact .link hn ((linkAt?_fill hp bytes _).trans ht) iht ih

theorem Legible.fill (hp : d.tree.Open p) (bytes : List UInt8) (h : d.Legible r) :
    (d.fill p bytes).Legible r := by
  obtain ⟨k, q, h⟩ := h
  exact ⟨k, q, h.fill hp bytes⟩

theorem Writes.fits (h : d.Writes r p) (hd : d.WellFormed)
    (hlinks : ∀ q target, d.tree.node? q = some (.link target) → '\x00' ∉ target)
    (hr : r.Spelled) : d.tree.Fits p := by
  obtain ⟨s, hreach, hs⟩ := h.reaches
  have hzero : '\x00' ∉ r.text := of_decide_eq_false h.noZero
  have hsteps : ∀ n ∈ r.names, Tree.Plain n := by
    intro n hn
    refine ⟨(hr.isName hn).not_mem, fun hc => hzero ?_⟩
    rw [← hr] at hn
    exact Route.mem_of_mem_namesOf hn hc
  unfold reach at hreach
  split at hreach
  · cases hreach
  · exact Tree.fits_of_walk hd.tree hlinks (origin_directory hd r) hsteps hreach hs

theorem Writes.wellFormed_fill (h : d.Writes r p) (hd : d.WellFormed) (hfits : d.tree.Fits p)
    (bytes : List UInt8) : (d.fill p bytes).WellFormed :=
  ⟨hd.tree.put h.isOpen hfits bytes, h.isOpen.node?_put_of_ne hd.cwd (by simp)⟩

theorem Writes.file?_fill (h : d.Writes r p) (bytes : List UInt8) :
    (d.fill p bytes).file? r = .ok (some p) := by
  obtain ⟨s, hr, hs⟩ := h.reaches
  have hfill := reach_fill h.isOpen bytes hr
  rw [Spot.filled_of_place? hs] at hfill
  rw [file?, h.noZero, locate_of_making hfill]
  rfl

end Disk

namespace Locator

variable {l : Locator} {d : Disk} {r : Route} {p : Place} {b : List UInt8} {t : Text}
  {ref : Reference}

theorem base_here (d : Disk) : base d "./".toList = .ok ⟨0, []⟩ := rfl

theorem here_append (hr : r.Spelled) : (Route.mk 0 []).append (.ofText r.text) = r := by
  rw [hr]
  obtain ⟨slashes, names⟩ := r
  cases slashes <;> rfl

theorem route?_ofSeed (l : Locator) (d : Disk) (hr : r.Spelled) :
    l.route? d (.ofSeed r.text) = firstFile d [r] := by
  simp only [Reference.ofSeed, route?, base_here, here_append hr]

theorem leadsTo_ofSeed (l : Locator) (hr : r.Spelled) (hlegible : d.Legible r)
    (hfinds : d.Finds r p) : l.LeadsTo d (.ofSeed r.text) p := by
  have htries : l.Tries d (.ofSeed r.text) ((Route.mk 0 []).append (.ofText r.text)) :=
    .relative (base_here d)
  rw [here_append hr] at htries
  exact ⟨r, htries, hlegible, hfinds⟩

theorem contents_place (l : Locator) (hd : d.WellFormed) (h : d.tree.node? p = some (.file b)) :
    l.contents d p.text =
      if Tree.byteCount p.text < Tree.pathLimit then decode l.encoding b
      else .ok (.unreadable (.access .tooLong p.text)) := by
  have hof : Route.ofText p.text = ⟨1, p⟩ := Disk.spelled_place hd h
  rw [contents, hof, Disk.read, Disk.hasZero_place hd h]
  by_cases hs : Tree.byteCount p.text < Tree.pathLimit
  · have hlocate : d.locate ⟨1, p⟩ = .ok (.file p b) :=
      (Disk.locate_eq_file_iff hd).2 ⟨hs, h, (Disk.finds_place hd h hs).leads⟩
    rw [hlocate, if_pos hs]
    rfl
  · have hlocate : d.locate ⟨1, p⟩ = .error .tooLong := if_pos (Nat.le_of_not_lt hs)
    rw [hlocate, if_neg hs]
    rfl

theorem fetch_of_contents {i : Identity} (hr : l.resolve d ref = .ok (some i))
    (hc : l.contents d i = .ok (.text t)) : (l.source d).fetch ref = .ok (.file i t) :=
  Source.fetch_of_text hr hc

/-- A reference that leads to a file fetches its text, or finds its path too long. -/
theorem fetch_of_leadsTo (hd : d.WellFormed) (hl : l.Spelled) (h : l.LeadsTo d ref p)
    (hb : d.tree.node? p = some (.file b)) (ht : decode l.encoding b = .ok (.text t)) :
    (l.source d).fetch ref = .ok (if Tree.byteCount p.text < Tree.pathLimit then .file p.text t
      else .unreadable p.text (.access .tooLong p.text)) := by
  have hresolve : (l.source d).resolve ref = .ok (some p.text) := resolve_of_leadsTo hd hl h
  have hread : (l.source d).read p.text = _ := contents_place l hd hb
  by_cases hs : Tree.byteCount p.text < Tree.pathLimit
  · rw [if_pos hs, ht] at hread
    rw [if_pos hs, Source.fetch_of_text hresolve hread]
  · rw [if_neg hs] at hread
    rw [if_neg hs, Source.fetch_of_unreadable hresolve hread]

end Locator

end Splice
