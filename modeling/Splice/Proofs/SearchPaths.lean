import Splice.Proofs.BuildEffects
import Splice.Proofs.Merging
import Splice.Proofs.MissingFiles

set_option autoImplicit false

namespace Splice

variable {read : Text → Reading} {identity : Option Identity} {ls : List Text}
  {ds : List (Nat × Include)}

theorem scan_eq_directives (h : scan read identity ls = .ok ds) : ds = directives read 0 ls := by
  rw [scan, scanFrom_eq] at h
  split at h <;> cases h
  rfl

theorem mem_scan_iff {x : Include} (h : scan read identity ls = .ok ds) :
    (∃ n, (n, x) ∈ ds) ↔ ∃ line ∈ ls, read line = .inclusion x := by
  rw [scan_eq_directives h]
  simp only [mem_directives]
  constructor
  · rintro ⟨n, line, hn, hread⟩
    exact ⟨line, List.mem_of_getElem? hn, hread⟩
  · rintro ⟨line, hline, hread⟩
    obtain ⟨n, hn⟩ := List.mem_iff_getElem?.1 hline
    exact ⟨n, line, hn, hread⟩

def Record.Includes (r : Record) (m : Marker) (x : Include) : Prop :=
  ∃ line ∈ Text.lines r.text, m.read line = .inclusion x

namespace Graph

variable {g : Graph}

theorem assemble_of_closed (hk : g.keys ≠ []) (ht : ∀ u ∈ g.targets, u ∈ g.keys) :
    ∃ t, g.assemble = .ok t := by
  rcases assembleFrom_eq hk g.roots with ⟨i, hi, -⟩ | ⟨-, h⟩
  · have hn : i ∉ g.keys := by simpa using List.find?_some hi
    exact absurd (mem_keys_of_reachableFrom ht (fun _ => mem_keys_of_mem_roots)
      (mem_depthFirst.1 (List.mem_of_find?_eq_some hi))) hn
  · exact h

end Graph

namespace Locator

def Ranges (name : Text) : Prop :=
  (Route.ofText name).isAbsolute = false ∧ Text.startsWith ['.', '/'] name = false

def Misses (l : Locator) (d : Disk) (name : Text) : Prop :=
  ∀ p ∈ l.searchPaths, ∀ q, ¬d.Finds (p.append (.ofText name)) q

/-- A name that is included in a file of the graph, looked for along the search paths, and found in
none of them. -/
structure Unfound (l : Locator) (d : Disk) (m : Marker) (g : Graph) (name : Text) : Prop where
  included : ∃ i r, g.get? i = some r ∧ r.Includes m ⟨.searched, name⟩
  ranges : Ranges name
  missed : l.Misses d name

def under (path name : Text) : Route := (Route.ofText path).append (.ofText name)

variable {l : Locator} {d : Disk} {m : Marker} {path name : Text} {seed : Reference}
  {built : Built} {i u : Identity} {found : Option Route} {rs rs' : List Route}

theorem firstFile_append (d : Disk) (rs rs' : List Route) :
    firstFile d (rs ++ rs') =
      match firstFile d rs with
      | .ok none => firstFile d rs'
      | x => x := by
  induction rs with
  | nil => rfl
  | cons r rs ih =>
    rw [List.cons_append, firstFile, firstFile]
    split
    · rfl
    · rfl
    · exact ih

theorem firstFile_eq_none_iff :
    firstFile d rs = .ok none ↔ ∀ r ∈ rs, d.isFile r = .ok false := by
  induction rs with
  | nil => simp [firstFile]
  | cons r rs ih =>
    rw [firstFile, List.forall_mem_cons, ← ih]
    split <;> simp [*]

theorem candidates_of_ranges (l : Locator) (h : Ranges name) :
    l.candidates d name =
      l.searchPaths.map (·.append (.ofText name)) ++ [l.fallback.append (.ofText name)] := by
  simp [candidates, h.1, h.2]

theorem candidates_addPath (h : Ranges name) :
    (l.addPath path).candidates d name =
      l.searchPaths.map (·.append (.ofText name)) ++
        under path name :: [l.fallback.append (.ofText name)] := by
  simp [candidates_of_ranges _ h, addPath, under]

theorem candidates_addPath_of_not_ranges (h : ¬Ranges name) :
    (l.addPath path).candidates d name = l.candidates d name := by
  unfold candidates
  by_cases habsolute : (Route.ofText name).isAbsolute = true
  · simp only [habsolute, if_true]
  by_cases hpoint : Text.startsWith ['.', '/'] name = true
  · simp only [hpoint, if_true]
  · exact absurd ⟨by simpa using habsolute, by simpa using hpoint⟩ h

theorem firstFile_between {r : Route} (h : firstFile d (rs ++ rs') = .ok found)
    (hr : firstFile d rs = .ok none → d.isFile r = .ok false) :
    firstFile d (rs ++ r :: rs') = .ok found := by
  rw [firstFile_append] at h ⊢
  split at h
  · -- The path between is passed as well.
    rename_i hnone
    rw [firstFile, hr hnone]
    exact h
  · exact h

theorem firstFile_of_missed (hd : d.WellFormed) (h : firstFile d (rs ++ rs') = .ok found)
    (hmissed : ∀ r ∈ rs, ∀ q, ¬d.Finds r q) : firstFile d rs = .ok none := by
  rw [firstFile_append] at h
  cases hfirst : firstFile d rs with
  | error e =>
    rw [hfirst] at h
    cases h
  | ok first =>
    cases first with
    | none => rfl
    | some r =>
      obtain ⟨⟨before, after, rfl, -⟩, hfile⟩ := firstFile_eq_some_iff.1 hfirst
      obtain ⟨q, hq⟩ := (Disk.isFile_eq_true_iff hd).1 hfile
      exact absurd hq (hmissed r (by simp) q)

/-- A further search path matters for a name only if the name is looked for along the search paths
and found in none of the earlier ones. -/
theorem route?_addPath (hd : d.WellFormed) (h : l.route? d (.searched name) = .ok found)
    (hpath : Ranges name → l.Misses d name → d.isFile (under path name) = .ok false) :
    (l.addPath path).route? d (.searched name) = .ok found := by
  by_cases hranges : Ranges name
  · rw [route?, candidates_of_ranges l hranges] at h
    rw [route?, candidates_addPath hranges]
    refine firstFile_between h fun hnone => hpath hranges fun p hp q hq => ?_
    have hfile := firstFile_eq_none_iff.1 hnone _ (List.mem_map_of_mem hp)
    cases hfile.symm.trans ((Disk.isFile_eq_true_iff hd).2 ⟨q, hq⟩)
  · rw [route?, candidates_addPath_of_not_ranges hranges]
    exact h

theorem route?_addPath_of_finds (hd : d.WellFormed) {q : Place}
    (h : l.route? d (.searched name) = .ok found) (hranges : Ranges name)
    (hmissed : l.Misses d name) (hq : d.Finds (under path name) q) :
    (l.addPath path).route? d (.searched name) = .ok (some (under path name)) := by
  rw [route?, candidates_of_ranges l hranges] at h
  rw [route?, candidates_addPath hranges, firstFile_append,
    firstFile_of_missed hd h (List.forall_mem_map.2 hmissed)]
  simp only [firstFile, (Disk.isFile_eq_true_iff hd).2 ⟨q, hq⟩]

theorem route?_of_resolve {ref : Reference} (h : l.resolve d ref = .ok (some u)) :
    ∃ route, l.route? d ref = .ok (some route) := by
  unfold resolve at h
  split at h
  · cases h
  · cases h
  · exact ⟨_, ‹_›⟩

theorem resolve_congr {l' : Locator} {ref : Reference} (h : l'.route? d ref = l.route? d ref) :
    l'.resolve d ref = l.resolve d ref := by
  rw [resolve, resolve, h]

section Built

variable (h : ((l.search d m).run seed).result = .ok built)

include h

theorem settled_of_mem_keys (hi : i ∈ built.graph.keys) :
    (l.search d m).Settled built.graph i := by
  obtain ⟨-, he, -⟩ := Search.run_ok h
  exact he.settled i hi (by simp)

theorem route?_of_includes {r : Record} {x : Include} (hr : built.graph.get? i = some r)
    (hx : r.Includes m x) : ∃ route, l.route? d (x.reference i) = .ok (some route) := by
  obtain ⟨t, ds, ho, hall, hget⟩ := settled_of_mem_keys h (Graph.mem_keys_of_get? hr)
  cases hr.symm.trans hget
  obtain ⟨n, hn⟩ := (mem_scan_iff (opens_search_iff.1 ho).2).2 hx
  obtain ⟨u, -, hu⟩ := hall (n, x) hn
  exact route?_of_resolve hu

theorem mem_keys_of_mem_targets (hu : u ∈ built.graph.targets) : u ∈ built.graph.keys := by
  obtain ⟨i, r, hr, hu⟩ := Graph.mem_targets_iff.1 hu
  obtain ⟨t, ds, ho, hall, hget⟩ := settled_of_mem_keys h (Graph.mem_keys_of_get? hr)
  cases hr.symm.trans hget
  obtain ⟨p, hp, rfl⟩ := List.mem_map.1 hu
  have hds := scan_eq_directives (opens_search_iff.1 ho).2
  have hascending := hds ▸ pairwise_directives m.read 0 (Text.lines t)
  obtain ⟨-, n, -, ⟨x, hx, hresolve⟩, -⟩ := (Search.mem_firstPoints hascending p).1 hp
  obtain ⟨v, hv, hresolve'⟩ := hall (n, x) hx
  cases hresolve.symm.trans hresolve'
  exact hv

theorem assemble_of_run : ∃ t, built.graph.assemble = .ok t := by
  obtain ⟨-, -, hseed⟩ := Search.run_ok h
  refine Graph.assemble_of_closed ?_ fun u => mem_keys_of_mem_targets h
  exact List.ne_nil_of_mem (hseed.subset (List.mem_singleton_self built.seed))

end Built

theorem mirrors_addPath (h : ((l.search d m).run seed).result = .ok built)
    (hroute : ∀ i r x, built.graph.get? i = some r → r.Includes m x →
      (l.addPath path).route? d (x.reference i) = l.route? d (x.reference i)) :
    (l.search d m).Mirrors ((l.addPath path).search d m) (.refl Identity)
      (· ∈ built.graph.keys) where
  read := by
    intro i hi
    obtain ⟨t, ds, ho, -⟩ := settled_of_mem_keys h hi
    exact ⟨t, ho.1, ho.1⟩
  scan := by
    intro i ls _
    exact (Bundle.renamed_refl _).symm
  resolve := by
    intro i t ds n x hi ho hx
    obtain ⟨t', ds', ho', hall, hget⟩ := settled_of_mem_keys h hi
    cases ho.1.symm.trans ho'.1
    cases ho.2.symm.trans ho'.2
    obtain ⟨u, hu, hresolve⟩ := hall (n, x) hx
    have hincludes := (mem_scan_iff (opens_search_iff.1 ho).2).1 ⟨n, hx⟩
    refine ⟨some u, hresolve, ?_, ?_⟩
    · exact (resolve_congr (hroute i _ x hget hincludes)).trans hresolve
    · rintro v ⟨⟩
      exact hu

theorem run_addPath_of_route? (h : ((l.search d m).run (.ofSeed name)).result = .ok built)
    (hroute : ∀ i r x, built.graph.get? i = some r → r.Includes m x →
      (l.addPath path).route? d (x.reference i) = l.route? d (x.reference i)) :
    (((l.addPath path).search d m).run (.ofSeed name)).result = .ok built := by
  obtain ⟨hseed, -, hkeys⟩ := Search.run_ok h
  -- The start is relative to the working directory, so no search path matters for it.
  have hseed' : ((l.addPath path).search d m).source.resolve (.ofSeed name) =
      .ok (some built.seed) := hseed
  have hrun := (mirrors_addPath h hroute).run hseed hseed'
    (hkeys.subset (List.mem_singleton_self built.seed))
  rw [hrun, h, renamed, Built.rename, Graph.rename_refl]
  rfl

/-- A further search path keeps what is built, unless it has a file for a name that a file of the
graph includes, that is looked for along the search paths and that is found in none of the earlier
ones. The paths at which it is asked for such names have to be within the limits of the disk. Where
it has a file for such a name, the name leads there. -/
theorem run_addPath (hd : d.WellFormed) (path : Text) {start : Text}
    (h : ((l.search d m).run (.ofSeed start)).result = .ok built) :
    ((∀ name, l.Unfound d m built.graph name →
        d.locate (under path name) ≠ .error .tooLong ∧ ∀ q, ¬d.Finds (under path name) q) →
      (((l.addPath path).search d m).run (.ofSeed start)).result = .ok built ∧
        ∃ t, (((l.search d m).run (.ofSeed start)).result >>= fun x => x.graph.assemble) = .ok t ∧
          ((((l.addPath path).search d m).run (.ofSeed start)).result >>=
            fun x => x.graph.assemble) = .ok t) ∧
    ∀ name q, l.Unfound d m built.graph name → d.Finds (under path name) q →
      (l.addPath path).route? d (.searched name) = .ok (some (under path name)) := by
  refine ⟨fun hpath => ?_, fun name q hunfound hq => ?_⟩
  · have hrun : (((l.addPath path).search d m).run (.ofSeed start)).result = .ok built := by
      refine run_addPath_of_route? h fun i r x hr hx => ?_
      obtain ⟨route, hroute⟩ := route?_of_includes h hr hx
      obtain ⟨kind, name⟩ := x
      cases kind with
      | relative => rfl
      | searched =>
        rw [hroute]
        refine route?_addPath hd hroute fun hranges hmissed => ?_
        obtain ⟨hshort, hno⟩ := hpath name ⟨⟨i, r, hr, hx⟩, hranges, hmissed⟩
        obtain ⟨file, hfile⟩ := Disk.isFile_of_short hshort
        cases file with
        | false => exact hfile
        | true =>
          obtain ⟨q, hq⟩ := (Disk.isFile_eq_true_iff hd).1 hfile
          exact absurd hq (hno q)
    obtain ⟨t, ht⟩ := assemble_of_run h
    refine ⟨hrun, t, ?_, ?_⟩
    · rw [h]
      exact ht
    · rw [hrun]
      exact ht
  · obtain ⟨i, r, hr, hx⟩ := hunfound.included
    obtain ⟨route, hroute⟩ := route?_of_includes h hr hx
    exact route?_addPath_of_finds hd hroute hunfound.ranges hunfound.missed hq

def trayText : Text := "//&include <f.h>".toList

def tray : Disk :=
  ⟨⟨[(["main.c".toList], .file (Codec.Utf8.encode trayText)), (["f.h".toList], .file [120]),
    (["dir".toList], .directory), (["dir".toList, "f.h".toList], .directory),
    (["own".toList], .directory), (["own".toList, "f.h".toList], .file [121]),
    (["far".toList], .directory), (["far".toList, "f.h".toList], .link longName)]⟩, []⟩

def trayGraph : Graph :=
  ⟨[("/main.c".toList, ⟨trayText, [⟨0, "/f.h".toList⟩]⟩), ("/f.h".toList, ⟨['x'], []⟩)], by decide⟩

theorem wellFormed_tray : tray.WellFormed := ⟨by decide, rfl⟩

theorem resolve_tray :
    default.resolve tray (.ofSeed "main.c".toList) = .ok (some "/main.c".toList) := by
  decide

theorem contents_tray : default.contents tray "/main.c".toList = .ok (.text trayText) := by
  decide

theorem scan_tray :
    scan Marker.default.read (some "/main.c".toList) (Text.lines trayText) =
      .ok [(0, ⟨.searched, "f.h".toList⟩)] := by
  decide

theorem run_tray :
    ((default.search tray .default).run (.ofSeed "main.c".toList)).result =
      .ok ⟨"/main.c".toList, trayGraph⟩ := by
  have htarget : default.resolve tray (.searched "f.h".toList) = .ok (some "/f.h".toList) := by
    decide
  have hinner : default.contents tray "/f.h".toList = .ok (.text ['x']) := by decide
  exact run_of_pair resolve_tray contents_tray scan_tray htarget (by decide) hinner rfl

theorem eq_of_unfound_tray (h : default.Unfound tray .default trayGraph name) :
    name = "f.h".toList := by
  have hall : ∀ p ∈ trayGraph.records, ∀ line ∈ Text.lines p.2.text,
      Marker.default.read line = .plain ∨
        Marker.default.read line = .inclusion ⟨.searched, "f.h".toList⟩ := by decide
  obtain ⟨i, r, hr, line, hline, hread⟩ := h.included
  rcases hall _ (Keyed.mem_of_get? hr) line hline with hplain | hincludes
  · cases hread.symm.trans hplain
  · cases hread.symm.trans hincludes
    rfl

theorem unfound_tray : default.Unfound tray .default trayGraph "f.h".toList :=
  ⟨⟨"/main.c".toList, _, rfl, trayText, by decide, by decide⟩,
    ⟨by decide, by decide⟩, nofun⟩

theorem run_tray_addPath :
    (((default.addPath "dir".toList).search tray .default).run (.ofSeed "main.c".toList)).result =
        .ok ⟨"/main.c".toList, trayGraph⟩ ∧
      (default.addPath "own".toList).route? tray (.searched "f.h".toList) =
        .ok (some (under "own".toList "f.h".toList)) := by
  obtain ⟨hsame, -⟩ := run_addPath wellFormed_tray "dir".toList run_tray
  obtain ⟨-, hown⟩ := run_addPath wellFormed_tray "own".toList run_tray
  constructor
  · refine (hsame fun name hname => ?_).1
    rw [eq_of_unfound_tray hname]
    refine ⟨by decide, fun q hq => ?_⟩
    have hfile := (Disk.isFile_eq_true_iff wellFormed_tray).2 ⟨q, hq⟩
    revert hfile
    decide
  · have hfile : tray.isFile (under "own".toList "f.h".toList) = .ok true := by decide
    obtain ⟨q, hq⟩ := (Disk.isFile_eq_true_iff wellFormed_tray).1 hfile
    exact hown _ q unfound_tray hq

/-- The directory of the link has no file, but the search fails there. -/
theorem run_tray_addPath_fails :
    tray.WellFormed ∧
      ((default.search tray .default).run (.ofSeed "main.c".toList)).result =
        .ok ⟨"/main.c".toList, trayGraph⟩ ∧
      (∀ name q, default.Unfound tray .default trayGraph name →
        ¬tray.Finds (under "far".toList name) q) ∧
      (((default.addPath "far".toList).search tray .default).run
        (.ofSeed "main.c".toList)).result = .error (.access .tooLong "far/f.h".toList) := by
  refine ⟨wellFormed_tray, run_tray, fun name q hname hq => ?_, ?_⟩
  · have hfile := (Disk.isFile_eq_true_iff wellFormed_tray).2 ⟨q, eq_of_unfound_tray hname ▸ hq⟩
    revert hfile
    decide +kernel
  · have hlong : (default.addPath "far".toList).resolve tray (.searched "f.h".toList) =
        .error (.access .tooLong "far/f.h".toList) := by decide +kernel
    exact run_of_resolve_error resolve_tray contents_tray scan_tray hlong

end Locator
end Splice
