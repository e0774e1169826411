import Splice.Proofs.Codecs
import Splice.Proofs.Dependence
import Splice.Proofs.HeldFiles
import Splice.Proofs.RealPath

/-!
A bundle stands for a disk. Where a disk holds the files of a bundle below its working directory, a
search through the disk finds what a search through the bundle finds, with the path of the directory
in front of every identity, as long as names lead down from there and no path is too long for the
disk. A file whose own path is too long can be found by a shorter one, but it cannot be read.
-/

set_option autoImplicit false

namespace Splice

def Locator.search (l : Locator) (d : Disk) (m : Marker) : Search :=
  ⟨l.source d, fun i => scan m.read (some i)⟩

namespace Path

/-- A name that leads down from where it starts, in parts that are short enough for a disk. -/
structure Tame (t : Text) : Prop where
  relative : t.head? ≠ some '/'
  noUp : up ∉ Text.pieces '/' t
  noBackslash : '\\' ∉ t
  short : ∀ n ∈ Text.pieces '/' t, Tree.byteCount n ≤ Tree.nameLimit

instance : DecidablePred Tame := fun t =>
  decidable_of_iff
    (t.head? ≠ some '/' ∧ up ∉ Text.pieces '/' t ∧ '\\' ∉ t ∧
      ∀ n ∈ Text.pieces '/' t, Tree.byteCount n ≤ Tree.nameLimit)
    ⟨fun ⟨hr, hu, hb, hs⟩ => ⟨hr, hu, hb, hs⟩, fun ⟨hr, hu, hb, hs⟩ => ⟨hr, hu, hb, hs⟩⟩

variable {t n : Text} {init : List Text} {last : Text} {i : Identity}

theorem Tame.not_mem_namesOf (h : Tame t) : up ∉ Route.namesOf t :=
  fun hm => h.noUp (List.mem_filter.1 hm).1

theorem Tame.isStep (h : Tame t) (hn : n ∈ Route.namesOf t) : Tree.IsStep n :=
  ⟨Route.isName_of_mem_namesOf hn, fun e => h.not_mem_namesOf (e ▸ hn),
    h.short n (List.mem_filter.1 hn).1⟩

theorem Tame.canonical_eq (h : Tame t) : canonical t = Route.text ⟨0, Route.namesOf t⟩ :=
  canonical_of_not_mem h.relative h.noBackslash h.not_mem_namesOf

theorem Storable.canonical_eq (h : Storable i) : canonical i = i := by
  have hs : i.head? ≠ some '/' := by
    rw [← Text.join_pieces '/' i]
    exact Route.head?_join_names fun n hn => h.isName hn
  have hu : up ∉ Route.namesOf i := by
    rw [h.namesOf_eq]
    exact fun hm => (h.parts up hm).2.2 rfl
  rw [canonical_of_not_mem hs h.noBackslash hu, h.namesOf_eq, Route.text,
    if_neg (fun e => Text.pieces_ne_nil '/' i e.2)]
  exact Text.join_pieces '/' i

theorem canonical_join_directory (h : Storable i) (hp : Text.pieces '/' i = init ++ [last])
    (ht : Tame t) :
    canonical (join (directory i) t) = Route.text ⟨0, init ++ Route.namesOf t⟩ := by
  have hinit : ∀ n ∈ init, Route.IsName n :=
    fun n hn => h.isName (hp ▸ List.mem_append_left _ hn)
  have hd : directory i = Text.join ['/'] init := by
    rw [← Text.join_pieces '/' i, hp]
    exact directory_join hinit (h.isName (hp ▸ List.mem_append_right _ (by simp))).not_mem
  rw [hd, join, if_neg ht.relative]
  by_cases hne : init = []
  · subst hne
    exact ht.canonical_eq
  obtain ⟨c, hc, hcs⟩ := getLast?_join_names hne hinit
  have hslash : ¬(Text.join ['/'] init = [] ∨ (Text.join ['/'] init).getLast? = some '/') := by
    rw [hc]
    rintro (e | e)
    · simp [e] at hc
    · exact hcs (Option.some.inj e)
  have hnames : Route.namesOf (Text.join ['/'] init ++ ['/'] ++ t) = init ++ Route.namesOf t := by
    rw [List.append_assoc, List.singleton_append, Route.namesOf_append, Route.namesOf_join hinit]
  rw [if_neg hslash, ← hnames]
  refine canonical_of_not_mem ?_ ?_ ?_
  · intro e
    have hhead := Route.head?_join_names hinit
    cases hj : Text.join ['/'] init with
    | nil => exact hslash (.inl hj)
    | cons c t => simp_all
  · intro hm
    rcases List.mem_append.1 hm with hm | hm
    · rcases List.mem_append.1 hm with hm | hm
      · rcases Text.mem_join hm with hm | ⟨n, hn, hm⟩
        · simp at hm
        · exact h.noBackslash (Text.mem_of_mem_pieces (hp ▸ List.mem_append_left _ hn) hm)
      · simp at hm
    · exact ht.noBackslash hm
  · rw [hnames]
    intro hm
    rcases List.mem_append.1 hm with hm | hm
    · exact (h.parts up (hp ▸ List.mem_append_left _ hm)).2.2 rfl
    · exact ht.not_mem_namesOf hm

end Path

namespace Locator

theorem route?_searched {d : Disk} {name : Text} (ht : Path.Tame name) :
    ∃ route, d.Descends route (Route.namesOf name) ∧
      default.route? d (.searched name) = firstFile d [route] := by
  rw [route?, candidates, Route.isAbsolute_ofText ht.relative]
  by_cases hs : Text.startsWith ['.', '/'] name
  · refine ⟨_, .inr rfl, ?_⟩
    simp only [hs, Bool.false_eq_true, if_false, if_true, Route.append_ofText ht.relative]
  · refine ⟨_, .inl rfl, ?_⟩
    have hf : default.searchPaths ++ [default.fallback] = [⟨0, []⟩] := by decide
    simp only [hs, Bool.false_eq_true, if_false, hf, List.map_cons, List.map_nil,
      Route.append_ofText ht.relative, List.nil_append]

theorem decode_utf8 (t : Text) :
    decode default.encoding (Codec.Utf8.encode t) = .ok (.text t) :=
  (decode_eq_text_iff (e := .utf8) (by decide)).2 ⟨by decide, Codec.Utf8.decode_encode t⟩

end Locator

namespace Disk

/-- A file of the bundle that can be found and read on the disk under its whole path. -/
structure Reaches (d : Disk) (b : Bundle) (i : Identity) : Prop where
  mem : i ∈ b.names
  steps : ∀ n ∈ Text.pieces '/' i, Tree.IsStep n
  fits : Tree.byteCount (d.cwd.below i) < Tree.pathLimit

variable {d : Disk} {b : Bundle} {m : Marker} {i u : Identity} {name : Text}
  {r r' : Reference} {route : Route} {ns : List Text}

/-- On the disk the second reference leads down the names that the first asks the bundle for. -/
def Tracks (d : Disk) (b : Bundle) (r r' : Reference) : Prop :=
  ∃ ns route, b.target r = Route.text ⟨0, ns⟩ ∧ (∀ n ∈ ns, Tree.IsStep n) ∧
    d.Descends route ns ∧ Locator.default.route? d r' = Locator.firstFile d [route]

/-- A directive in a file asks for a name that leads down, and the whole path of the file that it
asks for is short enough for the disk. -/
structure Admits (d : Disk) (b : Bundle) (r : Include) (i : Identity) : Prop where
  tame : Path.Tame r.name
  fits : Tree.byteCount (d.cwd.below (b.target (r.reference i))) < Tree.pathLimit

instance (d : Disk) (b : Bundle) (r : Include) (i : Identity) : Decidable (d.Admits b r i) :=
  decidable_of_iff
    (Path.Tame r.name ∧
      Tree.byteCount (d.cwd.below (b.target (r.reference i))) < Tree.pathLimit)
    ⟨fun ⟨ht, hf⟩ => ⟨ht, hf⟩, fun ⟨ht, hf⟩ => ⟨ht, hf⟩⟩

theorem tracks_searched (ht : Path.Tame name) :
    d.Tracks b (.searched name) (.searched name) := by
  obtain ⟨route, hr, hp⟩ := Locator.route?_searched (d := d) ht
  exact ⟨_, route, ht.canonical_eq, fun _ => ht.isStep, hr, hp⟩

theorem text_eq_join (hn : ns ≠ []) : Route.text ⟨0, ns⟩ = Text.join ['/'] ns := by
  rw [Route.text, if_neg fun e => hn e.2]
  rfl

theorem byteCount_le_below (hr : d.Descends route ns) :
    Tree.byteCount route.text ≤ Tree.byteCount (d.cwd.below (Route.text ⟨0, ns⟩)) := by
  rcases hr with rfl | rfl
  · by_cases hc : d.cwd = []
    · rw [Place.below_eq, hc, Tree.byteCount_append]
      exact Nat.le_add_left _ _
    · rw [Place.below_eq, Text.join_append _ hc (by simp), ← List.append_assoc,
        Tree.byteCount_append]
      exact Nat.le_add_left _ _
  · by_cases hn : ns = []
    · subst hn
      rw [List.append_nil, Place.below_eq]
      by_cases hc : d.cwd = []
      · rw [hc]
        decide
      · rw [Text.join_append _ hc (by simp), List.append_assoc, ← List.append_assoc ['/'],
          Tree.byteCount_append]
        exact Nat.le_add_right _ _
    · rw [text_eq_join hn, ← Place.text_append hn]
      exact Nat.le_refl _

theorem text_pieces (p : Place) (i : Identity) :
    Route.text ⟨1, p ++ Text.pieces '/' i⟩ = p.below i := by
  have ht := Place.text_append (p := p) (Text.pieces_ne_nil '/' i)
  rw [Text.join_pieces] at ht
  exact ht

namespace Holds

variable (h : d.Holds b)

include h

theorem point_not_mem : ['.'] ∉ b.names := by
  intro hm
  exact ((h.storable _ hm).parts ['.'] (by decide)).2.1 rfl

theorem ne_nil_of_mem (hm : Route.text ⟨0, ns⟩ ∈ b.names) : ns ≠ [] := by
  rintro rfl
  exact h.point_not_mem hm

theorem file?_eq (hr : d.Descends route ns) (hs : ∀ n ∈ ns, Tree.IsStep n)
    (hl : Tree.byteCount route.text < Tree.pathLimit) :
    d.file? route = .ok (if Route.text ⟨0, ns⟩ ∈ b.names then some (d.cwd ++ ns) else none) := by
  by_cases hm : Route.text ⟨0, ns⟩ ∈ b.names
  · have hn : ns ≠ [] := h.ne_nil_of_mem hm
    have hp : Text.pieces '/' (Route.text ⟨0, ns⟩) = ns := by
      rw [text_eq_join hn]
      exact Text.pieces_join hn fun n hm => (hs n hm).isName.not_mem
    rw [if_pos hm]
    have hf := h.file?_found (i := Route.text ⟨0, ns⟩) (r := route)
    rw [hp] at hf
    exact hf hr hm hs hl
  · rw [if_neg hm]
    refine h.file?_missing hr hs (fun i hi e => hm ?_) hl
    have hn : ns ≠ [] := e ▸ Text.pieces_ne_nil '/' i
    rwa [text_eq_join hn, e, Text.join_pieces]

theorem leads_descent (hr : d.Descends route ns) (hs : ∀ n ∈ ns, Tree.IsStep n)
    (hm : Route.text ⟨0, ns⟩ ∈ b.names) :
    d.tree.Leads (d.origin route) route.names 0 (d.cwd ++ ns) := by
  have hn : ns ≠ [] := h.ne_nil_of_mem hm
  have hp : Text.pieces '/' (Route.text ⟨0, ns⟩) = ns := by
    rw [text_eq_join hn]
    exact Text.pieces_join hn fun n hm => (hs n hm).isName.not_mem
  have hfile : ∃ t, d.tree.node? (d.cwd ++ ns) = some (.file t) := by
    obtain ⟨t, ht⟩ := Bundle.mem_names_iff.1 hm
    have hf := h.files _ t ht
    rw [hp] at hf
    exact ⟨_, hf⟩
  have hdown : d.tree.Leads d.cwd ns 0 (d.cwd ++ ns) := by
    refine Tree.leads_down hs fun q hq _ => ?_
    by_cases hne : q = ns
    · obtain ⟨t, ht⟩ := hfile
      exact ⟨_, hne ▸ ht, by simp⟩
    · have hd := h.directories _ hm q
      rw [hp] at hd
      exact ⟨_, hd hq hne, by simp⟩
  rcases hr with rfl | rfl
  · exact hdown
  · have hcwd : d.tree.Leads [] d.cwd 0 d.cwd :=
      Tree.leads_down (fun n hn => (h.cwd_steps n hn).1)
        fun q hq _ => ⟨_, h.cwd_directories q hq, by simp⟩
    exact hcwd.append hdown

theorem real_descent (hr : d.Descends route ns) (hs : ∀ n ∈ ns, Tree.IsStep n)
    (hm : Route.text ⟨0, ns⟩ ∈ b.names) (hf : d.file? route = .ok (some (d.cwd ++ ns))) :
    d.real route = .ok ⟨1, d.cwd ++ ns⟩ := by
  have hc : ∀ n ∈ d.cwd, Tree.IsStep n := fun n hn => (h.cwd_steps n hn).1
  have hnames : ∀ n ∈ d.cwd ++ ns, Route.IsName n := by
    intro n hn
    exact ((List.mem_append.1 hn).elim (hc n) (hs n)).isName
  have hspelled : route.Spelled := by
    rcases hr with rfl | rfl
    · exact Route.ofText_text (Nat.zero_le 2) fun n hn => (hs n hn).isName
    · exact Route.ofText_text (Nat.le_succ 1) hnames
  have hleads := h.leads_descent hr hs hm
  have hz : hasZero route = false := by
    by_contra hz
    rw [file?, if_pos (by simpa using hz)] at hf
    cases hf
  refine real_eq hc hspelled hz (legible_of_leads hc hspelled hleads) hleads (Nat.zero_le _) ?_
  intro hl
  rw [h.file?_eq (.inr rfl) hs hl, if_pos hm]

theorem resolve_eq (hb : b.target r = Route.text ⟨0, ns⟩) (hs : ∀ n ∈ ns, Tree.IsStep n)
    (hw : d.Descends route ns)
    (hp : Locator.default.route? d r' = Locator.firstFile d [route])
    (hl : Tree.byteCount route.text < Tree.pathLimit) :
    Locator.default.resolve d r' = .ok ((b.resolve r).map d.cwd.below) := by
  have hf := h.file?_eq hw hs hl
  rw [Locator.resolve, hp, Bundle.resolve, hb]
  by_cases hm : Route.text ⟨0, ns⟩ ∈ b.names
  · have hn : ns ≠ [] := h.ne_nil_of_mem hm
    rw [if_pos hm] at hf
    have htext : Route.text ⟨1, d.cwd ++ ns⟩ = d.cwd.below (Route.text ⟨0, ns⟩) := by
      rw [text_eq_join hn]
      exact Place.text_append hn
    simp only [Locator.firstFile, isFile, hf, Except.map, Option.isSome_some, if_pos hm,
      h.real_descent hw hs hm hf, Option.map_some, htext]
  · rw [if_neg hm] at hf
    simp only [Locator.firstFile, isFile, hf, Except.map, Option.isSome_none, if_neg hm,
      Option.map_none]

theorem resolve_tracks (hr : d.Tracks b r r')
    (hf : Tree.byteCount (d.cwd.below (b.target r)) < Tree.pathLimit) :
    Locator.default.resolve d r' = .ok ((b.resolve r).map d.cwd.below) ∧
      ∀ u ∈ b.resolve r, d.Reaches b u := by
  obtain ⟨ns, route, hb, hs, hw, hp⟩ := hr
  have hl : Tree.byteCount route.text < Tree.pathLimit := by
    rw [hb] at hf
    exact (byteCount_le_below hw).trans_lt hf
  refine ⟨h.resolve_eq hb hs hw hp hl, ?_⟩
  intro u hu
  obtain ⟨rfl, hm⟩ := Bundle.resolve_eq_some.1 hu
  refine ⟨hm, ?_, hf⟩
  rw [hb] at hm ⊢
  have hn : ns ≠ [] := h.ne_nil_of_mem hm
  rwa [text_eq_join hn, Text.pieces_join hn fun n hm => (hs n hm).isName.not_mem]

theorem ofText_below (hi : i ∈ b.names) :
    Route.ofText (d.cwd.below i) = ⟨1, d.cwd ++ Text.pieces '/' i⟩ := by
  rw [← text_pieces]
  refine Route.ofText_text (Nat.le_succ 1) fun n hn => ?_
  rcases List.mem_append.1 hn with hn | hn
  · exact (h.cwd_steps n hn).1.isName
  · exact (h.storable i hi).isName hn

theorem route?_ofSeed (name : Text) (ht : Path.Tame name) :
    Locator.default.route? d (.ofSeed name) =
      Locator.firstFile d [⟨0, Route.namesOf name⟩] := by
  have hroute : Route.ofText "./".toList = ⟨0, []⟩ := by decide
  have hfile : d.file? ⟨0, []⟩ = .ok none := by
    rw [h.file?_eq (.inl rfl : d.Descends ⟨0, []⟩ []) (by simp) (by decide)]
    exact congrArg Except.ok (if_neg h.point_not_mem)
  have hbase : Locator.base d "./".toList = .ok ⟨0, []⟩ := by
    simp only [Locator.base, hroute, isFile, hfile]
    rfl
  rw [Reference.ofSeed, Locator.route?, hbase]
  simp only [Route.append_ofText ht.relative, List.nil_append]

theorem route?_relative {init : List Text} {last : Text} (hi : d.Reaches b i)
    (hp : Text.pieces '/' i = init ++ [last]) (ht : Path.Tame name) :
    Locator.default.route? d (.relative name (d.cwd.below i)) =
      Locator.firstFile d [⟨1, d.cwd ++ (init ++ Route.namesOf name)⟩] := by
  have hfile : d.file? ⟨1, d.cwd ++ Text.pieces '/' i⟩ = .ok (some (d.cwd ++ Text.pieces '/' i)) :=
    h.file?_found (.inr rfl) hi.mem hi.steps (by rw [text_pieces]; exact hi.fits)
  have hbase : Locator.base d (d.cwd.below i) = .ok ⟨1, d.cwd ++ init⟩ := by
    simp only [Locator.base, h.ofText_below hi.mem, isFile, hfile]
    simp only [Except.map, Option.isSome_some, Route.parent, hp, ← List.append_assoc,
      List.dropLast_concat]
  rw [Locator.route?, hbase]
  simp only [Route.append_ofText ht.relative, List.append_assoc]

theorem contents_eq {t : Text} (hi : d.Reaches b i) (hc : b.content? i = some t) :
    Locator.default.contents d (d.cwd.below i) = .ok (.text t) := by
  rw [Locator.contents, h.ofText_below hi.mem,
    h.read_eq (.inr rfl) hc hi.steps (by rw [text_pieces]; exact hi.fits)]
  exact Locator.decode_utf8 t

theorem tracks_seed {r : Include} (ht : Path.Tame r.name) :
    d.Tracks b (r.reference "./".toList) (r.reference "./".toList) := by
  obtain ⟨kind, name⟩ := r
  cases kind with
  | searched => exact tracks_searched ht
  | relative =>
    have hb : name.head? ≠ some '\\' := fun e => ht.noBackslash (List.mem_of_mem_head? e)
    exact ⟨_, _, (Bundle.target_ofSeed b hb).trans ht.canonical_eq, fun _ => ht.isStep, .inl rfl,
      h.route?_ofSeed name ht⟩

theorem tracks_include {r : Include} (hi : d.Reaches b i) (ht : Path.Tame r.name) :
    d.Tracks b (r.reference i) (r.reference (d.cwd.below i)) := by
  obtain ⟨kind, name⟩ := r
  cases kind with
  | searched => exact tracks_searched ht
  | relative =>
    have hs := h.storable i hi.mem
    obtain ⟨init, last, hp⟩ := Text.exists_pieces '/' i
    refine ⟨_, _, ?_, ?_, .inr rfl, h.route?_relative hi hp ht⟩
    · rw [← Path.canonical_join_directory hs hp ht]
      exact Bundle.target_relative hs.canonical_eq hi.mem name
    · intro n hn
      rcases List.mem_append.1 hn with hn | hn
      · exact hi.steps n (hp ▸ List.mem_append_left _ hn)
      · exact ht.isStep hn

/-- A search through the disk sees the files that can be reached as a search through the bundle
does. -/
theorem mirrors (m : Marker)
    (hd : ∀ i ∈ b.names, ∀ l ∈ b.linesOf i, ∀ r, m.read l = .inclusion r → d.Admits b r i) :
    (b.search m).Mirrors (Locator.default.search d m) d.cwd.below (d.Reaches b) where
  read := by
    intro i hi
    obtain ⟨t, ht⟩ := Bundle.mem_names_iff.1 hi.mem
    refine ⟨t, ?_, h.contents_eq hi ht⟩
    change Except.ok (Content.text ((b.content? i).getD [])) = _
    rw [ht]
    rfl
  scan := by
    intro i ls _
    change scanFrom m.read _ 0 ls = renamed _ id (scanFrom m.read _ 0 ls)
    rw [scanFrom_eq, scanFrom_eq]
    cases firstMalformed m.read 0 ls <;> rfl
  resolve := by
    intro i t ds n r hi ho hr
    obtain ⟨-, -, rfl⟩ := Bundle.opens_iff.1 ho
    obtain ⟨l, hl, hread⟩ := mem_directives.1 hr
    have ha := hd i hi.mem l (List.mem_of_getElem? hl) r hread
    obtain ⟨hres, hreach⟩ := h.resolve_tracks (h.tracks_include hi ha.tame) ha.fits
    exact ⟨_, rfl, hres, hreach⟩

theorem contents_tooLong (hi : i ∈ b.names)
    (hl : Tree.pathLimit ≤ Tree.byteCount (d.cwd.below i)) :
    ∃ path, Locator.default.contents d (d.cwd.below i) =
      .ok (.unreadable (.access .tooLong path)) := by
  have hz := h.hasZero_eq_false (.inr rfl) (h.noZero hi)
  rw [Locator.contents, h.ofText_below hi, read, hz, locate, reach, text_pieces, if_pos hl]
  exact ⟨_, rfl⟩

theorem run_tooLong {seed : Reference}
    (hr : Locator.default.resolve d seed = .ok (some (d.cwd.below i))) (hi : i ∈ b.names)
    (hl : Tree.pathLimit ≤ Tree.byteCount (d.cwd.below i)) :
    ((Locator.default.search d m).run seed).result = .error (.notFound seed) := by
  obtain ⟨path, hp⟩ := h.contents_tooLong hi hl
  have hr' : (Locator.default.search d m).source.resolve seed = _ := hr
  have hp' : (Locator.default.search d m).source.read (d.cwd.below i) = _ := hp
  simp only [Search.run, hr', Search.openFile, hp']

end Holds
end Disk

theorem Place.byteCount_below_replicate (k : Nat) (n : Text) (i : Identity) :
    Tree.byteCount (Place.below (List.replicate k n) i) =
      k * (Tree.byteCount n + 1) + Tree.byteCount i + 1 := by
  have hslash : Tree.byteCount ['/'] = 1 := by decide
  induction k with
  | zero =>
    rw [Place.below_eq, Tree.byteCount_append, hslash]
    simp only [List.replicate_zero, List.nil_append, Text.join]
    omega
  | succ k ih =>
    rw [Place.below_eq, Tree.byteCount_append, hslash] at ih
    rw [Place.below_eq, Tree.byteCount_append, List.replicate_succ, List.cons_append,
      Text.join_cons _ (by simp), Tree.byteCount_append, Tree.byteCount_append, hslash,
      Nat.succ_mul]
    omega

namespace Bundle

variable {d : Disk} {b : Bundle}

/-- A bundle stands for a disk that holds its files. Where all names lead down and all that they ask
for is short enough for the disk, the graph that is built from the disk is the one that is built
from the bundle, with the path of the working directory in front of every identity, and it assembles
to the same text; and a failure is the same failure with the same identities. A seed that is not
found starts from the working directory itself, which has the same name for both. -/
theorem run_on_disk (m : Marker) (seed : Include) (h : d.Holds b)
    (hs : d.Admits b seed "./".toList)
    (hd : ∀ i ∈ b.names, ∀ l ∈ b.linesOf i, ∀ r, m.read l = .inclusion r → d.Admits b r i) :
    let r := seed.reference "./".toList
    let inBundle := ((b.search m).run r).result
    let onDisk := ((Locator.default.search d m).run r).result
    (b.resolve r = none → inBundle = .error (.notFound r) ∧ onDisk = .error (.notFound r)) ∧
      (b.resolve r ≠ none → onDisk = renamed d.cwd.below (.rename d.cwd.below) inBundle) ∧
      ∀ built, inBundle = .ok built →
        ∃ t, built.graph.assemble = .ok t ∧ (built.rename d.cwd.below).graph.assemble = .ok t := by
  intro r inBundle onDisk
  obtain ⟨hr, hreach⟩ := h.resolve_tracks (h.tracks_seed hs.tame) hs.fits
  refine ⟨?_, ?_, ?_⟩
  · intro hn
    rw [show b.resolve (seed.reference "./".toList) = none from hn] at hr
    have hb' : (b.search m).source.resolve r = .ok none := congrArg Except.ok hn
    have hd' : (Locator.default.search d m).source.resolve r = .ok none := hr
    simp only [inBundle, onDisk, Search.run, hb', hd', and_self]
  · intro hn
    obtain ⟨i, hi⟩ := Option.ne_none_iff_exists'.1 hn
    rw [show b.resolve (seed.reference "./".toList) = some i from hi] at hr hreach
    exact (h.mirrors m hd).run (resolve_eq_ok.2 hi) hr (hreach i rfl)
  · intro built hb
    obtain ⟨x, -, ha⟩ := assemble_roots hb
    refine ⟨_, ha, ?_⟩
    rw [Built.rename, Graph.assemble_rename, ha]
    rfl

def shelf : Bundle :=
  .ofList [("lib/a".toList, "//&include \"./b\"\nx".toList),
    ("lib/b".toList, "y\n//&include <.//lib/a>".toList)]

def shelfGraph : Graph :=
  ⟨[("lib/a".toList, ⟨"//&include \"./b\"\nx".toList, [⟨0, "lib/b".toList⟩]⟩),
    ("lib/b".toList, ⟨"y\n//&include <.//lib/a>".toList, [⟨1, "lib/a".toList⟩]⟩)], by decide⟩

def shelfSeed : Include := ⟨.relative, "lib//a".toList⟩

theorem run_shelf :
    ((shelf.search .default).run (shelfSeed.reference "./".toList)).result =
      .ok ⟨"lib/a".toList, shelfGraph⟩ :=
  Search.run_of_steps 4 rfl rfl rfl

def shelfDisk : Disk := .ofBundle ["srv".toList, "work".toList] shelf

theorem holds_shelf : shelfDisk.Holds shelf :=
  Disk.holds_ofBundle (by decide) (by decide) (by decide)

theorem admits_shelf :
    ∀ i ∈ shelf.names, ∀ l ∈ shelf.linesOf i, ∀ r ∈ (Marker.default.read l).directive?,
      shelfDisk.Admits shelf r i := by
  decide

theorem run_shelf_on_disk :
    shelf.resolve (shelfSeed.reference "./".toList) ≠ none ∧
      ((Locator.default.search shelfDisk .default).run (shelfSeed.reference "./".toList)).result =
        .ok (.rename shelfDisk.cwd.below ⟨"lib/a".toList, shelfGraph⟩) ∧
      (shelfGraph.rename shelfDisk.cwd.below).keys =
        ["/srv/work/lib/a".toList, "/srv/work/lib/b".toList] ∧
      ∃ t, shelfGraph.assemble = .ok t ∧
        (shelfGraph.rename shelfDisk.cwd.below).assemble = .ok t := by
  obtain ⟨-, hrun, ht⟩ := run_on_disk .default shelfSeed holds_shelf (by decide)
    fun i hi l hl r hr => admits_shelf i hi l hl r (Reading.directive?_eq_some.2 hr)
  have hn : shelf.resolve (shelfSeed.reference "./".toList) ≠ none := by decide
  refine ⟨hn, ?_, rfl, ht _ run_shelf⟩
  rw [hrun hn, run_shelf]
  rfl

def lone : Bundle := .ofList [("chapter".toList, ['x'])]

def farDisk : Disk := .ofBundle (List.replicate 409 "directory".toList) lone

theorem holds_lone : farDisk.Holds lone := by
  refine Disk.holds_ofBundle (by decide) (by decide) ?_
  intro n hn
  rw [List.eq_of_mem_replicate hn]
  decide

theorem byteCount_farDisk :
    Tree.byteCount farDisk.cwd.text < Tree.pathLimit ∧
      Tree.pathLimit ≤ Tree.byteCount (farDisk.cwd.below "chapter".toList) := by
  have hc : farDisk.cwd = List.replicate 408 "directory".toList ++ ["directory".toList] :=
    List.replicate_succ'
  have ht : farDisk.cwd.text =
      Place.below (List.replicate 408 "directory".toList) "directory".toList := by
    rw [hc]
    rfl
  have hb : Tree.byteCount (farDisk.cwd.below "chapter".toList) = _ :=
    Place.byteCount_below_replicate 409 "directory".toList "chapter".toList
  rw [ht, hb, Place.byteCount_below_replicate]
  decide

theorem run_lone :
    ((lone.search .default).run (.ofSeed "chapter".toList)).result =
      .ok ⟨"chapter".toList, ⟨[("chapter".toList, ⟨['x'], []⟩)], by decide⟩⟩ :=
  Search.run_of_steps 1 rfl rfl rfl

/-- Short names alone do not make a file readable: the bundle has a file that counts as not found on
a disk that holds it, as its whole path is too long. -/
theorem run_farDisk :
    farDisk.Holds lone ∧ Tree.byteCount farDisk.cwd.text < Tree.pathLimit ∧
      Path.Tame "chapter".toList ∧
      (∀ i ∈ lone.names, ∀ l ∈ lone.linesOf i, Marker.default.read l = .plain) ∧
      ((lone.search .default).run (.ofSeed "chapter".toList)).result =
        .ok ⟨"chapter".toList, ⟨[("chapter".toList, ⟨['x'], []⟩)], by decide⟩⟩ ∧
      ((Locator.default.search farDisk .default).run (.ofSeed "chapter".toList)).result =
        .error (.notFound (.ofSeed "chapter".toList)) := by
  have hf := holds_lone
  obtain ⟨hc, hl⟩ := byteCount_farDisk
  have ht : Path.Tame "chapter".toList := by decide
  have hb : lone.target (.ofSeed "chapter".toList) =
      Route.text ⟨0, Route.namesOf "chapter".toList⟩ := by decide
  have hu : lone.resolve (.ofSeed "chapter".toList) = some "chapter".toList := by decide
  have hr := hf.resolve_eq hb (by decide) (.inl rfl) (hf.route?_ofSeed _ ht) (by decide)
  rw [hu] at hr
  exact ⟨hf, hc, ht, by decide, run_lone, hf.run_tooLong hr (by decide) hl⟩

end Bundle
end Splice
