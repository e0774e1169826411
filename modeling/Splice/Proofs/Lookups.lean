import Splice.Proofs.Identities

set_option autoImplicit false

namespace Splice

namespace Search

open Relation (ReflTransGen)

/-- The references that a search comes to look up: the start, and the directives of the files that
are found. -/
inductive Meets (s : Search) (seed : Reference) : Reference → Prop
  | seed : Meets s seed seed
  | directive {ref : Reference} {i : Identity} {t : Text} {ds : List (Nat × Include)} {n : Nat}
    {d : Include} :
    Meets s seed ref → s.source.resolve ref = .ok (some i) → s.Opens i t ds → (n, d) ∈ ds →
      Meets s seed (d.reference i)

variable {s : Search} {seed ref : Reference} {i j : Identity} {e : Failure}

theorem Meets.of_leads (h : s.Meets seed ref) (hi : s.source.resolve ref = .ok (some i))
    (hj : ReflTransGen s.Leads i j) :
    ∃ ref', s.Meets seed ref' ∧ s.source.resolve ref' = .ok (some j) := by
  induction hj with
  | refl => exact ⟨ref, h, hi⟩
  | tail _ hlast ih =>
    obtain ⟨ref', hmeets, hr⟩ := ih
    obtain ⟨t, ds, n, d, ho, hd, hu⟩ := hlast
    exact ⟨_, hmeets.directive hr ho hd, hu⟩

theorem meets_of_run_error (h : (s.run seed).result = .error e) :
    ∃ ref, s.Meets seed ref ∧
      (s.Lost ref e ∨ ∃ i r, s.source.resolve ref = .ok (some i) ∧ s.Shut r i e) := by
  rcases visit_of_run_error h with hr | ⟨hr, rfl⟩ | ⟨i, hr, hv⟩
  · exact ⟨seed, .seed, .inl (.failed hr)⟩
  · exact ⟨seed, .seed, .inl (.missing hr)⟩
  · obtain ⟨j, hj, hfault⟩ := (visit_spec s).1 _ _ _ _ hv
    obtain ⟨ref, hmeets, hrj⟩ := Meets.of_leads .seed hr hj
    cases hfault with
    | shut hshut => exact ⟨ref, hmeets, .inr ⟨j, _, hrj, hshut⟩⟩
    | lost ho hd hlost => exact ⟨_, hmeets.directive hrj ho hd, .inl hlost⟩

end Search

namespace Disk

variable {d : Disk} {r : Route}

theorem isFile_of_short (h : d.locate r ≠ .error .tooLong) : ∃ found, d.isFile r = .ok found := by
  unfold isFile file?
  split
  · exact ⟨false, rfl⟩
  split
  · exact ⟨true, rfl⟩
  · exact ⟨false, rfl⟩
  · rename_i hlong
    exact absurd hlong h
  · exact ⟨false, rfl⟩

end Disk

namespace Locator

/-- A path that the disk is asked for while a reference is looked up. -/
inductive Asks (l : Locator) (d : Disk) : Reference → Route → Prop
  | tries {ref : Reference} {route : Route} : l.Tries d ref route → Asks l d ref route
  | parent {name parent : Text} : Asks l d (.relative name parent) (.ofText parent)

/-- No path that a reference is looked for at is too long for the disk, and neither is one at which
a link on the way is met. -/
structure Within (l : Locator) (d : Disk) (ref : Reference) : Prop where
  short : ∀ route, l.Asks d ref route → d.locate route ≠ .error .tooLong
  legible : l.Legible d ref

variable {l : Locator} {d : Disk} {ref : Reference} {i : Identity} {m : Marker} {e : Failure}

theorem firstFile_ok {rs : List Route}
    (h : ∀ before route after, rs = before ++ route :: after →
      (∀ c ∈ before, d.isFile c = .ok false) → ∃ found, d.isFile route = .ok found) :
    ∃ found, firstFile d rs = .ok found := by
  induction rs with
  | nil => exact ⟨none, rfl⟩
  | cons r rs ih =>
    unfold firstFile
    obtain ⟨found, hr⟩ := h [] r rs rfl (by simp)
    cases found with
    | true =>
      rw [hr]
      exact ⟨some r, rfl⟩
    | false =>
      rw [hr]
      refine ih fun before route after hrs hbefore => ?_
      exact h (r :: before) route after (by rw [hrs]; rfl)
        (List.forall_mem_cons.2 ⟨hr, hbefore⟩)

theorem Within.route?_ok (h : l.Within d ref) : ∃ found, l.route? d ref = .ok found := by
  cases ref with
  | searched name =>
    refine firstFile_ok fun before route after hrs hbefore => ?_
    exact Disk.isFile_of_short (h.short route (.tries (.searched hrs hbefore)))
  | relative name parent =>
    obtain ⟨found, hparent⟩ := Disk.isFile_of_short (h.short _ .parent)
    obtain ⟨b, hb⟩ : ∃ b, base d parent = .ok b := by
      unfold base
      cases found <;> simp [hparent]
    obtain ⟨found, hroute⟩ := Disk.isFile_of_short (h.short _ (.tries (.relative hb)))
    rw [route?, hb]
    cases found <;> simp [firstFile, hroute]

theorem Within.resolve_ok (hd : d.WellFormed) (hl : l.Spelled) (h : l.Within d ref) :
    ∃ found, l.resolve d ref = .ok found := by
  obtain ⟨found, hroute⟩ := h.route?_ok
  cases found with
  | none => exact ⟨none, by rw [resolve, hroute]⟩
  | some route =>
    obtain ⟨htries, hfile⟩ := route?_eq_some_iff.1 hroute
    obtain ⟨p, hfinds⟩ := (Disk.isFile_eq_true_iff hd).1 hfile
    have hto : l.LeadsTo d ref p := ⟨route, htries, h.legible route htries hfile, hfinds⟩
    exact ⟨_, resolve_of_leadsTo hd hl hto⟩

theorem Within.resolve_eq_none_iff (hd : d.WellFormed) (hl : l.Spelled) (h : l.Within d ref) :
    l.resolve d ref = .ok none ↔ ∀ route, l.Tries d ref route → ∀ p, ¬d.Finds route p := by
  constructor
  · intro hnone route htries p hfinds
    have hfile := (Disk.isFile_eq_true_iff hd).2 ⟨p, hfinds⟩
    have hsome := resolve_of_leadsTo hd hl ⟨route, htries, h.legible route htries hfile, hfinds⟩
    cases hnone.symm.trans hsome
  · intro hno
    obtain ⟨found, hfound⟩ := h.resolve_ok hd hl
    cases found with
    | none => exact hfound
    | some i =>
      obtain ⟨p, ⟨route, htries, -, hfinds⟩, -⟩ := leadsTo_of_resolve hd hl h.legible hfound
      exact absurd hfinds (hno route htries p)

/-- Bytes in the encoding are a text, or cannot be decoded; nothing else can happen. -/
def Readable (l : Locator) : Prop :=
  ∀ bytes, ∃ content, decode l.encoding bytes = .ok content

-- The encodings that have a name here are a choice. What matters of them is that their faults count
-- as such: of those that are left out, punycode, idna and undefined fail in a way of their own.
theorem readable_of_named {name : Text} {encoding : Encoding} (hl : l.encoding = .text name)
    (hz : '\x00' ∉ name) (hname : Encoding.ofName? name = some encoding) : l.Readable := by
  intro bytes
  rw [hl, decode, if_neg hz, hname]
  split
  · exact ⟨_, rfl⟩
  · dsimp only
    cases encoding.decode bytes with
    | error f => exact ⟨_, rfl⟩
    | ok t => exact ⟨_, rfl⟩

theorem Readable.contents_ok (h : l.Readable) (hd : d.WellFormed) (hi : d.tree.IsReal i) :
    ∃ content, l.contents d i = .ok content := by
  unfold contents
  split
  · rename_i b _
    exact h b
  · exact ⟨_, rfl⟩
  · rename_i e hno hread
    unfold Disk.read at hread
    rw [hasZero_identity hd hi] at hread
    simp only [Bool.false_eq_true, if_false] at hread
    split at hread <;> cases hread
    all_goals exact absurd rfl (hno _ _)

theorem isReal_of_resolve (hd : d.WellFormed) (hl : l.Spelled) (h : l.Legible d ref)
    (hr : l.resolve d ref = .ok (some i)) : d.tree.IsReal i := by
  obtain ⟨p, ⟨route, -, -, hfinds⟩, rfl⟩ := leadsTo_of_resolve hd hl h hr
  obtain ⟨b, hb⟩ := hfinds.isFile
  exact hd.tree.isReal hb

theorem opens_search_iff {t : Text} {ds : List (Nat × Include)} :
    (l.search d m).Opens i t ds ↔
      l.contents d i = .ok (.text t) ∧ scan m.read (some i) (Text.lines t) = .ok ds := Iff.rfl

theorem run_of_resolve_error {seed : Reference} {t : Text} {n : Nat} {x : Include}
    {ds : List (Nat × Include)} (hseed : l.resolve d seed = .ok (some i))
    (hcontents : l.contents d i = .ok (.text t))
    (hscan : scan m.read (some i) (Text.lines t) = .ok ((n, x) :: ds))
    (herror : l.resolve d (x.reference i) = .error e) :
    ((l.search d m).run seed).result = .error e := by
  have ho : (l.search d m).Opens i t ((n, x) :: ds) := ⟨hcontents, hscan⟩
  have hr : (l.search d m).source.resolve seed = .ok (some i) := hseed
  rw [Search.run, hr]
  simp only [Search.openFile_of_opens ho]
  rw [Search.loop_cons, Search.step_of_lost (.failed herror)]

/-- Looking for files fails only in the ways that are meant, as long as paths are within the limits
of the disk. A reference resolves to nothing if and only if there is no file at any path where it is
looked for. A search gives a graph, or fails because a reference leads to no file or a line of a
file is malformed. -/
theorem search_fails_as_meant (hd : d.WellFormed) (hl : l.Spelled) (hreadable : l.Readable)
    (m : Marker) :
    (∀ ref, l.Within d ref →
      (∃ found, l.resolve d ref = .ok found) ∧
        (l.resolve d ref = .ok none ↔ ∀ route, l.Tries d ref route → ∀ p, ¬d.Finds route p)) ∧
    ∀ seed, (∀ ref, (l.search d m).Meets seed ref → l.Within d ref) →
      (∃ built, ((l.search d m).run seed).result = .ok built) ∨
      (∃ ref, ((l.search d m).run seed).result = .error (.notFound ref)) ∨
      ∃ line detail i,
        ((l.search d m).run seed).result = .error (.malformed line detail (some i)) := by
  refine ⟨fun ref h => ⟨h.resolve_ok hd hl, h.resolve_eq_none_iff hd hl⟩, fun seed hwithin => ?_⟩
  cases hrun : ((l.search d m).run seed).result with
  | ok built => exact .inl ⟨built, rfl⟩
  | error e =>
    right
    obtain ⟨ref, hmeets, hlost | ⟨i, r, hr, hshut⟩⟩ := Search.meets_of_run_error hrun
    · cases hlost with
      | failed hr =>
        obtain ⟨found, hok⟩ := (hwithin ref hmeets).resolve_ok hd hl
        cases hok.symm.trans hr
      | missing hr => exact .inl ⟨ref, rfl⟩
    · cases hshut with
      | read hread =>
        have hi := isReal_of_resolve hd hl (hwithin ref hmeets).legible hr
        obtain ⟨content, hok⟩ := hreadable.contents_ok hd hi
        cases hok.symm.trans hread
      | unreadable hread => exact .inl ⟨r, rfl⟩
      | @scan t _ hread hscan =>
        have hscan : scanFrom m.read (some i) 0 (Text.lines t) = .error e := hscan
        rw [scanFrom_eq] at hscan
        split at hscan
        · cases hscan
          exact .inr ⟨_, _, i, rfl⟩
        · cases hscan

theorem readable_default : default.Readable := by
  have hname : Encoding.ofName? "utf-8".toList = some .utf8 := by decide
  exact readable_of_named rfl (by decide) hname

theorem within_yard : default.Within yard (.searched "link/up".toList) := by
  refine ⟨fun route hasks => ?_, legible_of_candidates candidates_yard legible_yard⟩
  cases hasks with
  | tries htries =>
    cases htries with
    | @searched _ before after _ hrs _ =>
      have hm : route ∈ default.candidates yard "link/up".toList := by
        rw [hrs]
        simp
      rw [candidates_yard, List.mem_singleton] at hm
      rw [hm]
      decide +kernel

theorem meets_yard
    (h : (default.search yard .default).Meets (.searched "link/up".toList) ref) :
    ref = .searched "link/up".toList := by
  induction h with
  | seed => rfl
  | @directive ref i t ds n d _ hr ho hmem ih =>
    have hr : default.resolve yard ref = .ok (some i) := hr
    obtain ⟨hcontents, hscan⟩ := opens_search_iff.1 ho
    have hread : default.contents yard yardFile.text = .ok (.text []) := by decide
    rw [ih, resolve_of_leadsTo wellFormed_yard (by decide) leadsTo_yard] at hr
    cases hr
    rw [hread] at hcontents
    cases hcontents
    cases hscan
    cases hmem

theorem search_yard_fails_as_meant :
    (∀ ref, (default.search yard .default).Meets (.searched "link/up".toList) ref →
      default.Within yard ref) ∧
    ((∃ built, ((default.search yard .default).run (.searched "link/up".toList)).result =
        .ok built) ∨
      (∃ ref, ((default.search yard .default).run (.searched "link/up".toList)).result =
        .error (.notFound ref)) ∨
      ∃ line detail i, ((default.search yard .default).run (.searched "link/up".toList)).result =
        .error (.malformed line detail (some i))) := by
  have hwithin : ∀ ref, (default.search yard .default).Meets (.searched "link/up".toList) ref →
      default.Within yard ref := fun ref h => meets_yard h ▸ within_yard
  exact ⟨hwithin, (search_fails_as_meant wellFormed_yard (by decide) readable_default .default).2
    _ hwithin⟩

/-- A name that is too long for every disk is a failure, though there is no such file. -/
theorem resolve_tooLong {n : Text} (d : Disk) (hn : Route.IsName n) (hpoint : n.head? ≠ some '.')
    (hz : '\x00' ∉ n) (hlong : Tree.nameLimit < Tree.byteCount n) :
    default.resolve d (.searched n) = .error (.access .tooLong n) := by
  have hof : Route.ofText n = ⟨0, [n]⟩ :=
    Route.ofText_text (r := ⟨0, [n]⟩) (Nat.zero_le 2) (by simpa using hn)
  have htext : Route.text ⟨0, [n]⟩ = n := rfl
  have hcandidates : default.candidates d n = [⟨0, [n]⟩] := by
    have hstart : Text.startsWith ['.', '/'] n = false := by
      cases n with
      | nil => rfl
      | cons c t =>
        have hc : '.' ≠ c := fun h => hpoint (by rw [h]; rfl)
        simp [Text.startsWith, Text.after?, hc]
    simp only [candidates, hof, hstart]
    rfl
  have hlocate : d.locate ⟨0, [n]⟩ = .error .tooLong := by
    unfold Disk.locate Disk.reach
    split
    · rfl
    · have hwalk : d.tree.walkWith false (d.tree.walk false 39) d.cwd [n] = .error .tooLong := by
        rw [Tree.walkWith, if_neg (by simp [hn.ne_nil, hn.ne_point]), if_neg, if_neg (by simp),
          if_pos hlong]
        rintro rfl
        exact hpoint rfl
      exact hwalk
  have hfile : d.isFile ⟨0, [n]⟩ = .error (.access .tooLong n) := by
    rw [Disk.isFile, Disk.file?, Disk.hasZero, htext, decide_eq_false hz, hlocate]
    rfl
  rw [resolve, route?, hcandidates, firstFile, hfile]

end Locator

def longName : Text := List.replicate 256 'a'

def longLine : Text := "//&include <".toList ++ longName ++ ['>']

def longNamed : Disk := ⟨⟨[(["m".toList], .file (Codec.Utf8.encode longLine))]⟩, []⟩

theorem read_longNamed (b : List UInt8) :
    Disk.read ⟨⟨[(["m".toList], .file b)]⟩, []⟩ (.ofText ['/', 'm']) = .ok b := rfl

theorem resolve_longNamed (b : List UInt8) :
    Locator.default.resolve ⟨⟨[(["m".toList], .file b)]⟩, []⟩ (.ofSeed ['m']) =
      .ok (some ['/', 'm']) := by
  cbv

theorem search_longNamed_fails :
    longNamed.WellFormed ∧
      Locator.default.resolve longNamed (.searched longName) =
        .error (.access .tooLong longName) ∧
      ((Locator.default.search longNamed .default).run (.ofSeed ['m'])).result =
        .error (.access .tooLong longName) := by
  have hwf : longNamed.WellFormed := ⟨by decide +kernel, rfl⟩
  have hlong : Locator.default.resolve longNamed (.searched longName) =
      .error (.access .tooLong longName) :=
    Locator.resolve_tooLong longNamed
      ⟨by decide +kernel, by decide +kernel, by decide +kernel⟩ (by decide +kernel)
      (by decide +kernel) (by decide +kernel)
  have hseed : Locator.default.resolve longNamed (.ofSeed ['m']) = .ok (some ['/', 'm']) :=
    resolve_longNamed (Codec.Utf8.encode longLine)
  have hread : Locator.default.contents longNamed ['/', 'm'] = .ok (.text longLine) := by
    rw [Locator.contents, longNamed, read_longNamed]
    exact Locator.decode_utf8 longLine
  have hscan : scan Marker.default.read (some ['/', 'm']) (Text.lines longLine) =
      .ok [(0, ⟨.searched, longName⟩)] := by decide +kernel
  exact ⟨hwf, hlong, Locator.run_of_resolve_error hseed hread hscan hlong⟩

end Splice
