import Splice.Config.Lookup
import Splice.Proofs.Lookups

set_option autoImplicit false

namespace Splice.Config

def fileBelow (path : Route) (names : List Text) : Route := ⟨path.slashes, names ++ [fileName]⟩

/-- The first names of a path lead to a directory that has a configuration file: a regular file,
links followed. -/
def Configured (d : Disk) (path : Route) (names : List Text) : Prop :=
  names <+: path.names ∧ ∃ q, d.Finds (fileBelow path names) q

/-- The search from a directory upwards, in a number of rounds. A directory that is its own parent
is the last one. -/
inductive Climbs (d : Disk) : Route → Nat → Except Failure (Option Route) → Prop
  | found {r : Route} :
    d.isFile (fileBelow r r.names) = .ok true → Climbs d r 1 (.ok (some (fileBelow r r.names)))
  | failed {r : Route} {e : Failure} :
    d.isFile (fileBelow r r.names) = .error e → Climbs d r 1 (.error e)
  | root {r : Route} :
    d.isFile (fileBelow r r.names) = .ok false → r.parent = r → Climbs d r 1 (.ok none)
  | up {r : Route} {rounds : Nat} {x : Except Failure (Option Route)} :
    d.isFile (fileBelow r r.names) = .ok false → r.parent ≠ r → Climbs d r.parent rounds x →
      Climbs d r (rounds + 1) x

def Passed (d : Disk) (path : Route) (names : List Text) : Prop :=
  ∀ more, more <+: path.names → names.length < more.length →
    d.isFile (fileBelow path more) = .ok false

def Answers (d : Disk) (path : Route) : Except Failure (Option Route) → Prop
  | .ok none => ∀ names, names <+: path.names → d.isFile (fileBelow path names) = .ok false
  | .ok (some f) => ∃ names, names <+: path.names ∧ f = fileBelow path names ∧
    d.isFile f = .ok true ∧ Passed d path names
  | .error e => ∃ names, names <+: path.names ∧ d.isFile (fileBelow path names) = .error e ∧
    Passed d path names

variable {d : Disk} {r path start : Route} {names : List Text}
  {x : Except Failure (Option Route)} {rounds : Nat}

theorem prefix_parent_iff :
    names <+: r.names ↔ names = r.names ∨ names <+: r.parent.names := by
  rcases List.eq_nil_or_concat r.names with h | ⟨above, n, h⟩
  · simp [Route.parent, h]
  · rw [Route.parent, h, List.concat_eq_append, List.dropLast_concat, List.prefix_concat_iff]

theorem climbs_nearest (d : Disk) (slashes : Nat) (names : List Text) :
    ∃ rounds ≤ names.length + 1,
      Climbs d ⟨slashes, names.reverse⟩ rounds (nearest d slashes names) := by
  induction names with
  | nil =>
    refine ⟨1, Nat.le_refl 1, ?_⟩
    rw [nearest, nearest.check]
    split
    · exact .found ‹_›
    · exact .root ‹_› rfl
    · exact .failed ‹_›
  | cons n names ih =>
    obtain ⟨rounds, hrounds, ih⟩ := ih
    rw [nearest, nearest.check]
    split
    · rename_i hcheck
      split at hcheck <;> cases hcheck
      have hparent : Route.parent ⟨slashes, (n :: names).reverse⟩ = ⟨slashes, names.reverse⟩ := by
        simp [Route.parent]
      refine ⟨rounds + 1, Nat.succ_le_succ hrounds, .up ‹_› ?_ (hparent ▸ ih)⟩
      rw [hparent]
      simp
    · refine ⟨1, by simp, ?_⟩
      rename_i hcheck
      split
      · exact .found ‹_›
      · rename_i hfile
        exact absurd (by rw [hfile]) hcheck
      · exact .failed ‹_›

theorem Answers.of_parent (hr : d.isFile (fileBelow r r.names) = .ok false)
    (h : Answers d r.parent x) : Answers d r x := by
  have hpassed : ∀ {names}, Passed d r.parent names → Passed d r names := by
    intro names hpassed more hmore hlength
    rcases prefix_parent_iff.1 hmore with rfl | hmore
    · exact hr
    · exact hpassed more hmore hlength
  match x, h with
  | .ok none, h =>
    intro names hnames
    rcases prefix_parent_iff.1 hnames with rfl | hnames
    · exact hr
    · exact h names hnames
  | .ok (some f), ⟨names, hnames, hf, hfile, hrest⟩ =>
    exact ⟨names, prefix_parent_iff.2 (.inr hnames), hf, hfile, hpassed hrest⟩
  | .error e, ⟨names, hnames, hfile, hrest⟩ =>
    exact ⟨names, prefix_parent_iff.2 (.inr hnames), hfile, hpassed hrest⟩

theorem passed_names : Passed d r r.names :=
  fun _ hmore hlength => absurd hmore.length_le (Nat.not_le.2 hlength)

theorem Climbs.answers (h : Climbs d r rounds x) : Answers d r x := by
  induction h with
  | found hfile => exact ⟨_, List.prefix_rfl, rfl, hfile, passed_names⟩
  | failed hfile => exact ⟨_, List.prefix_rfl, hfile, passed_names⟩
  | @root r hfile hroot =>
    -- The root has no names, so there is no other directory.
    intro names hnames
    have hlength : r.names.length - 1 = r.names.length := by
      simpa [Route.parent] using congrArg (fun r => r.names.length) hroot
    have hnil : r.names = [] := List.eq_nil_of_length_eq_zero (by omega)
    rw [hnil, List.prefix_nil] at hnames
    rwa [hnames, ← hnil]
  | up hfile _ _ ih => exact ih.of_parent hfile

theorem climbs_find (hreal : d.real start = .ok path) :
    ∃ rounds ≤ path.names.length + 1, Climbs d path rounds (find d start) := by
  obtain ⟨rounds, hrounds, h⟩ := climbs_nearest d path.slashes path.names.reverse
  rw [List.reverse_reverse] at h
  rw [List.length_reverse] at hrounds
  rw [find, hreal]
  exact ⟨rounds, hrounds, h⟩

theorem length_le_of_passed (hd : d.WellFormed) (h : Passed d path names) {more : List Text}
    (hmore : Configured d path more) : more.length ≤ names.length := by
  by_contra hlength
  have hfile := (Disk.isFile_eq_true_iff hd).2 hmore.2
  cases hfile.symm.trans (h more hmore.1 (by omega))

/-- The search for a configuration ends, after as many rounds as there are directories at the most.
It finds the configuration file of the nearest directory that has one, and it finds none if and only
if no directory has one. The paths that it looks at have to be within the limits of the disk: those
in the nearest directory with a configuration file and in the directories below it. -/
theorem find_nearest (hd : d.WellFormed) (hreal : d.real start = .ok path)
    (hshort : ∀ names, names <+: path.names →
      (∀ more, Configured d path more → more.length ≤ names.length) →
        d.locate (fileBelow path names) ≠ .error .tooLong) :
    (∃ rounds ≤ path.names.length + 1, Climbs d path rounds (find d start)) ∧
    (∃ found, find d start = .ok found) ∧
    (∀ f, find d start = .ok (some f) ↔ ∃ names, f = fileBelow path names ∧
      Configured d path names ∧ ∀ more, Configured d path more → more.length ≤ names.length) ∧
    (find d start = .ok none ↔ ∀ names, ¬Configured d path names) := by
  obtain ⟨rounds, hrounds, hclimbs⟩ := climbs_find hreal
  have hanswers := hclimbs.answers
  refine ⟨⟨rounds, hrounds, hclimbs⟩, ?_⟩
  generalize find d start = x at hanswers ⊢
  match x, hanswers with
  | .ok none, hnone =>
    have hno : ∀ names, ¬Configured d path names := by
      intro names hc
      cases (hnone names hc.1).symm.trans ((Disk.isFile_eq_true_iff hd).2 hc.2)
    refine ⟨⟨none, rfl⟩, fun f => ⟨nofun, ?_⟩, fun _ => hno, fun _ => rfl⟩
    rintro ⟨names, -, hc, -⟩
    exact absurd hc (hno names)
  | .ok (some f), ⟨names, hnames, hf, hfile, hpassed⟩ =>
    have hc : Configured d path names := ⟨hnames, (Disk.isFile_eq_true_iff hd).1 (hf ▸ hfile)⟩
    have hlongest : ∀ more, Configured d path more → more.length ≤ names.length :=
      fun more => length_le_of_passed hd hpassed
    refine ⟨⟨some f, rfl⟩, fun f' => ⟨?_, ?_⟩, nofun, fun hno => absurd hc (hno names)⟩
    · rintro ⟨⟩
      exact ⟨names, hf, hc, hlongest⟩
    · rintro ⟨names', rfl, hc', hlongest'⟩
      have hlength := Nat.le_antisymm (hlongest _ hc') (hlongest' _ hc)
      have hsame : names' = names :=
        (List.prefix_of_prefix_length_le hc'.1 hc.1 hlength.le).eq_of_length hlength
      rw [hsame, hf]
  | .error e, ⟨names, hnames, hfile, hpassed⟩ =>
    obtain ⟨found, hok⟩ := Disk.isFile_of_short
      (hshort names hnames fun more => length_le_of_passed hd hpassed)
    cases hok.symm.trans hfile

def cellar : Disk :=
  ⟨⟨[(["srv".toList], .directory), (["srv".toList, fileName], .link "shared".toList),
    (["srv".toList, "shared".toList], .file []), (["srv".toList, "store".toList], .directory),
    (["srv".toList, "store".toList, fileName], .directory),
    (["srv".toList, "store".toList, "rack".toList], .directory),
    (["srv".toList, "store".toList, "rack".toList, fileName], .link "/none".toList),
    (["srv".toList, "door".toList], .link "store/rack".toList)]⟩, ["srv".toList]⟩

theorem find_cellar :
    cellar.real (.ofText "door/new".toList) =
        .ok ⟨1, ["srv".toList, "store".toList, "rack".toList, "new".toList]⟩ ∧
      find cellar (.ofText "door/new".toList) = .ok (some ⟨1, ["srv".toList, fileName]⟩) := by
  have hd : cellar.WellFormed := ⟨by decide +kernel, by decide +kernel⟩
  have hreal : cellar.real (.ofText "door/new".toList) =
      .ok ⟨1, ["srv".toList, "store".toList, "rack".toList, "new".toList]⟩ := by decide +kernel
  have hshort : ∀ names ∈ ["srv".toList, "store".toList, "rack".toList, "new".toList].inits,
      cellar.locate (fileBelow ⟨1, []⟩ names) ≠ .error .tooLong := by decide +kernel
  have hno : ∀ names ∈ ["srv".toList, "store".toList, "rack".toList, "new".toList].inits,
      1 < names.length → cellar.isFile (fileBelow ⟨1, []⟩ names) ≠ .ok true := by decide +kernel
  obtain ⟨-, -, hsome, -⟩ := find_nearest hd hreal
    fun names hnames _ => hshort names ((List.mem_inits _ _).2 hnames)
  refine ⟨hreal, (hsome _).2 ⟨["srv".toList], rfl, ⟨by decide, ?_⟩, fun more hmore => ?_⟩⟩
  · exact (Disk.isFile_eq_true_iff hd).1 (by decide +kernel)
  · by_contra hlength
    exact hno more ((List.mem_inits _ _).2 hmore.1) (by simpa using hlength)
      ((Disk.isFile_eq_true_iff hd).2 hmore.2)

def shaft : Disk :=
  ⟨⟨[([fileName], .file []), (["d".toList], .directory), (["d".toList, fileName], .link longName)]⟩,
    []⟩

/-- The search fails at the link, though it is no file and there is a configuration above. -/
theorem find_shaft_fails :
    shaft.WellFormed ∧ shaft.real (.ofText "d".toList) = .ok ⟨1, ["d".toList]⟩ ∧
      (∀ q, ¬shaft.Finds (fileBelow ⟨1, ["d".toList]⟩ ["d".toList]) q) ∧
      Configured shaft ⟨1, ["d".toList]⟩ [] ∧
      find shaft (.ofText "d".toList) = .error (.access .tooLong "/d/.preproc.toml".toList) := by
  have hd : shaft.WellFormed := ⟨by decide +kernel, rfl⟩
  refine ⟨hd, by decide +kernel, fun q hq => ?_, ⟨List.nil_prefix, ?_⟩, by decide +kernel⟩
  · have hfile := (Disk.isFile_eq_true_iff hd).2 ⟨q, hq⟩
    revert hfile
    decide +kernel
  · exact (Disk.isFile_eq_true_iff hd).1 (by decide +kernel)

end Splice.Config
