import Splice.Proofs.Dependence

set_option autoImplicit false

namespace Splice

def Reference.slashed : Reference → Reference
  | .searched name => .searched (Path.slashed name)
  | .relative name parent => .relative (Path.slashed name) (Path.slashed parent)

namespace Bundle

variable {b : Bundle} {r r' : Reference} {d f n parent : Text}

theorem resolve_congr (h : b.target r = b.target r') : b.resolve r = b.resolve r' := by
  rw [resolve, resolve, h]

theorem base_of_contains (h : b.contains parent = true) :
    b.base parent = Path.directory (Path.canonical parent) :=
  if_pos (of_decide_eq_true h)

theorem base_of_not_contains (h : b.contains parent = false) :
    b.base parent = Path.canonical parent :=
  if_neg (of_decide_eq_false h)

theorem not_mem_base (b : Bundle) (parent : Text) : '\\' ∉ b.base parent := by
  have hp := Path.not_mem_canonical parent
  rw [base]
  split
  · exact fun h => hp ((Path.directory_sublist _).subset h)
  · exact hp

theorem target_relative_eq (parent : Text) (hn : n.head? ≠ some '\\') :
    b.target (.relative n parent) = Path.normal (Path.join (b.base parent) (Path.slashed n)) := by
  have hb := b.not_mem_base parent
  rw [target, Path.canonical_join (fun e => hb (List.mem_of_getLast? e)) hn,
    Path.slashed_of_not_mem hb]

/-- From a directory `d` that is no stored file, and from every stored file in it, a relative name
leads where the searched name joined to `d` leads. The two may contain backslashes, but none where
they are joined. -/
theorem resolve_relative_joined (b : Bundle) (hd : d.getLast? ≠ some '\\')
    (hn : n.head? ≠ some '\\') :
    (b.contains d = false →
        b.resolve (.relative n d) = b.resolve (.searched (Path.join d n))) ∧
      ∀ f, Route.IsName f → f ≠ Path.up → '\\' ∉ f → b.contains (Path.join d f) = true →
        b.resolve (.relative n (Path.join d f)) = b.resolve (.searched (Path.join d n)) := by
  have hjoined : b.target (.searched (Path.join d n)) =
      Path.normal (Path.join (Path.slashed d) (Path.slashed n)) := Path.canonical_join hd hn
  constructor
  · intro hdir
    apply resolve_congr
    rw [hjoined, target_relative_eq d hn, base_of_not_contains hdir, Path.canonical_eq,
      Path.normal_join_normal]
  · intro f hf hup hback hfile
    apply resolve_congr
    have hplace : Path.canonical (Path.join d f) = Path.normal (Path.join (Path.slashed d) f) := by
      rw [Path.canonical_join hd fun e => hback (List.mem_of_mem_head? e),
        Path.slashed_of_not_mem hback]
    rw [hjoined, target_relative_eq _ hn, base_of_contains hfile, hplace,
      Path.normal_join_congr (Path.ofText_directory_join hf hup), Path.normal_join_normal]

def drawer : Bundle :=
  ofList [("//f".toList, []), ("//y".toList, []), ("/x".toList, []), ("d/x".toList, []),
    ("d/main".toList, [])]

theorem resolve_drawer_joined :
    drawer.contains "//x/../".toList = false ∧ drawer.contains "//x/../f".toList = true ∧
      drawer.resolve (.relative "../y".toList "//x/../".toList) = some "//y".toList ∧
      drawer.resolve (.relative "../y".toList "//x/../f".toList) = some "//y".toList := by
  obtain ⟨hdir, hfile⟩ := resolve_relative_joined drawer (d := "//x/../".toList)
    (n := "../y".toList) (by decide) (by decide)
  have hjoined : drawer.resolve (.searched (Path.join "//x/../".toList "../y".toList)) =
      some "//y".toList := by decide
  have hf : drawer.contains "//x/../f".toList = true := by decide
  refine ⟨by decide, hf, ?_, ?_⟩
  · rw [hdir (by decide), hjoined]
  · exact (hfile ['f'] ⟨by decide, by decide, by decide⟩ (by decide) (by decide) hf).trans hjoined

theorem base_slashed (b : Bundle) (parent : Text) :
    b.base (Path.slashed parent) = b.base parent := by
  rw [base, base, Path.canonical_slashed]

theorem target_relative_slashed (h : n.head? = some '\\' → b.base parent = []) :
    b.target (.relative (Path.slashed n) (Path.slashed parent)) =
      b.target (.relative n parent) := by
  by_cases hn : n.head? = some '\\'
  · rw [target, target, base_slashed, h hn, Path.join_nil, Path.join_nil, Path.canonical_slashed]
  · have hslashed := Path.not_mem_slashed n
    rw [target_relative_eq _ hn, target_relative_eq _ fun e => hslashed (List.mem_of_mem_head? e),
      base_slashed, Path.slashed_of_not_mem hslashed]

/-- Backslashes are slashes in the names under which files are added, looked up and searched, in the
parents of relative names, and in relative names, unless one stands at the front of a name that does
not start from the top. -/
theorem slashed_same (b : Bundle) :
    (∀ r : Reference,
        (∀ n parent, r = .relative n parent → n.head? = some '\\' → b.base parent = []) →
        b.resolve r.slashed = b.resolve r) ∧
      (∀ name content, b.add (Path.slashed name) content = b.add name content) ∧
      ∀ name, b.contains (Path.slashed name) = b.contains name := by
  refine ⟨fun r hr => resolve_congr ?_, fun name content => ?_, fun name => ?_⟩
  · cases r with
    | searched name => exact Path.canonical_slashed name
    | relative n parent => exact target_relative_slashed (hr n parent rfl)
  · rw [add, add, Path.canonical_slashed]
  · rw [contains, contains, Path.canonical_slashed]

theorem resolve_drawer_slashed :
    drawer.resolve (.relative "..\\d\\/x".toList "d\\main".toList) =
      some "d/x".toList := by
  have hsame := (slashed_same drawer).1 (.relative "..\\d\\/x".toList "d\\main".toList)
    fun n parent hr hn => by cases hr; exact absurd hn (by decide)
  rw [← hsame]
  decide

theorem resolve_drawer_backslash :
    drawer.resolve (.relative "\\x".toList "d/main".toList) = some "d/x".toList ∧
      drawer.resolve (Reference.slashed (.relative "\\x".toList "d/main".toList)) =
        some "/x".toList := by
  decide

end Bundle
end Splice
