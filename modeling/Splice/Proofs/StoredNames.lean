import Mathlib.Data.List.Induction
import Splice.Bundle
import Splice.Proofs.Dependence

set_option autoImplicit false

namespace Splice.Bundle

variable {b : Bundle} {l : List (Text × Text)} {name content t : Text} {i : Identity}
  {r : Reference}

theorem content?_add :
    (b.add name content).content? i =
      if i = Path.canonical name then some content else b.content? i :=
  Keyed.get?_put i (Path.canonical name) content b.files

theorem mem_names_add : i ∈ (b.add name content).names ↔ i = Path.canonical name ∨ i ∈ b.names :=
  Keyed.mem_keys_put

theorem ofList_concat (l : List (Text × Text)) (p : Text × Text) :
    ofList (l ++ [p]) = (ofList l).add p.1 p.2 := by
  simp [ofList]

theorem mem_names_ofList : i ∈ (ofList l).names ↔ ∃ p ∈ l, Path.canonical p.1 = i := by
  induction l using List.reverseRecOn with
  | nil => simp [ofList, empty, names]
  | append_singleton l p ih =>
    rw [ofList_concat, mem_names_add, ih]
    constructor
    · rintro (rfl | ⟨q, hq, rfl⟩)
      · exact ⟨p, by simp, rfl⟩
      · exact ⟨q, by simp [hq], rfl⟩
    · rintro ⟨q, hq, rfl⟩
      rcases List.mem_append.1 hq with hq | hq
      · exact .inr ⟨q, hq, rfl⟩
      · exact .inl (by rw [List.mem_singleton.1 hq])

theorem canonical_of_mem_names (hi : i ∈ (ofList l).names) : Path.canonical i = i := by
  obtain ⟨p, -, rfl⟩ := mem_names_ofList.1 hi
  exact Path.canonical_canonical p.1

/-- The file was added under this name, and later none under another spelling of the name. -/
def LastAdded (l : List (Text × Text)) (i : Identity) (content : Text) : Prop :=
  ∃ before name after, l = before ++ (name, content) :: after ∧ Path.canonical name = i ∧
    ∀ p ∈ after, Path.canonical p.1 ≠ i

theorem LastAdded.concat {p : Text × Text} (h : LastAdded l i content)
    (hp : Path.canonical p.1 ≠ i) : LastAdded (l ++ [p]) i content := by
  obtain ⟨before, name, after, rfl, hn, ha⟩ := h
  refine ⟨before, name, after ++ [p], by simp, hn, ?_⟩
  intro q hq
  rcases List.mem_append.1 hq with hq | hq
  · exact ha q hq
  · rw [List.mem_singleton.1 hq]
    exact hp

theorem lastAdded_of_content? (h : (ofList l).content? i = some t) : LastAdded l i t := by
  induction l using List.reverseRecOn with
  | nil => cases h
  | append_singleton l p ih =>
    rw [ofList_concat, content?_add] at h
    by_cases hi : i = Path.canonical p.1
    · rw [if_pos hi] at h
      cases h
      exact ⟨l, p.1, [], rfl, hi.symm, by simp⟩
    · rw [if_neg hi] at h
      exact (ih h).concat (Ne.symm hi)

theorem fetch_of_resolve (hr : b.resolve r = some i) (hc : b.content? i = some t) :
    b.source.fetch r = .ok (.file i t) := by
  have hs : b.source.resolve r = .ok (some i) := congrArg Except.ok hr
  have hread : b.source.read i = .ok (.text t) := by
    change Except.ok (Content.text ((b.content? i).getD [])) = _
    rw [hc, Option.getD_some]
  exact Source.fetch_of_text hs hread

theorem resolve_searched : (∃ i, b.resolve (.searched name) = some i) ↔ b.contains name = true := by
  simp only [resolve_eq_some, contains, target, decide_eq_true_eq]
  constructor
  · rintro ⟨i, rfl, hi⟩
    exact hi
  · intro hi
    exact ⟨_, rfl, hi⟩

/-- Whatever files were added in whatever order: every stored name is its own normal form; what a
reference leads to is stored, leads to itself, and is fetched with the content that was last added
under any spelling of it; and a bundle contains the names that it can find, which are those with the
normal form of a name under which a file was added. -/
theorem ofList_canonical (l : List (Text × Text)) :
    (∀ i ∈ (ofList l).names, Path.canonical i = i) ∧
      (∀ r i, (ofList l).resolve r = some i →
        i ∈ (ofList l).names ∧ (ofList l).resolve (.searched i) = some i ∧
          ∃ content, LastAdded l i content ∧ (ofList l).source.fetch r = .ok (.file i content)) ∧
      ∀ name,
        ((ofList l).contains name = true ↔ ∃ i, (ofList l).resolve (.searched name) = some i) ∧
        ((ofList l).contains name = true ↔ ∃ p ∈ l, Path.canonical p.1 = Path.canonical name) := by
  refine ⟨fun i hi => canonical_of_mem_names hi, fun r i hr => ?_, fun name => ⟨?_, ?_⟩⟩
  · have hi : i ∈ (ofList l).names := mem_of_resolve hr
    obtain ⟨content, hc⟩ := mem_names_iff.1 hi
    refine ⟨hi, ?_, content, lastAdded_of_content? hc, fetch_of_resolve hr hc⟩
    exact resolve_eq_some.2 ⟨canonical_of_mem_names hi, hi⟩
  · exact resolve_searched.symm
  · rw [contains, decide_eq_true_eq, mem_names_ofList]

end Splice.Bundle
