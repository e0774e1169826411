import Splice.Proofs.Expansion
import Splice.Proofs.NormalPath
import Splice.Proofs.Renaming

set_option autoImplicit false

namespace Splice.Bundle

variable {b b' : Bundle} {m : Marker} {i j u : Identity} {name : Text} {r : Reference}

theorem mem_names_iff : i ∈ b.names ↔ ∃ t, b.content? i = some t :=
  ⟨Keyed.exists_get?_of_mem, fun ⟨_, ht⟩ => Keyed.mem_keys_of_get? ht⟩

theorem resolve_eq_some : b.resolve r = some u ↔ b.target r = u ∧ u ∈ b.names := by
  unfold resolve
  constructor
  · intro h
    split at h
    · cases h
      exact ⟨rfl, by assumption⟩
    · cases h
  · rintro ⟨rfl, hu⟩
    exact if_pos hu

theorem canonical_of_resolve (h : b.resolve r = some u) : Path.canonical u = u := by
  obtain ⟨rfl, -⟩ := resolve_eq_some.1 h
  cases r <;> exact Path.canonical_canonical _

theorem canonical_of_reachable (hi : Path.canonical i = i) (h : b.Reachable m i j) :
    Path.canonical j = j := by
  induction h with
  | refl => exact hi
  | tail _ hl _ =>
    obtain ⟨n, l, d, -, -, hu⟩ := hl
    exact canonical_of_resolve hu

theorem target_relative (hc : Path.canonical i = i) (hi : i ∈ b.names) (name : Text) :
    b.target (.relative name i) = Path.canonical (Path.join (Path.directory i) name) := by
  have hb : b.base i = Path.directory i := by
    simp only [base, hc, if_pos hi]
  rw [target, hb]

theorem target_ofSeed (b : Bundle) (h : name.head? ≠ some '\\') :
    b.target (.ofSeed name) = Path.canonical name := by
  have hp : Path.canonical "./".toList = ['.'] := by decide
  have hd : Path.directory ['.'] = [] := by decide
  rw [Reference.ofSeed, target]
  by_cases hs : name.head? = some '/'
  · rw [Path.join, if_pos hs]
  simp only [base, hp]
  split
  · rw [hd, Path.join, if_neg hs, if_pos (.inl rfl), List.nil_append]
  · have hj : Path.join ['.'] name = '.' :: '/' :: name := by
      rw [Path.join, if_neg hs, if_neg (by decide)]
      rfl
    rw [hj]
    exact Path.normal_point (mt (Path.head?_slashed h).1 hs)

/-- References that ask for the same name in every bundle. -/
def IsSeed (r : Reference) : Prop :=
  (∃ name, r = .searched name) ∨ ∃ name, r = .ofSeed name ∧ name.head? ≠ some '\\'

theorem target_of_isSeed (h : IsSeed r) : b.target r = b'.target r := by
  rcases h with ⟨name, rfl⟩ | ⟨name, rfl, hn⟩
  · rfl
  · rw [target_ofSeed b hn, target_ofSeed b' hn]

theorem target_reference (d : Include) (hc : Path.canonical i = i) (hi : i ∈ b.names)
    (hi' : i ∈ b'.names) : b.target (d.reference i) = b'.target (d.reference i) := by
  obtain ⟨kind, name⟩ := d
  cases kind with
  | searched => rfl
  | relative => exact (target_relative hc hi name).trans (target_relative hc hi' name).symm

section Built

variable {seed : Reference} {built : Built}

theorem mem_names_of_mem_keys (h : ((b.search m).run seed).result = .ok built)
    (hj : j ∈ built.graph.keys) : j ∈ b.names := by
  obtain ⟨r, -, hr⟩ := exists_isRecord h hj
  exact mem_names_iff.2 ⟨_, hr.content⟩

theorem canonical_of_mem_keys (h : ((b.search m).run seed).result = .ok built)
    (hj : j ∈ built.graph.keys) : Path.canonical j = j := by
  obtain ⟨hr, -, -⟩ := Search.run_ok h
  exact canonical_of_reachable (canonical_of_resolve (resolve_eq_ok.1 hr)) ((mem_keys_iff h).1 hj)

theorem renamed_refl {α : Type} (x : Except Failure α) :
    renamed (.refl Identity) id x = x := by
  cases x with
  | ok a => rfl
  | error e =>
    cases e with
    | notFound r => cases r <;> rfl
    | malformed line detail identity => cases identity <;> rfl
    | _ => rfl

theorem mirrors_of_agree (h : ((b.search m).run seed).result = .ok built)
    (hc : ∀ j ∈ built.graph.keys, b'.content? j = b.content? j) :
    (b.search m).Mirrors (b'.search m) (.refl Identity) (· ∈ built.graph.keys) where
  read := by
    intro i hi
    refine ⟨(b.content? i).getD [], rfl, ?_⟩
    rw [← hc i hi]
    rfl
  scan := by
    intro i ls _
    exact (renamed_refl _).symm
  resolve := by
    intro i t ds n d hi ho hd
    obtain ⟨t', ds', ho', hall, -⟩ := settled_of_mem_keys h hi
    cases ho.1.symm.trans ho'.1
    cases ho.2.symm.trans ho'.2
    obtain ⟨u, hu, hr⟩ := hall (n, d) hd
    have hnames : ∀ j ∈ built.graph.keys, j ∈ b'.names := by
      intro j hj
      rw [mem_names_iff, hc j hj]
      exact mem_names_iff.1 (mem_names_of_mem_keys h hj)
    obtain ⟨ht, -⟩ := resolve_eq_some.1 (resolve_eq_ok.1 hr)
    rw [target_reference d (canonical_of_mem_keys h hi) (mem_names_of_mem_keys h hi)
      (hnames i hi)] at ht
    refine ⟨some u, hr, resolve_eq_ok.2 (resolve_eq_some.2 ⟨ht, hnames u hu⟩), ?_⟩
    rintro v ⟨⟩
    exact hu

/-- The files of a built graph are all that it depends on. A bundle that stores the same contents
for them, with any other files added, removed or changed, builds the same graph from the same seed,
and assembles the same text. -/
theorem run_eq_of_agree_on_keys (hs : IsSeed seed)
    (h : ((b.search m).run seed).result = .ok built)
    (hc : ∀ j ∈ built.graph.keys, b'.content? j = b.content? j) :
    ((b'.search m).run seed).result = .ok built ∧
      ∃ t, (((b.search m).run seed).result >>= fun x => x.graph.assemble) = .ok t ∧
        (((b'.search m).run seed).result >>= fun x => x.graph.assemble) = .ok t := by
  obtain ⟨hr, -, -⟩ := Search.run_ok h
  obtain ⟨rest, hk⟩ := keys_eq_cons h
  have hi : built.seed ∈ built.graph.keys := hk ▸ List.mem_cons_self
  have hr' : (b'.search m).source.resolve seed = .ok (some built.seed) := by
    obtain ⟨ht, hn⟩ := resolve_eq_some.1 (resolve_eq_ok.1 hr)
    rw [resolve_eq_ok, resolve_eq_some, ← target_of_isSeed (b := b) hs, mem_names_iff, hc _ hi]
    exact ⟨ht, mem_names_iff.1 hn⟩
  have hrun : ((b'.search m).run seed).result = .ok built := by
    have hm := (mirrors_of_agree h hc).run hr hr' hi
    rw [h] at hm
    rw [hm, renamed, Built.rename, Graph.rename_refl]
    rfl
  obtain ⟨x, -, ha⟩ := assemble_roots h
  refine ⟨hrun, Text.unlines x.lines, ?_, ?_⟩
  · rw [h]
    exact ha
  · rw [hrun]
    exact ha

end Built

def ringBeside : Bundle := (ring.add ['.'] "//&include <lost>".toList).add "b/a".toList ['z']

theorem run_ring_ofSeed :
    ((ring.search .default).run (.ofSeed ['a'])).result = .ok ⟨['a'], ringGraph⟩ :=
  Search.run_of_steps 6 rfl rfl rfl

theorem run_ringBeside :
    ['.'] ∈ ringBeside.names ∧
      ((ringBeside.search .default).run (.ofSeed ['a'])).result = .ok ⟨['a'], ringGraph⟩ ∧
      ∃ t, (((ring.search .default).run (.ofSeed ['a'])).result >>= fun x => x.graph.assemble) =
          .ok t ∧
        (((ringBeside.search .default).run (.ofSeed ['a'])).result >>= fun x => x.graph.assemble) =
          .ok t :=
  ⟨by decide, run_eq_of_agree_on_keys (.inr ⟨['a'], rfl, by decide⟩) run_ring_ofSeed (by decide)⟩

end Splice.Bundle
