import Mathlib.Data.List.Nodup
import Mathlib.Logic.Embedding.Basic
import Splice.Proofs.Reach
import Splice.Proofs.Splicing

/-!
Files under other identities. Where a second search finds under new identities the same texts, and
follows their directives to the same files, it builds the same graph with every identity renamed, or
fails at the same place; and a renamed graph assembles to the same text. Only the files that are met
have to agree.
-/

set_option autoImplicit false

namespace Splice

namespace Keyed

universe u v w x
variable {κ : Type u} {ι : Type v} {α : Type w} {β : Type x} [DecidableEq κ] [DecidableEq ι]

omit [DecidableEq κ] [DecidableEq ι] in
theorem keys_map (ρ : κ ↪ ι) (f : α → β) (l : List (κ × α)) :
    keys (l.map (Prod.map ρ f)) = (keys l).map ρ := by
  simp [keys]

theorem get?_map (ρ : κ ↪ ι) (f : α → β) (k : κ) (l : List (κ × α)) :
    get? (ρ k) (l.map (Prod.map ρ f)) = (get? k l).map f := by
  induction l with
  | nil => rfl
  | cons p l ih =>
    by_cases h : p.1 = k
    · simp [get?, h]
    · simp [get?, h, ih]

theorem put_map (ρ : κ ↪ ι) (f : α → β) (k : κ) (a : α) (l : List (κ × α)) :
    put (ρ k) (f a) (l.map (Prod.map ρ f)) = (put k a l).map (Prod.map ρ f) := by
  induction l with
  | nil => rfl
  | cons p l ih =>
    by_cases h : p.1 = k
    · simp [put, h]
    · obtain ⟨j, b⟩ := p
      simp only [put, List.map_cons, Prod.map_apply, ρ.injective.eq_iff, h, if_false, ih]

end Keyed

def Point.rename (ρ : Identity ↪ Identity) (p : Point) : Point := ⟨p.line, ρ p.target⟩

def Record.rename (ρ : Identity ↪ Identity) (r : Record) : Record :=
  ⟨r.text, r.points.map (.rename ρ)⟩

def Reference.rename (ρ : Identity ↪ Identity) : Reference → Reference
  | .searched name => .searched name
  | .relative name parent => .relative name (ρ parent)

def Failure.rename (ρ : Identity ↪ Identity) : Failure → Failure
  | .notFound r => .notFound (r.rename ρ)
  | .malformed line detail identity => .malformed line detail (identity.map ρ)
  | .noRecord i => .noRecord (ρ i)
  | e => e

def renamed {α β : Type} (ρ : Identity ↪ Identity) (f : α → β) :
    Except Failure α → Except Failure β
  | .error e => .error (e.rename ρ)
  | .ok a => .ok (f a)

def Graph.rename (ρ : Identity ↪ Identity) (g : Graph) : Graph where
  records := g.records.map (Prod.map ρ (Record.rename ρ))
  distinct := by
    rw [Keyed.keys_map]
    exact List.Nodup.map ρ.injective g.distinct

def Built.rename (ρ : Identity ↪ Identity) (built : Built) : Built :=
  ⟨ρ built.seed, built.graph.rename ρ⟩

def Emitted.rename (ρ : Identity ↪ Identity) (x : Emitted) : Emitted :=
  ⟨x.visited.map ρ, x.lines⟩

variable {ρ : Identity ↪ Identity} {g : Graph} {i u : Identity}

theorem Include.rename_reference (d : Include) (i : Identity) :
    (d.reference i).rename ρ = d.reference (ρ i) := by
  rcases d with ⟨_ | _, name⟩ <;> rfl

theorem map_target_rename (points : List Point) :
    (points.map (Point.rename ρ)).map Point.target = (points.map Point.target).map ρ := by
  simp [Point.rename]

namespace Graph

theorem keys_rename : (g.rename ρ).keys = g.keys.map ρ := Keyed.keys_map ρ _ g.records

theorem get?_rename : (g.rename ρ).get? (ρ i) = (g.get? i).map (.rename ρ) :=
  Keyed.get?_map ρ _ i g.records

theorem mem_keys_rename : ρ i ∈ (g.rename ρ).keys ↔ i ∈ g.keys := by
  rw [keys_rename]
  exact List.mem_map_of_injective ρ.injective

theorem rename_put (r : Record) : (g.put i r).rename ρ = (g.rename ρ).put (ρ i) (r.rename ρ) := by
  simp only [rename, put, Keyed.put_map]

theorem targets_rename : (g.rename ρ).targets = g.targets.map ρ := by
  simp [targets, edges, rename, Record.rename, Record.targets, List.map_flatMap,
    List.flatMap_map, Point.rename, Function.comp_def]

theorem roots_rename : (g.rename ρ).roots = g.roots.map ρ := by
  have hf : (g.keys.map ρ).filter (· ∉ g.targets.map ρ) =
      (g.keys.filter (· ∉ g.targets)).map ρ := by
    rw [List.filter_map]
    congr 1
    refine List.filter_congr fun i _ => ?_
    simp only [Function.comp_apply, List.mem_map_of_injective ρ.injective]
  simp only [roots, keys_rename, targets_rename, hf]
  cases g.keys.filter (· ∉ g.targets) with
  | nil => simp
  | cons i is => rfl

theorem rename_refl (g : Graph) : g.rename (.refl Identity) = g := by
  have hp : Point.rename (.refl Identity) = id := rfl
  have hr : Record.rename (.refl Identity) = id := by
    funext r
    simp [Record.rename, hp]
  obtain ⟨records, distinct⟩ := g
  have hm : Prod.map (Function.Embedding.refl Identity) (id : Record → Record) = id := rfl
  simp [rename, hr, hm]

end Graph

namespace Search

/-- The second search finds under new identities what the first finds, for the files of a set that
directives do not leave. -/
structure Mirrors (s s' : Search) (ρ : Identity ↪ Identity) (D : Identity → Prop) : Prop where
  read : ∀ {i}, D i → ∃ t, s.source.read i = .ok (.text t) ∧ s'.source.read (ρ i) = .ok (.text t)
  scan : ∀ {i} ls, D i → s'.scan (ρ i) ls = renamed ρ id (s.scan i ls)
  resolve : ∀ {i t ds n d}, D i → s.Opens i t ds → (n, d) ∈ ds →
    ∃ target : Option Identity, s.source.resolve (d.reference i) = .ok target ∧
      s'.source.resolve (d.reference (ρ i)) = .ok (target.map ρ) ∧ ∀ u ∈ target, D u

variable {s s' : Search} {D : Identity → Prop} {t : Text} {points : List Point} {n : Nat}
  {d : Include} {ds : List (Nat × Include)} {r : Reference} {e : Failure}

theorem withPoint_rename :
    (withPoint points n u).map (Point.rename ρ) = withPoint (points.map (.rename ρ)) n (ρ u) := by
  simp only [withPoint, map_target_rename, List.mem_map_of_injective ρ.injective]
  split
  · rfl
  · simp [Point.rename]

namespace Mirrors

variable (h : s.Mirrors s' ρ D)

include h

theorem opens (hi : D i) (ho : s.Opens i t ds) : s'.Opens (ρ i) t ds := by
  obtain ⟨t', hr, hr'⟩ := h.read hi
  cases ho.1.symm.trans hr
  refine ⟨hr', ?_⟩
  rw [h.scan _ hi, ho.2]
  rfl

theorem shut (hi : D i) (hs : s.Shut r i e) (r' : Reference) : s'.Shut r' (ρ i) (e.rename ρ) := by
  obtain ⟨t, hr, hr'⟩ := h.read hi
  cases hs with
  | read hs => cases hr.symm.trans hs
  | unreadable hs => cases hr.symm.trans hs
  | scan ht hs =>
    cases ht.symm.trans hr
    refine .scan hr' ?_
    rw [h.scan _ hi, hs]
    rfl

theorem lost (hi : D i) (ho : s.Opens i t ds) (hd : (n, d) ∈ ds) (hl : s.Lost (d.reference i) e) :
    s'.Lost (d.reference (ρ i)) (e.rename ρ) := by
  obtain ⟨target, hr, hr', -⟩ := h.resolve hi ho hd
  cases hl with
  | failed hl => cases hr.symm.trans hl
  | missing hl =>
    cases hr.symm.trans hl
    rw [Failure.rename, Include.rename_reference]
    exact .missing hr'

theorem follows (hi : D i) (ho : s.Opens i t ds) (hd : (n, d) ∈ ds)
    (hu : s.source.resolve (d.reference i) = .ok (some u)) :
    D u ∧ s'.source.resolve (d.reference (ρ i)) = .ok (some (ρ u)) := by
  obtain ⟨target, hr, hr', hD⟩ := h.resolve hi ho hd
  cases hr.symm.trans hu
  exact ⟨hD u rfl, hr'⟩

theorem visit :
    (∀ g r i x, s.visit g r i = some x → D i → ∀ r',
      s'.visit (g.rename ρ) r' (ρ i) = some (renamed ρ (.rename ρ) x)) ∧
    ∀ i g points ds x, s.visitAll i g points ds = some x →
      D i → ∀ t ds₀, s.Opens i t ds₀ → (∀ p ∈ ds, p ∈ ds₀) →
      s'.visitAll (ρ i) (g.rename ρ) (points.map (.rename ρ)) ds =
        some (renamed ρ (fun p => (p.1.rename ρ, p.2.map (.rename ρ))) x) := by
  apply visit_induct s
  case known =>
    intro g r i hi _ r'
    exact visit_of_mem (Graph.mem_keys_rename.2 hi)
  case shut =>
    intro g r i e hi hs hD r'
    exact visit_of_shut (mt Graph.mem_keys_rename.1 hi) (h.shut hD hs r')
  case opened =>
    intro g r i t ds x hi ho _ hq hD r'
    have hv := hq hD t ds ho fun _ hp => hp
    rw [Graph.rename_put] at hv
    rw [visit_of_opens (mt Graph.mem_keys_rename.1 hi) (h.opens hD ho)]
    replace hv : s'.visitAll (ρ i) ((g.rename ρ).put (ρ i) .placeholder) [] ds = _ := hv
    rw [hv]
    cases x with
    | error e => rfl
    | ok p => simp [Except.map, renamed, Graph.rename_put, Record.rename]
  case nil =>
    intro i g points _ t ds₀ _ _
    rw [visitAll]
    rfl
  case lost =>
    intro i g points n d ds e hl hD t ds₀ ho hds
    exact visitAll_of_lost (h.lost hD ho (hds _ List.mem_cons_self) hl)
  case failed =>
    intro i g points n d ds u e hr hp hD t ds₀ ho hds
    obtain ⟨hu, hr'⟩ := h.follows hD ho (hds _ List.mem_cons_self) hr
    rw [visitAll_of_resolve hr', hp hu]
    rfl
  case next =>
    intro i g points n d ds u g' x hr _ hp hq hD t ds₀ ho hds
    obtain ⟨hu, hr'⟩ := h.follows hD ho (hds _ List.mem_cons_self) hr
    rw [visitAll_of_resolve hr', hp hu]
    have hrest := hq hD t ds₀ ho fun p hp => hds p (List.mem_cons_of_mem _ hp)
    rw [withPoint_rename] at hrest
    exact hrest

/-- From a seed that resolves to a file of the set, a search builds the graph of the other with
other identities, or fails as it fails. -/
theorem run {seed seed' : Reference} (hs : s.source.resolve seed = .ok (some i))
    (hs' : s'.source.resolve seed' = .ok (some (ρ i))) (hi : D i) :
    (s'.run seed').result = renamed ρ (.rename ρ) (s.run seed).result := by
  have hv := visitFrom_eq s seed
  have hv' := visitFrom_eq s' seed'
  simp only [visitFrom, hs, hs', Option.bind_eq_bind, Option.bind_eq_some_iff] at hv hv'
  obtain ⟨x, hx, hv⟩ := hv
  obtain ⟨x', hx', hv'⟩ := hv'
  have hr : s'.visit .empty seed' (ρ i) = _ := h.visit.1 .empty seed i x hx hi seed'
  cases hx'.symm.trans hr
  cases x with
  | error e =>
    rw [← Option.some.inj hv, ← Option.some.inj hv']
    rfl
  | ok g =>
    rw [← Option.some.inj hv, ← Option.some.inj hv']
    rfl

end Mirrors
end Search

namespace Graph

theorem splice_rename (ρ : Identity ↪ Identity) (g : Graph) :
    (∀ visited i x, g.splice visited i = some x →
      (g.rename ρ).splice (visited.map ρ) (ρ i) =
        some (renamed ρ (.rename ρ) x)) ∧
    ∀ lines position visited points x,
      g.splicePoints lines position visited points = some x →
      (g.rename ρ).splicePoints lines position (visited.map ρ) (points.map (.rename ρ)) =
        some (renamed ρ (.rename ρ) x) := by
  have hmem : ∀ {i : Identity} {visited : List Identity}, ρ i ∈ visited.map ρ ↔ i ∈ visited :=
    List.mem_map_of_injective ρ.injective
  apply splice_induct g
  case skipped =>
    intro visited i hi
    exact splice_of_mem (hmem.2 hi)
  case absent =>
    intro visited i hi hr
    exact splice_of_absent (mt hmem.1 hi) (by rw [get?_rename, hr]; rfl)
  case entered =>
    intro visited i r x hi hr hq
    rw [splice_of_get? (mt hmem.1 hi) (r := r.rename ρ) (by rw [get?_rename, hr]; rfl)]
    exact hq
  case nil =>
    intro lines position visited
    exact splicePoints_nil
  case failed =>
    intro lines position visited p points e hp
    rw [List.map_cons, splicePoints_cons]
    replace hp : (g.rename ρ).splice (visited.map ρ) (p.rename ρ).target = _ := hp
    rw [hp]
    rfl
  case next =>
    intro lines position visited p points x y hp hq
    rw [List.map_cons, splicePoints_cons]
    replace hp : (g.rename ρ).splice (visited.map ρ) (p.rename ρ).target = _ := hp
    replace hq : (g.rename ρ).splicePoints lines ((p.rename ρ).line + 1) (x.rename ρ).visited
        (points.map (.rename ρ)) = _ := hq
    rw [hp]
    simp only [renamed, Option.bind_some, hq]
    cases y <;> rfl

theorem spliceAll_rename {visited roots : List Identity} {x : Except Failure Emitted}
    (h : g.spliceAll visited roots = some x) :
    (g.rename ρ).spliceAll (visited.map ρ) (roots.map ρ) =
      some (renamed ρ (.rename ρ) x) := by
  refine spliceAll_induct g (R := fun visited roots x =>
    (g.rename ρ).spliceAll (visited.map ρ) (roots.map ρ) = some (renamed ρ (.rename ρ) x))
    ?_ ?_ ?_ h
  · intro visited
    rfl
  · intro visited i is e hx
    simp only [List.map_cons, spliceAll, (splice_rename ρ g).1 _ _ _ hx]
    rfl
  · intro visited i is y z hy hz
    have hr : (g.rename ρ).spliceAll (y.rename ρ).visited (is.map ρ) = _ := hz
    simp only [List.map_cons, spliceAll, (splice_rename ρ g).1 _ _ _ hy, renamed,
      Option.bind_eq_bind, Option.bind_some, hr]
    cases z <;> rfl

theorem assemble_rename (ρ : Identity ↪ Identity) (g : Graph) :
    (g.rename ρ).assemble = renamed ρ id g.assemble := by
  by_cases hk : g.keys = []
  · have hk' : (g.rename ρ).keys = [] := by rw [keys_rename, hk]; rfl
    simp only [assemble, assembleFrom, emitted, if_pos hk, if_pos hk']
    rfl
  · have hk' : (g.rename ρ).keys ≠ [] := by rw [keys_rename]; simpa using hk
    obtain ⟨x, hx, -⟩ := Assembly.emitAll_eq g [] [] g.roots
    have hx' : (g.rename ρ).spliceAll [] (g.rename ρ).roots =
        some (renamed ρ (.rename ρ) x) := by
      rw [roots_rename]
      exact spliceAll_rename hx
    rw [assemble, assemble, assembleFrom, assembleFrom, emitted_of_spliceAll hk hx,
      emitted_of_spliceAll hk' hx']
    cases x <;> rfl

end Graph
end Splice
