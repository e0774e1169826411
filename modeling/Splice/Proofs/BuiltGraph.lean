import Mathlib.Data.Nat.Find
import Splice.Proofs.Reach
import Splice.Proofs.Scan

set_option autoImplicit false

namespace Splice

open Relation (ReflTransGen)

namespace Bundle

def linesOf (b : Bundle) (i : Identity) : List Text := Text.lines ((b.content? i).getD [])

def IncludesAt (b : Bundle) (m : Marker) (i : Identity) (n : Nat) (u : Identity) : Prop :=
  ∃ l d, (b.linesOf i)[n]? = some l ∧ m.read l = .inclusion d ∧ b.resolve (d.reference i) = some u

def Includes (b : Bundle) (m : Marker) (i u : Identity) : Prop := ∃ n, b.IncludesAt m i n u

/-- The file itself, or a file that some include line of a reachable file resolves to. -/
def Reachable (b : Bundle) (m : Marker) : Identity → Identity → Prop :=
  ReflTransGen (b.Includes m)

/-- No line of the file is malformed, and all its include lines resolve. -/
structure Sound (b : Bundle) (m : Marker) (i : Identity) : Prop where
  wellFormed : ∀ l ∈ b.linesOf i, ∀ message, m.read l ≠ .malformed message
  resolved : ∀ l ∈ b.linesOf i, ∀ d, m.read l = .inclusion d →
    ∃ u, b.resolve (d.reference i) = some u

/-- The record that a file has by itself: its text, and in ascending order the lines that are the
first to include their target. -/
structure IsRecord (b : Bundle) (m : Marker) (i : Identity) (r : Record) : Prop where
  content : b.content? i = some r.text
  ascending : r.points.Pairwise fun p q => p.line < q.line
  mem_points : ∀ p, p ∈ r.points ↔
    ∃ n : Nat, p.line = n ∧ b.IncludesAt m i n p.target ∧ ∀ k < n, ¬b.IncludesAt m i k p.target

variable {b : Bundle} {m : Marker} {i j u : Identity} {n : Nat} {t : Text}
  {ds : List (Nat × Include)} {g : Graph}

theorem opens_iff :
    (b.search m).Opens i t ds ↔
      (b.content? i).getD [] = t ∧ (∀ l ∈ b.linesOf i, ∀ message, m.read l ≠ .malformed message) ∧
        directives m.read 0 (b.linesOf i) = ds := by
  have hr : (b.search m).source.read i = .ok (.text ((b.content? i).getD [])) := rfl
  have hs : (b.search m).scan i = scanFrom m.read (some i) 0 := rfl
  rw [Search.Opens, hr, hs, ← firstMalformed_eq_none (k := 0)]
  constructor
  · rintro ⟨ht, hd⟩
    cases ht
    rw [scanFrom_eq] at hd
    refine ⟨rfl, ?_⟩
    cases hf : firstMalformed m.read 0 (b.linesOf i) with
    | none =>
      rw [linesOf] at hf
      rw [hf] at hd
      exact ⟨rfl, Except.ok.inj hd⟩
    | some p =>
      rw [linesOf] at hf
      rw [hf] at hd
      cases hd
  · rintro ⟨rfl, hf, rfl⟩
    refine ⟨rfl, ?_⟩
    rw [linesOf] at hf ⊢
    rw [scanFrom_eq, hf]

theorem includesAt_iff :
    b.IncludesAt m i n u ↔
      ∃ d, (n, d) ∈ directives m.read 0 (b.linesOf i) ∧ b.resolve (d.reference i) = some u := by
  simp only [mem_directives, IncludesAt]
  constructor
  · rintro ⟨l, d, hl, hd, hu⟩
    exact ⟨d, ⟨l, hl, hd⟩, hu⟩
  · rintro ⟨d, ⟨l, hl, hd⟩, hu⟩
    exact ⟨l, d, hl, hd, hu⟩

theorem resolve_eq_ok {r : Reference} :
    (b.search m).source.resolve r = .ok (some u) ↔ b.resolve r = some u :=
  ⟨fun h => Except.ok.inj h, fun h => congrArg Except.ok h⟩

theorem includes_of_leads (h : (b.search m).Leads i u) : b.Includes m i u := by
  obtain ⟨t, ds, n, d, ho, hd, hu⟩ := h
  obtain ⟨-, -, rfl⟩ := opens_iff.1 ho
  exact ⟨n, includesAt_iff.2 ⟨d, hd, resolve_eq_ok.1 hu⟩⟩

theorem reachable_of_leads (h : ReflTransGen (b.search m).Leads i j) : b.Reachable m i j := by
  induction h with
  | refl => exact .refl
  | tail _ hu ih => exact .tail ih (includes_of_leads hu)

theorem sound_of_settled (h : (b.search m).Settled g i) : b.Sound m i := by
  obtain ⟨t, ds, ho, hd, -⟩ := h
  obtain ⟨-, hw, rfl⟩ := opens_iff.1 ho
  refine ⟨hw, ?_⟩
  intro l hl d hld
  obtain ⟨n, hn⟩ := List.mem_iff_getElem?.1 hl
  obtain ⟨u, -, hu⟩ := hd (n, d) (mem_directives.2 ⟨l, hn, hld⟩)
  exact ⟨u, resolve_eq_ok.1 hu⟩

theorem mem_keys_of_settled (h : (b.search m).Settled g i) (hu : b.Includes m i u) :
    u ∈ g.keys := by
  obtain ⟨t, ds, ho, hd, -⟩ := h
  obtain ⟨-, -, rfl⟩ := opens_iff.1 ho
  obtain ⟨n, hn⟩ := hu
  obtain ⟨d, hm, hr⟩ := includesAt_iff.1 hn
  obtain ⟨v, hv, hr'⟩ := hd (n, d) hm
  rw [resolve_eq_ok, hr] at hr'
  cases hr'
  exact hv

theorem not_faulty_of_sound {e : Failure} (h : b.Sound m i) : ¬(b.search m).Faulty i e := by
  intro hf
  cases hf with
  | shut hs =>
    cases hs with
    | read hr => cases hr
    | unreadable hr => cases hr
    | scan hr hs =>
      have ho : (b.search m).Opens i _ _ := opens_iff.2 ⟨rfl, h.wellFormed, rfl⟩
      cases hr
      rw [ho.2] at hs
      cases hs
  | lost ho hd hl =>
    obtain ⟨-, -, rfl⟩ := opens_iff.1 ho
    obtain ⟨l, hl', hld⟩ := mem_directives.1 hd
    obtain ⟨u, hu⟩ := h.resolved l (List.mem_of_getElem? hl') _ hld
    rw [← resolve_eq_ok (m := m)] at hu
    cases hl with
    | failed hr => cases hu.symm.trans hr
    | missing hr => cases hu.symm.trans hr

theorem firstAt_iff :
    (b.search m).FirstAt i (directives m.read 0 (b.linesOf i)) n u ↔
      b.IncludesAt m i n u ∧ ∀ k < n, ¬b.IncludesAt m i k u := by
  simp only [Search.FirstAt, includesAt_iff, resolve_eq_ok]
  refine and_congr_right fun _ => ⟨?_, ?_⟩
  · rintro hmin k hk ⟨d, hd, hr⟩
    have := hmin (k, d) hd hr
    omega
  · intro hmin p hp hr
    exact Nat.le_of_not_lt fun hlt => hmin p.1 hlt ⟨p.2, hp, hr⟩

theorem mem_names_of_reachable (hi : i ∈ b.names) (h : b.Reachable m i j) : j ∈ b.names := by
  induction h with
  | refl => exact hi
  | tail _ hl _ =>
    obtain ⟨n, l, d, -, -, hu⟩ := hl
    exact mem_of_resolve hu

theorem lines_of_content (h : b.content? i = some t) : b.linesOf i = Text.lines t := by
  rw [linesOf, h]
  rfl

namespace IsRecord

variable {r : Record}

theorem of_settled (hi : i ∈ b.names) (h : (b.search m).Settled g i) (hr : g.get? i = some r) :
    b.IsRecord m i r := by
  obtain ⟨t, ds, ho, -, hg⟩ := h
  obtain ⟨rfl, -, rfl⟩ := opens_iff.1 ho
  rw [hr] at hg
  cases hg
  have hs := pairwise_directives m.read 0 (b.linesOf i)
  refine ⟨?_, Search.pairwise_firstPoints _ i [] hs, ?_⟩
  · cases hc : b.content? i with
    | none => exact absurd hi (Keyed.get?_eq_none_iff.1 hc)
    | some t => rfl
  · intro p
    simp [Search.mem_firstPoints hs, firstAt_iff]

theorem includes_of_mem (h : b.IsRecord m i r) (hu : u ∈ r.targets) : b.Includes m i u := by
  obtain ⟨p, hp, rfl⟩ := List.mem_map.1 hu
  obtain ⟨n, -, hn, -⟩ := (h.mem_points p).1 hp
  exact ⟨n, hn⟩

theorem mem_targets_of_includes (h : b.IsRecord m i r) (hu : b.Includes m i u) :
    u ∈ r.targets := by
  classical
  -- The least of the lines that include the target is a point.
  have hp : ⟨(Nat.find hu : Nat), u⟩ ∈ r.points :=
    (h.mem_points _).2 ⟨Nat.find hu, rfl, Nat.find_spec hu, fun k hk => Nat.find_min hu hk⟩
  exact List.mem_map_of_mem hp

theorem nodup_targets (h : b.IsRecord m i r) : r.targets.Nodup := by
  rw [Record.targets, List.Nodup, List.pairwise_map]
  refine h.ascending.imp_of_mem ?_
  intro p q hp hq hlt he
  obtain ⟨n, hn, hp', -⟩ := (h.mem_points p).1 hp
  obtain ⟨k, hk, -, hmin⟩ := (h.mem_points q).1 hq
  rw [he] at hp'
  exact hmin n (by omega) hp'

theorem line_lt (h : b.IsRecord m i r) {p : Point} (hp : p ∈ r.points) :
    0 ≤ p.line ∧ p.line < (Text.lines r.text).length := by
  obtain ⟨n, hn, ⟨l, d, hl, -⟩, -⟩ := (h.mem_points p).1 hp
  rw [lines_of_content h.content] at hl
  obtain ⟨hlt, -⟩ := List.getElem?_eq_some_iff.1 hl
  omega

end IsRecord

section Built

variable {seed : Reference} {built : Built}

theorem settled_of_mem_keys (h : ((b.search m).run seed).result = .ok built)
    (hj : j ∈ built.graph.keys) : (b.search m).Settled built.graph j := by
  obtain ⟨-, he, -⟩ := Search.run_ok h
  exact he.settled j hj (by simp)

theorem mem_keys_iff (h : ((b.search m).run seed).result = .ok built) :
    j ∈ built.graph.keys ↔ b.Reachable m built.seed j := by
  obtain ⟨-, he, hs⟩ := Search.run_ok h
  constructor
  · intro hj
    have hl := he.reached j hj (by simp)
    exact reachable_of_leads hl
  · intro hr
    induction hr with
    | refl => exact hs.subset (List.mem_singleton.2 rfl)
    | tail _ hu ih => exact mem_keys_of_settled (settled_of_mem_keys h ih) hu

theorem exists_isRecord (h : ((b.search m).run seed).result = .ok built)
    (hj : j ∈ built.graph.keys) : ∃ r, built.graph.get? j = some r ∧ b.IsRecord m j r := by
  obtain ⟨hseed, -, -⟩ := Search.run_ok h
  have hnames := mem_names_of_reachable (mem_of_resolve (resolve_eq_ok.1 hseed))
    ((mem_keys_iff h).1 hj)
  obtain ⟨t, ds, ho, hd, hr⟩ := settled_of_mem_keys h hj
  exact ⟨_, hr, .of_settled hnames ⟨t, ds, ho, hd, hr⟩ hr⟩

theorem keys_eq_cons (h : ((b.search m).run seed).result = .ok built) :
    ∃ rest, built.graph.keys = built.seed :: rest := by
  obtain ⟨-, -, rest, hk⟩ := Search.run_ok h
  exact ⟨rest, hk.symm⟩

theorem mem_keys_of_mem_targets (h : ((b.search m).run seed).result = .ok built) {r : Record}
    (hr : built.graph.get? j = some r) (hu : u ∈ r.targets) : u ∈ built.graph.keys := by
  have hj : j ∈ built.graph.keys := Graph.mem_keys_of_get? hr
  obtain ⟨r', hr', hrec⟩ := exists_isRecord h hj
  cases hr.symm.trans hr'
  exact mem_keys_of_settled (settled_of_mem_keys h hj) (hrec.includes_of_mem hu)

theorem mem_targets_of_includes (h : ((b.search m).run seed).result = .ok built)
    (hj : b.Reachable m built.seed j) (hu : b.Includes m j u) : u ∈ built.graph.targets := by
  obtain ⟨r, hget, hrec⟩ := exists_isRecord h ((mem_keys_iff h).2 hj)
  exact Graph.mem_targets_of_get? hget (hrec.mem_targets_of_includes hu)

theorem mem_targets_of_ne_seed (h : ((b.search m).run seed).result = .ok built)
    (hj : j ∈ built.graph.keys) (hne : j ≠ built.seed) : j ∈ built.graph.targets := by
  rcases ReflTransGen.cases_tail ((mem_keys_iff h).1 hj) with he | ⟨k, hk, hkj⟩
  · exact absurd he hne
  · exact mem_targets_of_includes h hk hkj

theorem ne_seed_of_mem_tail {rest : List Identity} (hk : built.graph.keys = built.seed :: rest)
    (hj : j ∈ rest) : j ≠ built.seed := by
  have hnd : (built.seed :: rest).Nodup := hk ▸ built.graph.distinct
  exact fun e => (List.nodup_cons.1 hnd).1 (e ▸ hj)

theorem roots_eq_seed (h : ((b.search m).run seed).result = .ok built) :
    built.graph.roots = [built.seed] := by
  obtain ⟨rest, hk⟩ := keys_eq_cons h
  refine Graph.roots_eq_singleton hk fun j hj => ?_
  exact mem_targets_of_ne_seed h (hk ▸ List.mem_cons_of_mem _ hj) (ne_seed_of_mem_tail hk hj)

theorem sound_of_reachable (h : ((b.search m).run seed).result = .ok built)
    (hr : b.Reachable m built.seed j) : b.Sound m j :=
  sound_of_settled (settled_of_mem_keys h ((mem_keys_iff h).2 hr))

theorem exists_built (hi : b.resolve seed = some i) (hs : ∀ j, b.Reachable m i j → b.Sound m j) :
    ∃ built, ((b.search m).run seed).result = .ok built := by
  cases h : ((b.search m).run seed).result with
  | ok built => exact ⟨built, rfl⟩
  | error e =>
    have hi' := resolve_eq_ok (m := m).2 hi
    rcases Search.visit_of_run_error h with hr | ⟨hr, -⟩ | ⟨k, hr, hv⟩
    · rw [hi'] at hr
      cases hr
    · rw [hi'] at hr
      cases hr
    · rw [hi'] at hr
      cases hr
      obtain ⟨j, hj, hf⟩ := (Search.visit_spec (b.search m)).1 _ _ _ _ hv
      exact absurd hf (not_faulty_of_sound (hs j (reachable_of_leads hj)))

end Built

/-- A graph is built exactly when the seed resolves and every file that can be reached from it is
sound. Its keys are the files that can be reached, each once, and every record is the one that its
file has by itself: so no placeholder is left, every target is a key, the targets of a record are
distinct and its points lie on lines of its text. -/
theorem run_ok_iff_reachable_sound (b : Bundle) (m : Marker) (seed : Reference) :
    ((∃ built, ((b.search m).run seed).result = .ok built) ↔
      ∃ i, b.resolve seed = some i ∧ ∀ j, b.Reachable m i j → b.Sound m j) ∧
    ∀ built, ((b.search m).run seed).result = .ok built →
      b.resolve seed = some built.seed ∧
      (∀ j, j ∈ built.graph.keys ↔ b.Reachable m built.seed j) ∧ built.graph.keys.Nodup ∧
      ∀ j ∈ built.graph.keys, ∃ r, built.graph.get? j = some r ∧
        b.IsRecord m j r ∧ (∀ u ∈ r.targets, u ∈ built.graph.keys) ∧ r.targets.Nodup ∧
          ∀ p ∈ r.points, 0 ≤ p.line ∧ p.line < (Text.lines r.text).length := by
  refine ⟨⟨?_, ?_⟩, ?_⟩
  · rintro ⟨built, h⟩
    obtain ⟨hr, -, -⟩ := Search.run_ok h
    exact ⟨built.seed, resolve_eq_ok.1 hr, fun j hj => sound_of_reachable h hj⟩
  · rintro ⟨i, hi, hs⟩
    exact exists_built hi hs
  · intro built h
    obtain ⟨hr, -, -⟩ := Search.run_ok h
    refine ⟨resolve_eq_ok.1 hr, fun j => mem_keys_iff h, built.graph.distinct, ?_⟩
    intro j hj
    obtain ⟨r, hget, hrec⟩ := exists_isRecord h hj
    refine ⟨r, hget, hrec, ?_, hrec.nodup_targets, fun p hp => hrec.line_lt hp⟩
    intro u hu
    exact mem_keys_of_settled (settled_of_mem_keys h hj) (hrec.includes_of_mem hu)

end Bundle
end Splice
