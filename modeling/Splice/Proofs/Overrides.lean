import Mathlib
import Splice.Config.Lookup
import Splice.Proofs.DeepMerge

set_option autoImplicit false

namespace Splice

theorem Text.cut_eq_iff {sep : Char} {t s k : Text} :
    Text.cut sep t = (s, some k) ↔ t = s ++ sep :: k ∧ sep ∉ s := by
  induction t generalizing s with
  | nil => simp [cut]
  | cons c t ih =>
    unfold cut
    by_cases hc : c = sep
    · cases s with
      | nil => simp [hc]
      | cons d s =>
        simp only [hc, if_true, Prod.mk.injEq, reduceCtorEq, false_and, List.cons_append,
          List.cons.injEq, List.mem_cons, not_or, false_iff, not_and]
        exact fun hd hne => absurd hd.1 hne
    · cases s with
      | nil => simp [hc]
      | cons d s =>
        have hrest := ih (s := s)
        simp only [Prod.ext_iff] at hrest
        simp only [if_neg hc, Prod.mk.injEq, List.cons.injEq, List.cons_append, List.mem_cons,
          not_or, and_assoc, hrest]
        constructor
        · rintro ⟨rfl, ht, hs⟩
          exact ⟨rfl, ht, Ne.symm hc, hs⟩
        · rintro ⟨rfl, ht, -, hs⟩
          exact ⟨rfl, ht, hs⟩

namespace Config

open Value (at?)

/-- A variable addresses a key of a section: what follows the common start of its name is, in small
letters, the section, an underscore and the key. -/
def Addresses (name heading key : Text) : Prop :=
  ∃ rest, name = variableStart ++ rest ∧ Text.lower rest = heading ++ '_' :: key ∧
    '_' ∉ heading ∧ heading ≠ [] ∧ key ≠ []

variable {name heading key s k : Text} {v x : Value} {config config' r r' : Table}
  {env env' : Environment}

theorem address?_eq_some_iff :
    address? name = some (heading, key) ↔ Addresses name heading key := by
  unfold address? Addresses
  constructor
  · intro h
    split at h
    · cases h
    · rename_i rest hrest
      split at h
      · rename_i s k hcut
        split at h
        · cases h
        · rename_i hne
          cases h
          obtain ⟨hlower, hs⟩ := Text.cut_eq_iff.1 hcut
          rw [not_or] at hne
          exact ⟨rest, Text.after?_eq_some.1 hrest, hlower, hs, hne.1, hne.2⟩
      · cases h
  · rintro ⟨rest, hname, hlower, hs, hheading, hkey⟩
    rw [Text.after?_eq_some.2 hname]
    simp only [Text.cut_eq_iff.2 ⟨hlower, hs⟩, hheading, hkey, or_self, if_false]

instance : Decidable (Addresses name heading key) := decidable_of_iff _ address?_eq_some_iff

theorem Addresses.unique (h : Addresses name heading key) (h' : Addresses name s k) :
    heading = s ∧ key = k := by
  have he := (address?_eq_some_iff.2 h).symm.trans (address?_eq_some_iff.2 h')
  simpa using he

def last? (env : Environment) (heading key : Text) : Option Text :=
  ((env.filter fun v => Addresses v.1 heading key).getLast?).map Prod.snd

theorem last?_eq_none_iff :
    last? env heading key = none ↔ ∀ v ∈ env, ¬Addresses v.1 heading key := by
  simp [last?]

theorem last?_cons_of_not {p : Text × Text} (h : ¬Addresses p.1 heading key) :
    last? (p :: env) heading key = last? env heading key := by
  rw [last?, last?, List.filter_cons_of_neg (by simpa using h)]

theorem last?_cons_of {p : Text × Text} (h : Addresses p.1 heading key) :
    last? (p :: env) heading key = (last? env heading key).or (some p.2) := by
  rw [last?, last?, List.filter_cons_of_pos (by simpa using h), List.getLast?_cons]
  cases (env.filter fun v => Addresses v.1 heading key).getLast? <;> rfl

def Refuses (config : Table) (heading : Text) : Prop :=
  ∃ x, Keyed.get? heading config = some x ∧ x.isTable = false

def Blocked (config : Table) (env : Environment) : Prop :=
  ∃ p ∈ env, ∃ heading key, Addresses p.1 heading key ∧ Refuses config heading

/-- The values of variables that address something can be read. -/
def Legible (env : Environment) : Prop :=
  ∀ p ∈ env, ∀ heading key, Addresses p.1 heading key → ∃ x, variableValue p.2 = .ok x

structure Assigned (config : Table) (heading key : Text) (v : Value) (config' : Table) : Prop where
  at_eq : ∀ s k, at? [s, k] (.table config') =
    if s = heading ∧ k = key then some v else at? [s, k] (.table config)
  others : ∀ s, s ≠ heading → Keyed.get? s config' = Keyed.get? s config
  isTable : ∃ t, Keyed.get? heading config' = some (.table t)

theorem assigned_put {t : Table}
    (h : ∀ k, Keyed.get? k t = at? [heading, k] (.table config)) :
    Assigned config heading key v
      (Keyed.put heading (.table (Keyed.put key v t)) config) := by
  refine ⟨fun s k => ?_, fun s hs => ?_, Keyed.put key v t, ?_⟩
  · by_cases hs : s = heading
    · subst hs
      have hput : at? [s, k] (.table (Keyed.put s (.table (Keyed.put key v t)) config)) =
          Keyed.get? k (Keyed.put key v t) := by
        simp [at?, Keyed.get?_put]
      rw [hput, Keyed.get?_put, h]
      simp
    · simp [at?, Keyed.get?_put, hs]
  · rw [Keyed.get?_put, if_neg hs]
  · rw [Keyed.get?_put, if_pos rfl]

theorem assign_cases (config : Table) (heading key : Text) (v : Value) :
    (Refuses config heading ∧ assign config heading key v = .error .mistyped) ∨
      ¬Refuses config heading ∧
        ∃ config', assign config heading key v = .ok config' ∧
          Assigned config heading key v config' := by
  unfold assign
  split
  · rename_i hnone
    refine .inr ⟨?_, _, rfl, assigned_put (t := []) fun k => ?_⟩
    · rintro ⟨x, hx, -⟩
      cases hnone.symm.trans hx
    · simp [at?, hnone, Keyed.get?]
  · rename_i t ht
    refine .inr ⟨?_, _, rfl, assigned_put fun k => ?_⟩
    · rintro ⟨x, hx, hplain⟩
      cases ht.symm.trans hx
      cases hplain
    · simp [at?, ht]
  · rename_i x hnot hx
    refine .inl ⟨⟨x, hx, ?_⟩, rfl⟩
    cases x with
    | table t => exact absurd rfl (hnot t)
    | _ => rfl

theorem Assigned.refuses_iff (h : Assigned config heading key v config')
    (hr : ¬Refuses config heading) : Refuses config' s ↔ Refuses config s := by
  by_cases hs : s = heading
  · subst hs
    refine iff_of_false ?_ hr
    rintro ⟨x, hx, hplain⟩
    obtain ⟨t, ht⟩ := h.isTable
    cases ht.symm.trans hx
    cases hplain
  · simp only [Refuses, h.others s hs]

/-- What the variables make of a configuration. -/
structure Overridden (config : Table) (env : Environment) (r : Table) : Prop where
  addressed : ∀ s k raw, last? env s k = some raw →
    ∃ v, variableValue raw = .ok v ∧ at? [s, k] (.table r) = some v
  /-- A key that none addresses stays, or stays missing. -/
  kept : ∀ s k, (∀ p ∈ env, ¬Addresses p.1 s k) →
    at? [s, k] (.table r) = at? [s, k] (.table config)
  /-- A section that none addresses stays. -/
  untouched : ∀ s, (∀ p ∈ env, ∀ k, ¬Addresses p.1 s k) →
    Keyed.get? s r = Keyed.get? s config
  /-- A section that one addresses is a table. -/
  isTable : ∀ p ∈ env, ∀ s k, Addresses p.1 s k → ∃ t, Keyed.get? s r = some (.table t)

variable {p : Text × Text}

theorem overridden_nil : Overridden config [] config :=
  ⟨by simp [last?], fun _ _ _ => rfl, fun _ _ => rfl, by simp⟩

theorem Overridden.skip (h : Overridden config env r) (hp : ∀ s k, ¬Addresses p.1 s k) :
    Overridden config (p :: env) r where
  addressed s k raw hlast := h.addressed s k raw (last?_cons_of_not (hp s k) ▸ hlast)
  kept s k hnone := h.kept s k (List.forall_mem_cons.1 hnone).2
  untouched s hnone := h.untouched s (List.forall_mem_cons.1 hnone).2
  isTable := List.forall_mem_cons.2 ⟨fun s k haddr => absurd haddr (hp s k), h.isTable⟩

theorem Overridden.set (h : Overridden config' env r) (hp : Addresses p.1 heading key)
    (hv : variableValue p.2 = .ok v) (ha : Assigned config heading key v config') :
    Overridden config (p :: env) r where
  addressed s k raw hlast := by
    by_cases hsk : Addresses p.1 s k
    · rw [last?_cons_of hsk] at hlast
      cases hrest : last? env s k with
      | some raw' =>
        rw [hrest] at hlast
        cases hlast
        exact h.addressed s k _ hrest
      | none =>
        rw [hrest] at hlast
        cases hlast
        obtain ⟨rfl, rfl⟩ := hsk.unique hp
        refine ⟨v, hv, ?_⟩
        rw [h.kept s k (last?_eq_none_iff.1 hrest), ha.at_eq, if_pos ⟨rfl, rfl⟩]
    · exact h.addressed s k raw (last?_cons_of_not hsk ▸ hlast)
  kept s k hnone := by
    obtain ⟨hnot, hrest⟩ := List.forall_mem_cons.1 hnone
    have hne : ¬(s = heading ∧ k = key) := by
      rintro ⟨rfl, rfl⟩
      exact hnot hp
    rw [h.kept s k hrest, ha.at_eq, if_neg hne]
  untouched s hnone := by
    obtain ⟨hnot, hrest⟩ := List.forall_mem_cons.1 hnone
    have hne : s ≠ heading := by
      rintro rfl
      exact hnot key hp
    rw [h.untouched s hrest, ha.others s hne]
  isTable := by
    refine List.forall_mem_cons.2 ⟨fun s k haddr => ?_, h.isTable⟩
    obtain ⟨rfl, rfl⟩ := haddr.unique hp
    -- The section is a table by now, and the variables behind leave it one.
    by_cases hmore : ∃ q ∈ env, ∃ k, Addresses q.1 s k
    · obtain ⟨q, hq, k', hq'⟩ := hmore
      exact h.isTable q hq s k' hq'
    · obtain ⟨t, ht⟩ := ha.isTable
      refine ⟨t, ?_⟩
      rw [h.untouched s fun q hq k' hq' => hmore ⟨q, hq, k', hq'⟩, ht]

theorem blocked_cons :
    Blocked config (p :: env) ↔
      (∃ heading key, Addresses p.1 heading key ∧ Refuses config heading) ∨ Blocked config env := by
  simp [Blocked]

theorem applyEnvironment_skip (h : ∀ s k, ¬Addresses p.1 s k) :
    applyEnvironment config (p :: env) = applyEnvironment config env := by
  obtain ⟨name, raw⟩ := p
  have hnone : address? name = none := by
    cases haddr : address? name with
    | none => rfl
    | some q => exact absurd (address?_eq_some_iff.1 haddr) (h q.1 q.2)
  rw [applyEnvironment, hnone]

theorem applyEnvironment_set (hp : Addresses p.1 heading key) (hv : variableValue p.2 = .ok v) :
    applyEnvironment config (p :: env) =
      assign config heading key v >>= (applyEnvironment · env) := by
  obtain ⟨name, raw⟩ := p
  have haddr : address? name = some (heading, key) := address?_eq_some_iff.2 hp
  have hv : variableValue raw = .ok v := hv
  rw [applyEnvironment, haddr]
  simp only [hv]
  cases assign config heading key v <;> rfl

theorem applyEnvironment_cases (henv : Legible env) (config : Table) :
    (Blocked config env ∧ applyEnvironment config env = .error .mistyped) ∨
      ¬Blocked config env ∧
        ∃ r, applyEnvironment config env = .ok r ∧ Overridden config env r := by
  induction env generalizing config with
  | nil => exact .inr ⟨by simp [Blocked], config, rfl, overridden_nil⟩
  | cons p env ih =>
    obtain ⟨hvalue, henv⟩ := List.forall_mem_cons.1 henv
    rw [blocked_cons]
    by_cases hp : ∃ s k, Addresses p.1 s k
    · obtain ⟨s, k, hp⟩ := hp
      obtain ⟨v, hv⟩ := hvalue s k hp
      rw [applyEnvironment_set hp hv]
      rcases assign_cases config s k v with ⟨href, hassign⟩ | ⟨href, config', hassign, ha⟩
      · rw [hassign]
        exact .inl ⟨.inl ⟨s, k, hp, href⟩, rfl⟩
      · rw [hassign]
        have hiff : Blocked config' env ↔ Blocked config env := by
          simp only [Blocked, ha.refuses_iff href]
        have hno : ¬∃ s' k', Addresses p.1 s' k' ∧ Refuses config s' := by
          rintro ⟨s', k', h, href'⟩
          obtain ⟨rfl, rfl⟩ := h.unique hp
          exact href href'
        rcases ih henv config' with ⟨hblocked, herror⟩ | ⟨hfree, r, hr, hover⟩
        · exact .inl ⟨.inr (hiff.1 hblocked), herror⟩
        · exact .inr ⟨not_or.2 ⟨hno, mt hiff.2 hfree⟩, r, hr, hover.set hp hv ha⟩
    · have hnot : ∀ s k, ¬Addresses p.1 s k := fun s k h => hp ⟨s, k, h⟩
      have hno : ¬∃ s k, Addresses p.1 s k ∧ Refuses config s :=
        fun ⟨s, k, h, _⟩ => hnot s k h
      rw [applyEnvironment_skip hnot]
      rcases ih henv config with ⟨hblocked, herror⟩ | ⟨hfree, r, hr, hover⟩
      · exact .inl ⟨.inr hblocked, herror⟩
      · exact .inr ⟨not_or.2 ⟨hno, hfree⟩, r, hr, hover.skip hnot⟩

theorem applyEnvironment_eq_error_iff (henv : Legible env) :
    applyEnvironment config env = .error .mistyped ↔ Blocked config env := by
  rcases applyEnvironment_cases henv config with ⟨hblocked, herror⟩ | ⟨hfree, r, hr, -⟩
  · exact iff_of_true herror hblocked
  · rw [hr]
    exact iff_of_false nofun hfree

theorem exists_overridden (henv : Legible env) (h : ¬Blocked config env) :
    ∃ r, applyEnvironment config env = .ok r ∧ Overridden config env r :=
  ((applyEnvironment_cases henv config).resolve_left fun hblocked => h hblocked.1).2

theorem overridden_of_ok (henv : Legible env) (h : applyEnvironment config env = .ok r) :
    Overridden config env r := by
  rcases applyEnvironment_cases henv config with ⟨-, herror⟩ | ⟨-, r', hr', hover⟩
  · cases herror.symm.trans h
  · cases hr'.symm.trans h
    exact hover

def Alike (t u : Table) : Prop :=
  ∀ s, Keyed.get? s t = Keyed.get? s u ∨
    ∃ x y, Keyed.get? s t = some (.table x) ∧ Keyed.get? s u = some (.table y) ∧
      ∀ k, Keyed.get? k x = Keyed.get? k y

/-- For every key the variables that address it are the same, in the same order. This is so of a
permutation that swaps no two variables of one key. -/
def SameOrders (env env' : Environment) : Prop :=
  ∀ s k, env.filter (fun p => Addresses p.1 s k) = env'.filter fun p => Addresses p.1 s k

theorem SameOrders.mem_iff (h : SameOrders env env') (hp : Addresses p.1 s k) :
    p ∈ env ↔ p ∈ env' := by
  have hmem : p ∈ env.filter (fun p => Addresses p.1 s k) ↔
      p ∈ env'.filter fun p => Addresses p.1 s k := by rw [h s k]
  simpa [hp] using hmem

theorem SameOrders.last?_eq (h : SameOrders env env') : last? env s k = last? env' s k := by
  rw [last?, last?, h s k]

theorem SameOrders.legible (h : SameOrders env env') (henv : Legible env) : Legible env' :=
  fun p hp s k haddr => henv p ((h.mem_iff haddr).2 hp) s k haddr

theorem SameOrders.blocked_iff (h : SameOrders env env') :
    Blocked config env ↔ Blocked config env' := by
  constructor
  · rintro ⟨p, hp, s, k, haddr, href⟩
    exact ⟨p, (h.mem_iff haddr).1 hp, s, k, haddr, href⟩
  · rintro ⟨p, hp, s, k, haddr, href⟩
    exact ⟨p, (h.mem_iff haddr).2 hp, s, k, haddr, href⟩

theorem Overridden.at_eq (h : Overridden config env r) (h' : Overridden config env' r')
    (hsame : SameOrders env env') (s k : Text) :
    at? [s, k] (.table r) = at? [s, k] (.table r') := by
  cases hlast : last? env s k with
  | some raw =>
    obtain ⟨v, hv, hr⟩ := h.addressed s k raw hlast
    obtain ⟨v', hv', hr'⟩ := h'.addressed s k raw (hsame.last?_eq ▸ hlast)
    cases hv.symm.trans hv'
    rw [hr, hr']
  | none =>
    rw [h.kept s k (last?_eq_none_iff.1 hlast),
      h'.kept s k (last?_eq_none_iff.1 (hsame.last?_eq ▸ hlast))]

theorem Overridden.alike (h : Overridden config env r) (h' : Overridden config env' r')
    (hsame : SameOrders env env') : Alike r r' := by
  intro s
  by_cases hs : ∃ p ∈ env, ∃ k, Addresses p.1 s k
  · obtain ⟨p, hp, k, haddr⟩ := hs
    obtain ⟨t, ht⟩ := h.isTable p hp s k haddr
    obtain ⟨t', ht'⟩ := h'.isTable p ((hsame.mem_iff haddr).1 hp) s k haddr
    refine .inr ⟨t, t', ht, ht', fun j => ?_⟩
    have hat := h.at_eq h' hsame s j
    simpa [at?, ht, ht'] using hat
  · have hnone : ∀ p ∈ env, ∀ k, ¬Addresses p.1 s k := fun p hp k haddr => hs ⟨p, hp, k, haddr⟩
    have hnone' : ∀ p ∈ env', ∀ k, ¬Addresses p.1 s k :=
      fun p hp k haddr => hnone p ((hsame.mem_iff haddr).2 hp) k haddr
    exact .inl ((h.untouched s hnone).trans (h'.untouched s hnone').symm)

theorem applyEnvironment_alike (henv : Legible env) (hsame : SameOrders env env') :
    (applyEnvironment config env = .error .mistyped ∧
      applyEnvironment config env' = .error .mistyped) ∨
    ∃ r r', applyEnvironment config env = .ok r ∧ applyEnvironment config env' = .ok r' ∧
      Alike r r' := by
  have henv' := hsame.legible henv
  by_cases h : Blocked config env
  · exact .inl ⟨(applyEnvironment_eq_error_iff henv).2 h,
      (applyEnvironment_eq_error_iff henv').2 (hsame.blocked_iff.1 h)⟩
  · obtain ⟨r, hr, hover⟩ := exists_overridden henv h
    obtain ⟨r', hr', hover'⟩ := exists_overridden henv' (mt hsame.blocked_iff.2 h)
    exact .inr ⟨r, r', hr, hr', hover.alike hover' hsame⟩

theorem applyEnvironmentTo_eq_ok_iff {w : Value} : applyEnvironmentTo v env = .ok w ↔
    (∃ t r, v = .table t ∧ applyEnvironment t env = .ok r ∧ w = .table r) ∨
    v.isTable = false ∧ (∀ p ∈ env, ∀ s k, ¬Addresses p.1 s k) ∧ w = v := by
  have hnone : env.find? (fun p => (address? p.1).isSome) = none ↔
      ∀ p ∈ env, ∀ s k, ¬Addresses p.1 s k := by
    simp only [List.find?_eq_none, ← address?_eq_some_iff]
    refine forall₂_congr fun p _ => ?_
    rcases address? p.1 with _ | ⟨s, k⟩ <;> simp
  cases hv : v.isTable with
  | true =>
    obtain ⟨t, rfl⟩ := Value.isTable_iff.1 hv
    cases hr : applyEnvironment t env <;>
      simp [applyEnvironmentTo, hr, Except.map, eq_comm]
  | false =>
    have hplain : ∀ t, v ≠ .table t := by
      rintro t rfl
      cases hv
    rw [← hnone]
    cases hfind : env.find? fun p => (address? p.1).isSome with
    | none =>
      have hto : applyEnvironmentTo v env = .ok v := by
        cases v with
        | table t => cases hv
        | _ => simp only [applyEnvironmentTo, hfind]
      simp [hto, hplain, eq_comm]
    | some p =>
      obtain ⟨e, he⟩ : ∃ e, applyEnvironmentTo v env = .error e := by
        cases v with
        | table t => cases hv
        | _ =>
          simp only [applyEnvironmentTo, hfind]
          cases variableValue p.2 <;> exact ⟨_, rfl⟩
      simp [he, hplain]

section Effective

variable {d : Disk} {path start : Option Route} {file : Table} {reader : Reader}

def IsDistinct (reader : Reader) : Prop :=
  ∀ t file, reader t = .ok file → (Value.table file).isDistinct

def contents (reader : Reader) (d : Disk) (path : Route) : Except Failure Table :=
  match d.read path with
  | .error e => .error e
  | .ok bytes =>
    match Codec.Utf8.decode bytes with
    | .error f => .error (.undecodable f)
    | .ok t => reader (plainLines t)

theorem load_eq (reader : Reader) (d : Disk) (path : Route) :
    load d path reader = contents reader d path >>= mergeTables defaults := by
  unfold load contents
  cases d.read path with
  | error e => rfl
  | ok bytes =>
    dsimp only
    cases Codec.Utf8.decode bytes <;> rfl

theorem isDistinct_contents {path : Route} (hreader : IsDistinct reader)
    (h : contents reader d path = .ok file) : (Value.table file).isDistinct := by
  unfold contents at h
  split at h
  · cases h
  · split at h
    · cases h
    · exact hreader _ _ h

/-- What the configuration file in use says, if a file is named, or one is found, or there is none.
The calls of its merge are within the limit. -/
inductive Says (reader : Reader) (d : Disk) : Option Route → Option Route → Table → Prop
  | named {p : Route} {start : Option Route} {file : Table} :
    contents reader d p = .ok file → mergeCalls defaults file ≤ callLimit →
      Says reader d (some p) start file
  | found {p : Route} {start : Option Route} {file : Table} :
    find d (start.getD ⟨1, d.cwd⟩) = .ok (some p) → contents reader d p = .ok file →
      mergeCalls defaults file ≤ callLimit → Says reader d none start file
  | nothing {start : Option Route} :
    find d (start.getD ⟨1, d.cwd⟩) = .ok none → Says reader d none start []

theorem Says.isDistinct (hreader : IsDistinct reader) (h : Says reader d path start file) :
    (Value.table file).isDistinct := by
  cases h with
  | named hfile => exact isDistinct_contents hreader hfile
  | found _ hfile => exact isDistinct_contents hreader hfile
  | nothing _ => rfl

theorem effective_some (reader : Reader) (d : Disk) (env : Environment) (p : Route)
    (start : Option Route) :
    effective d env (some p) start reader =
      (contents reader d p >>= mergeTables defaults) >>= fun config =>
        applyEnvironment config env := by
  have hload : effective d env (some p) start reader =
      load d p reader >>= (applyEnvironment · env) := rfl
  rw [hload, load_eq]

theorem effective_none (reader : Reader) (d : Disk) (env : Environment) (start : Option Route) :
    effective d env none start reader =
      find d (start.getD ⟨1, d.cwd⟩) >>= fun found =>
        match found with
        | some p => effective d env (some p) start reader
        | none => applyEnvironment defaults env := by
  have hfind : effective d env none start reader = find d (start.getD ⟨1, d.cwd⟩) >>= fun found =>
      match found with
      | some p => load d p reader >>= (applyEnvironment · env)
      | none => applyEnvironment defaults env := by
    unfold effective
    dsimp only
    cases find d (start.getD ⟨1, d.cwd⟩) with
    | error e => rfl
    | ok found => cases found <;> rfl
  rw [hfind]
  rfl

theorem Says.effective_eq (h : Says reader d path start file) (env : Environment) :
    effective d env path start reader = applyEnvironment (merge defaults file) env := by
  cases h with
  | named hfile hcalls =>
    have hmerge := mergeTables_eq_ok_iff.2 ⟨hcalls, rfl⟩
    rw [effective_some, hfile]
    exact congrArg (· >>= fun config => applyEnvironment config env) hmerge
  | @found p _ _ hfind hfile hcalls =>
    have hmerge := mergeTables_eq_ok_iff.2 ⟨hcalls, rfl⟩
    rw [effective_none, hfind]
    change effective d env (some p) start reader = _
    rw [effective_some, hfile]
    exact congrArg (· >>= fun config => applyEnvironment config env) hmerge
  | nothing hfind =>
    rw [effective_none, hfind]
    rfl

theorem says_of_effective (h : effective d env path start reader = .ok r) :
    ∃ file, Says reader d path start file := by
  have hnamed : ∀ {p}, effective d env (some p) start reader = .ok r →
      ∃ file, contents reader d p = .ok file ∧ mergeCalls defaults file ≤ callLimit := by
    intro p h
    rw [effective_some] at h
    obtain ⟨config, hconfig, -⟩ := bind_eq_ok h
    obtain ⟨file, hfile, hmerge⟩ := bind_eq_ok hconfig
    exact ⟨file, hfile, (mergeTables_eq_ok_iff.1 hmerge).1⟩
  cases path with
  | some p =>
    obtain ⟨file, hfile, hcalls⟩ := hnamed h
    exact ⟨file, .named hfile hcalls⟩
  | none =>
    rw [effective_none] at h
    cases hfind : find d (start.getD ⟨1, d.cwd⟩) with
    | error e =>
      rw [hfind] at h
      cases h
    | ok found =>
      rw [hfind] at h
      cases found with
      | none => exact ⟨[], .nothing hfind⟩
      | some p =>
        obtain ⟨file, hfile, hcalls⟩ := hnamed h
        exact ⟨file, .found hfind hfile hcalls⟩

/-- What each key of the configuration in effect comes from. -/
structure Layered (env : Environment) (file r : Table) : Prop where
  /-- A variable counts before all else. -/
  addressed : ∀ s k raw, last? env s k = some raw →
    ∃ v, variableValue raw = .ok v ∧ at? [s, k] (.table r) = some v
  /-- The file counts where no variable does. -/
  written : ∀ s k v, (∀ p ∈ env, ¬Addresses p.1 s k) → at? [s, k] (.table file) = some v →
    at? [s, k] (.table r) = some v
  /-- A default counts where nothing else does, unless the file has something else than a table as
  the section. -/
  missing : ∀ s k, (∀ p ∈ env, ¬Addresses p.1 s k) → at? [s, k] (.table file) = none →
    ¬Refuses file s → at? [s, k] (.table r) = at? [s, k] (.table defaults)

theorem at?_defaults (h : at? [s, k] (.table defaults) = some v) : v.isTable = false := by
  have hall : ∀ p ∈ defaults, ∃ t, p.2 = .table t ∧ ∀ q ∈ t, q.2.isTable = false := by
    refine List.forall_mem_cons.2 ⟨⟨_, rfl, by decide⟩, ?_⟩
    exact List.forall_mem_singleton.2 ⟨_, rfl, by decide⟩
  obtain ⟨x, hx, h⟩ := Option.bind_eq_some_iff.1 h
  obtain ⟨t, ht, hplain⟩ := hall _ (Keyed.mem_of_get? hx)
  subst ht
  obtain ⟨y, hy, he⟩ := Option.bind_eq_some_iff.1 h
  cases he
  exact hplain _ (Keyed.mem_of_get? hy)

theorem Overridden.layered (h : Overridden (merge defaults file) env r)
    (hfile : (Value.table file).isDistinct) : Layered env file r where
  addressed := h.addressed
  written s k v hnone hv := by
    rw [h.kept s k hnone]
    refine at?_merge_of_changed hfile hv fun t _ ht _ => ?_
    cases at?_defaults ht
  missing s k hnone hmissing href := by
    rw [h.kept s k hnone]
    refine at?_merge_of_unchanged hfile hmissing fun path w hpath hw => ?_
    -- On the way to a key there is the whole table, and the section.
    rcases path with _ | ⟨j, _ | ⟨j', path⟩⟩
    · cases hw
      rfl
    · obtain ⟨rfl, -⟩ := List.cons_prefix_cons.1 hpath
      obtain ⟨x, hx, he⟩ := Option.bind_eq_some_iff.1 hw
      cases he
      cases hplain : w.isTable with
      | true => rfl
      | false => exact absurd ⟨w, hx, hplain⟩ href
    · have hwhole : j :: j' :: path = [s, k] :=
        hpath.eq_of_length_le (by simp)
      cases (hwhole ▸ hw).symm.trans hmissing

theorem Says.layered (hreader : IsDistinct reader) (h : Says reader d path start file)
    (henv : Legible env) (hr : effective d env path start reader = .ok r) :
    Layered env file r := by
  rw [h.effective_eq] at hr
  exact (overridden_of_ok henv hr).layered (h.isDistinct hreader)

end Effective

/-- Variables whose values can be read change what they address and nothing else. They fail exactly
if one of them addresses a section that is no table, and their order does not matter but for those
of one key. In the configuration in effect a variable counts before the file, and the file before
the defaults. -/
theorem environment_overrides (henv : Legible env) :
    (∀ config : Table,
      (applyEnvironment config env = .error .mistyped ↔ Blocked config env) ∧
      (¬Blocked config env →
        ∃ r, applyEnvironment config env = .ok r ∧ Overridden config env r) ∧
      ∀ env', SameOrders env env' →
        (applyEnvironment config env = .error .mistyped ∧
          applyEnvironment config env' = .error .mistyped) ∨
        ∃ r r', applyEnvironment config env = .ok r ∧ applyEnvironment config env' = .ok r' ∧
          Alike r r') ∧
    ∀ reader, IsDistinct reader → ∀ (d : Disk) (path start : Option Route),
      (∀ file, Says reader d path start file → ¬Blocked (merge defaults file) env →
        ∃ r, effective d env path start reader = .ok r ∧ Layered env file r) ∧
      ∀ r, effective d env path start reader = .ok r →
        ∃ file, Says reader d path start file ∧ Layered env file r := by
  refine ⟨fun config => ?_, fun reader hreader d path start =>
    ⟨fun file hsaid hfree => ?_, fun r hr => ?_⟩⟩
  · exact ⟨applyEnvironment_eq_error_iff henv, exists_overridden henv,
      fun env' => applyEnvironment_alike henv⟩
  · obtain ⟨r, hr, -⟩ := exists_overridden henv hfree
    have heffective := (hsaid.effective_eq env).trans hr
    exact ⟨r, heffective, hsaid.layered hreader henv heffective⟩
  · obtain ⟨file, hsaid⟩ := says_of_effective hr
    exact ⟨file, hsaid, hsaid.layered hreader henv hr⟩

def cabinetEnvironment : Environment :=
  [("PREPROC_DEPFILE_STRIP_PREFIX".toList, "x".toList), ("HOME".toList, "x".toList),
    ("PREPROC_Depfile_strip_prefix".toList, "TRUE".toList)]

theorem variableValue_truth : variableValue "TRUE".toList = .ok (.bool true) := by cbv

theorem legible_cabinet : Legible cabinetEnvironment := by
  have hletter : variableValue "x".toList = .ok (.text "x".toList) := by cbv
  intro p hp _ _ _
  simp only [cabinetEnvironment, List.mem_cons, List.not_mem_nil, or_false] at hp
  rcases hp with rfl | rfl | rfl
  · exact ⟨_, hletter⟩
  · exact ⟨_, hletter⟩
  · exact ⟨_, variableValue_truth⟩

def cabinet : Disk :=
  ⟨⟨[([fileName], .file (Codec.Utf8.encode
    "[depfile]\nstrip_prefix = 'a'\n[preprocess]\ncomment = '#'\n".toList))]⟩, []⟩

def cabinetFile : Table :=
  [("depfile".toList, .table [("strip_prefix".toList, .text ['a'])]),
    ("preprocess".toList, .table [("comment".toList, .text ['#'])])]

theorem says_cabinet : Says Toml.parse cabinet none none cabinetFile := by
  have hfind : find cabinet ⟨1, []⟩ = .ok (some ⟨1, [fileName]⟩) := by cbv
  have hfile : contents Toml.parse cabinet ⟨1, [fileName]⟩ = .ok cabinetFile := by cbv
  exact .found hfind hfile (by decide)

theorem not_blocked_cabinet : ¬Blocked (merge defaults cabinetFile) cabinetEnvironment := by
  rintro ⟨p, hp, s, k, haddr, x, hx, hplain⟩
  have hall : ∀ p ∈ merge defaults cabinetFile, p.2.isTable := by decide
  cases (hall _ (Keyed.mem_of_get? hx)).symm.trans hplain

theorem effective_cabinet :
    Legible cabinetEnvironment ∧ ∃ r, effective cabinet cabinetEnvironment none none = .ok r ∧
      at? ["depfile".toList, "strip_prefix".toList] (.table r) = some (.bool true) ∧
      at? ["preprocess".toList, "comment".toList] (.table r) = some (.text ['#']) ∧
      at? ["preprocess".toList, "encoding".toList] (.table r) = some (.text "utf-8".toList) := by
  obtain ⟨-, heffective⟩ := environment_overrides legible_cabinet
  have hreader : IsDistinct Toml.parse := fun _ _ => Toml.isDistinct_parse
  obtain ⟨r, hr, hlayered⟩ :=
    (heffective Toml.parse hreader cabinet none none).1 _ says_cabinet not_blocked_cabinet
  have hlast : last? cabinetEnvironment "depfile".toList "strip_prefix".toList =
      some "TRUE".toList := by decide
  have hfree : ¬Refuses cabinetFile "preprocess".toList := by
    rintro ⟨x, hx, hplain⟩
    cases hx
    cases hplain
  refine ⟨legible_cabinet, r, hr, ?_, ?_, ?_⟩
  · obtain ⟨v, hv, hat⟩ := hlayered.addressed _ _ _ hlast
    cases hv.symm.trans variableValue_truth
    exact hat
  · exact hlayered.written _ _ _ (by decide) rfl
  · exact hlayered.missing _ _ (by decide) rfl hfree

end Config

namespace Json

theorem digits_ones (n : Nat) :
    digits (List.replicate n '1' ++ [']']) = (List.replicate n '1', [']']) := by
  have h : ∀ c ∈ List.replicate n '1', c.isDigit = true := by
    intro c hc
    rw [List.eq_of_mem_replicate hc]
    rfl
  rw [digits, List.takeWhile_append_of_pos h, List.dropWhile_append_of_pos h,
    List.takeWhile_cons_of_neg (by decide), List.dropWhile_cons_of_neg (by decide), List.append_nil]

theorem number_ones {n : Nat} (h : Value.digitLimit < n) :
    number false (List.replicate n '1' ++ [']']) = .error (.longInteger n) := by
  obtain ⟨k, rfl⟩ : ∃ k, n = k + 1 := ⟨n - 1, by omega⟩
  have hd := digits_ones (k + 1)
  rw [List.replicate_succ, List.cons_append] at hd ⊢
  rw [number]
  · simp only [hd]
    simp [fraction?, exponent?, h]
  · intro t he
    cases he

theorem parse_ones {n : Nat} (h : Value.digitLimit < n) :
    parse ('[' :: (List.replicate n '1' ++ [']'])) = .error (.longInteger n) := by
  have hnumber := number_ones h
  obtain ⟨k, rfl⟩ : ∃ k, n = k + 1 := ⟨n - 1, by omega⟩
  rw [List.replicate_succ, List.cons_append] at hnumber ⊢
  generalize List.replicate k '1' ++ [']'] = t at hnumber ⊢
  have hvalue : ∀ fuel depth, value (fuel + 1) depth ('1' :: t) = number false ('1' :: t) :=
    fun _ _ => rfl
  have hlist : ∀ fuel, value (fuel + 3) depthLimit ('[' :: '1' :: t) =
      (items (fuel + 2) 989 ('1' :: t)).map fun p => (.list p.1, p.2) := fun _ => rfl
  have hfuel : 2 * ('[' :: '1' :: t).length + 2 = (2 * t.length + 3) + 3 := by
    simp only [List.length_cons]
    omega
  have hskip : skip ('[' :: '1' :: t) = '[' :: '1' :: t := rfl
  rw [parse, hskip, hfuel, hlist, items, hvalue, hnumber]
  rfl

end Json

namespace Config

def longList : Text := '[' :: (List.replicate 4301 '1' ++ [']'])

theorem variableValue_longList : variableValue longList = .error (.longInteger (some 4301)) := by
  have hlower : ∀ t u : Text, u.head? ≠ some '[' → Text.lower ('[' :: t) ≠ u := by
    intro t u hu he
    have hhead : (Text.lower ('[' :: t)).head? = some '[' := rfl
    exact hu (he ▸ hhead)
  have hparse : Json.parse longList = .error (.longInteger 4301) := Json.parse_ones (by decide)
  rw [longList] at hparse ⊢
  simp only [variableValue, hlower _ "true".toList (by decide), hlower _ "false".toList (by decide),
    hparse, if_false, List.head?_cons, true_or, if_true]

/-- A value that cannot be read is a failure, though its text could be kept, and it comes before the
failure of a section that is no table. -/
theorem applyEnvironment_longList :
    Addresses "PREPROC_A_B".toList ['a'] ['b'] ∧ Refuses [(['a'], .int 5)] ['a'] ∧
      applyEnvironment [(['a'], .int 5)] [("PREPROC_A_B".toList, longList)] =
        .error (.longInteger (some 4301)) ∧
      applyEnvironment [] [("PREPROC_A_B".toList, longList)] =
        .error (.longInteger (some 4301)) := by
  have haddr : address? "PREPROC_A_B".toList = some (['a'], ['b']) := by decide
  refine ⟨address?_eq_some_iff.1 haddr, ⟨_, rfl, rfl⟩, ?_, ?_⟩
  · rw [applyEnvironment, haddr]
    simp only [variableValue_longList]
  · rw [applyEnvironment, haddr]
    simp only [variableValue_longList]

end Config
end Splice
