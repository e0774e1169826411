import Splice.Path.Real
import Splice.Proofs.NormalPath
import Splice.Proofs.Walk

/-!
The real path of a file. Resolving a path spells out where it is, link by link, keeps the links that
are being resolved and those that are resolved, and sees a link only at a path that is short enough.
`Disk.Traces` says what it does where every link is seen. Then a link is never met while it is being
resolved, as it would take fewer links to resolve it than it takes, and what was noted of a link is
where the link is resolved to. If the path leads to a file, this is the place of the file.
-/

set_option autoImplicit false

namespace Splice

namespace Path

theorem cancel_concat_up (ns : List Text) :
    cancel true (ns ++ [up]) = (cancel true ns).dropLast := by
  have hnil : Calm true [] := trivial
  have hcalm := calm_foldl hnil ns
  rw [cancel, cancel, List.foldl_append, List.foldl_cons, List.foldl_nil, settle_up]
  cases hpast : ns.foldl (settle true) [] with
  | nil => rfl
  | cons last rest =>
    rw [hpast] at hcalm
    have hlast : last ≠ up := fun e => Bool.noConfusion (hcalm.2 e).1
    simp only [if_neg hlast, List.reverse_cons, List.dropLast_concat]

end Path

namespace Route

def parts (steps : List Text) : List Text := steps.filter fun s => s ≠ [] ∧ s ≠ ['.']

def next (r : Route) (n : Text) : Route := { r with names := r.names ++ [n] }

def start (r : Route) (t : Text) : Route := if t.head? = some '/' then ⟨1, []⟩ else r

def Spelled (r : Route) : Prop := ofText r.text = r

variable {r r' : Route} {n n' : Text} {rest : List Text}

theorem parts_cons_blank (h : n = [] ∨ n = ['.']) : parts (n :: rest) = parts rest := by
  have hn : ¬(n ≠ [] ∧ n ≠ ['.']) := fun hn => h.elim hn.1 hn.2
  exact List.filter_cons_of_neg fun h => hn (of_decide_eq_true h)

theorem parts_cons (h : ¬(n = [] ∨ n = ['.'])) : parts (n :: rest) = n :: parts rest := by
  have hn : n ≠ [] ∧ n ≠ ['.'] := not_or.1 h
  exact List.filter_cons_of_pos (decide_eq_true hn)

theorem parts_pieces (t : Text) : parts (Text.pieces '/' t) = namesOf t := rfl

theorem parts_linkSteps (target : Text) : parts (Tree.linkSteps target) = namesOf target := by
  have hslash : parts (if target.getLast? = some '/' then [[]] else []) = [] := by
    split <;> rfl
  rw [parts] at hslash
  rw [parts, Tree.linkSteps, List.filter_append, hslash, List.append_nil, List.filter_filter,
    namesOf]
  refine List.filter_congr fun s _ => ?_
  by_cases hs : s = [] <;> simp [hs]

theorem next_inj (h : r.next n = r'.next n') : r = r' ∧ n = n' := by
  obtain ⟨slashes, names⟩ := r
  obtain ⟨slashes', names'⟩ := r'
  obtain ⟨rfl, hnames⟩ := Route.mk.inj h
  obtain ⟨rfl, hn⟩ := List.append_inj' hnames rfl
  exact ⟨rfl, List.singleton_inj.1 hn⟩

theorem Spelled.isName (h : r.Spelled) (hn : n ∈ r.names) : IsName n := by
  rw [← h] at hn
  exact isName_of_mem_namesOf hn

theorem Spelled.parts_text (h : r.Spelled) : parts (Text.pieces '/' r.text) = r.names :=
  congrArg names h

theorem head?_text (hs : r.slashes = 0) (hn : ∀ n ∈ r.names, IsName n) :
    r.text.head? ≠ some '/' := by
  rw [text]
  split
  · decide
  · rw [hs]
    exact head?_join_names hn

theorem head?_text_eq (hs : r.slashes ≠ 0) : r.text.head? = some '/' := by
  obtain ⟨k, hk⟩ : ∃ k, r.slashes = k + 1 := ⟨r.slashes - 1, by omega⟩
  simp [text, hk, List.replicate_succ]

end Route

theorem Tree.Leads.parts {t : Tree} {p q : Place} {steps : List Text} {k : Nat}
    (h : t.Leads p steps k q) : t.Leads p (Route.parts steps) k q := by
  induction h with
  | done p => exact .done p
  | stay hn _ _ ih => rwa [Route.parts_cons_blank hn]
  | up hp _ ih =>
    rw [Route.parts_cons up_not_blank]
    exact .up hp ih
  | enter hn he hl _ ih =>
    rw [Route.parts_cons hn.not_blank]
    exact .enter hn he hl ih
  | link hn he ht _ _ ih =>
    rw [Route.parts_cons hn.not_blank]
    exact .link hn he ht ih

namespace Disk

/-- Names beyond a route are resolved to a route, and a number of links is followed on the way, each
of which is seen. -/
inductive Traces (d : Disk) : Route → List Text → Nat → Route → Prop
  | done (r : Route) : Traces d r [] 0 r
  | stay {r q : Route} {n : Text} {rest : List Text} {k : Nat} :
    n = [] ∨ n = ['.'] → Traces d r rest k q → Traces d r (n :: rest) k q
  | up {r q : Route} {rest : List Text} {k : Nat} :
    Traces d (above r) rest k q → Traces d r (Path.up :: rest) k q
  | enter {r q : Route} {n : Text} {rest : List Text} {k : Nat} :
    Tree.IsStep n → d.target? (r.next n) = none → Traces d (r.next n) rest k q →
      Traces d r (n :: rest) k q
  | link {r m q : Route} {n target : Text} {rest : List Text} {k l : Nat} :
    Tree.IsStep n → d.linkAt? (r.next n) = some target →
      Traces d (r.start target) (Text.pieces '/' target) k m → Traces d m rest l q →
      Traces d r (n :: rest) (k + l + 1) q

/-- No link that is met while a path is resolved is met at too long a path. -/
def Legible (d : Disk) (r : Route) : Prop :=
  ∃ k q, d.Traces (Route.start ⟨0, []⟩ r.text) (Text.pieces '/' r.text) k q

variable {d : Disk} {r q : Route} {p m : Place} {n target : Text} {steps : List Text} {k l : Nat}
  {known : Resolved} {ongoing : List Route}

theorem target?_of_linkAt? (h : d.linkAt? r = some target) : d.target? r = some target := by
  unfold linkAt? at h
  split at h
  · cases h
  · exact h

theorem linkAt?_eq_none (h : d.target? r = none) : d.linkAt? r = none := by
  rw [linkAt?, h, ite_self]

theorem Traces.unique {q' : Route} (h : d.Traces r steps k q) (h' : d.Traces r steps l q') :
    k = l ∧ q = q' := by
  induction h generalizing l q' with
  | done r =>
    cases h'
    exact ⟨rfl, rfl⟩
  | stay hn _ ih =>
    cases h' with
    | stay _ h' => exact ih h'
    | up _ => exact absurd hn Tree.up_not_blank
    | enter hn' _ _ => exact absurd hn hn'.not_blank
    | link hn' _ _ _ => exact absurd hn hn'.not_blank
  | up _ ih =>
    cases h' with
    | stay hn' _ => exact absurd hn' Tree.up_not_blank
    | up h' => exact ih h'
    | enter hn' _ _ => exact absurd rfl hn'.ne_up
    | link hn' _ _ _ => exact absurd rfl hn'.ne_up
  | enter hn ht _ ih =>
    cases h' with
    | stay hn' _ => exact absurd hn' hn.not_blank
    | up _ => exact absurd rfl hn.ne_up
    | enter _ _ h' => exact ih h'
    | link _ ht' _ _ => cases ht.symm.trans (target?_of_linkAt? ht')
  | link hn ht _ _ ih₁ ih₂ =>
    cases h' with
    | stay hn' _ => exact absurd hn' hn.not_blank
    | up _ => exact absurd rfl hn.ne_up
    | enter _ ht' _ => cases ht'.symm.trans (target?_of_linkAt? ht)
    | link _ ht' h₁ h₂ =>
      cases ht.symm.trans ht'
      obtain ⟨rfl, rfl⟩ := ih₁ h₁
      obtain ⟨rfl, rfl⟩ := ih₂ h₂
      exact ⟨rfl, rfl⟩

def Redirects (d : Disk) (s : Route) (k : Nat) (q : Route) : Prop :=
  ∃ (r : Route) (n target : Text), s = r.next n ∧ d.linkAt? s = some target ∧
    d.Traces (r.start target) (Text.pieces '/' target) k q

theorem Redirects.unique {q' : Route} (h : d.Redirects r k q) (h' : d.Redirects r l q') :
    k = l ∧ q = q' := by
  obtain ⟨s, n, target, rfl, ht, h⟩ := h
  obtain ⟨s', n', target', hs, ht', h'⟩ := h'
  obtain ⟨rfl, rfl⟩ := Route.next_inj hs
  cases ht.symm.trans ht'
  exact h.unique h'

def Faithful (d : Disk) (known : Resolved) : Prop :=
  ∀ r q, Keyed.get? r known = some q → ∃ k, d.Redirects r k q

theorem Faithful.put (h : d.Faithful known) (hr : d.Redirects r k q) :
    d.Faithful (Keyed.put r q known) := by
  intro r' q' hget
  rw [Keyed.get?_put] at hget
  split at hget
  · rename_i hrr
    cases hget
    exact ⟨k, hrr ▸ hr⟩
  · exact h r' q' hget

/-- The links that are being resolved take no fewer links by themselves. -/
def Within (d : Disk) (ongoing : List Route) (k : Nat) : Prop :=
  ∀ o ∈ ongoing, ∃ l q, d.Redirects o l q ∧ k ≤ l

theorem Within.mono (h : d.Within ongoing k) (hl : l ≤ k) : d.Within ongoing l := by
  intro o ho
  obtain ⟨l', q, hr, hle⟩ := h o ho
  exact ⟨l', q, hr, by omega⟩

/-- A link that is being resolved is not met again, as it would take fewer links than it takes. -/
theorem Within.not_mem (h : d.Within ongoing l) (hr : d.Redirects r k q) (hk : k < l) :
    r ∉ ongoing := by
  intro hm
  obtain ⟨l', q', hr', hle⟩ := h r hm
  obtain ⟨rfl, -⟩ := hr.unique hr'
  omega

section Trace

variable {follow : List Route → Resolved → Route → Text → Except Snag (Route × Resolved)}
  {rest : List Text}

theorem traceWith_blank (h : n = [] ∨ n = ['.']) :
    d.traceWith follow ongoing known r (n :: rest) = d.traceWith follow ongoing known r rest := by
  rw [traceWith, if_pos h]

theorem traceWith_up :
    d.traceWith follow ongoing known r (Path.up :: rest) =
      d.traceWith follow ongoing known (above r) rest := by
  rw [traceWith, if_neg Tree.up_not_blank, if_pos rfl]

theorem traceWith_plain (hn : Tree.IsStep n) (hl : d.linkAt? (r.next n) = none) :
    d.traceWith follow ongoing known r (n :: rest) =
      d.traceWith follow ongoing known (r.next n) rest := by
  simp only [Route.next] at hl
  rw [traceWith, if_neg hn.not_blank, if_neg hn.ne_up]
  simp only [hl]
  rfl

theorem traceWith_known (hn : Tree.IsStep n) (hl : d.linkAt? (r.next n) = some target)
    (hk : Keyed.get? (r.next n) known = some q) :
    d.traceWith follow ongoing known r (n :: rest) = d.traceWith follow ongoing known q rest := by
  simp only [Route.next] at hl hk
  rw [traceWith, if_neg hn.not_blank, if_neg hn.ne_up]
  simp only [hl, hk]

theorem traceWith_link {known' : Resolved} (hn : Tree.IsStep n)
    (hl : d.linkAt? (r.next n) = some target) (hk : Keyed.get? (r.next n) known = none)
    (ho : r.next n ∉ ongoing)
    (hf : follow (r.next n :: ongoing) known r target = .ok (q, known')) :
    d.traceWith follow ongoing known r (n :: rest) =
      d.traceWith follow ongoing (Keyed.put (r.next n) q known') q rest := by
  simp only [Route.next] at hl hk ho hf
  rw [traceWith, if_neg hn.not_blank, if_neg hn.ne_up]
  simp only [hl, hk, if_neg ho, hf]
  rfl

end Trace

theorem Traces.traceWith_eq (h : d.Traces r steps k q) :
    ∀ {depth : Nat} {ongoing : List Route} {known : Resolved}, k ≤ depth → d.Faithful known →
      d.Within ongoing k →
      ∃ known', d.traceWith (d.trace depth) ongoing known r steps = .ok (q, known') ∧
        d.Faithful known' := by
  induction h with
  | done r =>
    intro depth ongoing known _ hknown _
    exact ⟨known, rfl, hknown⟩
  | stay hn _ ih =>
    intro depth ongoing known hk hknown hongoing
    rw [traceWith_blank hn]
    exact ih hk hknown hongoing
  | up _ ih =>
    intro depth ongoing known hk hknown hongoing
    rw [traceWith_up]
    exact ih hk hknown hongoing
  | enter hn ht _ ih =>
    intro depth ongoing known hk hknown hongoing
    rw [traceWith_plain hn (linkAt?_eq_none ht)]
    exact ih hk hknown hongoing
  | @link r m q n target rest k l hn ht h₁ _ ih₁ ih₂ =>
    intro depth ongoing known hk hknown hongoing
    have hr : d.Redirects (r.next n) k m := ⟨r, n, target, rfl, ht, h₁⟩
    have hrest : d.Within ongoing l := hongoing.mono (by omega)
    cases hget : Keyed.get? (r.next n) known with
    | some m' =>
      -- The link was resolved before, to the same route.
      obtain ⟨k', hr'⟩ := hknown _ m' hget
      obtain ⟨-, rfl⟩ := hr.unique hr'
      rw [traceWith_known hn ht hget]
      exact ih₂ (by omega) hknown hrest
    | none =>
      obtain ⟨depth, rfl⟩ : ∃ j, depth = j + 1 := ⟨depth - 1, by omega⟩
      have hnew : r.next n ∉ ongoing := hongoing.not_mem hr (by omega)
      -- What its target takes is all that the link takes, so the bound stays tight inside it.
      have hinside : d.Within (r.next n :: ongoing) k :=
        List.forall_mem_cons.2 ⟨⟨k, m, hr, Nat.le_refl k⟩, hongoing.mono (by omega)⟩
      have hdepth : k ≤ depth := by omega
      obtain ⟨known', htrace, hknown'⟩ := ih₁ hdepth hknown hinside
      rw [traceWith_link hn ht hget hnew htrace]
      exact ih₂ (by omega) (hknown'.put hr) hrest

/-- A route by which links are resolved stands for a place. -/
structure At (d : Disk) (r : Route) (p : Place) : Prop where
  slashes : r.slashes ≤ 1
  names : ∀ n ∈ r.names, Route.IsName n
  place : Path.cancel true (d.origin r ++ r.names) = p

theorem At.up (h : d.At r p) : d.At (above r) p.dropLast := by
  have hup : Route.IsName Path.up := ⟨by decide, by decide, by decide⟩
  refine ⟨h.slashes, ?_, ?_⟩
  · intro n hn
    rcases Path.mem_settle (List.mem_reverse.1 hn) with rfl | hn
    · exact hup
    · exact h.names n (List.mem_reverse.1 hn)
  · have ho : d.origin (above r) = d.origin r := rfl
    rw [ho, ← h.place, above]
    simp only [Path.settle_up]
    obtain ⟨slashes, names⟩ := r
    -- Without a name to take back, a relative route is spelled with one more step up.
    rcases List.eq_nil_or_concat names with rfl | ⟨init, last, rfl⟩
    · by_cases ha : slashes = 0
      · simp [Route.isAbsolute, ha, Path.cancel_concat_up]
      · simp [Route.isAbsolute, ha, origin, Path.cancel]
    · by_cases hl : last = Path.up
      · simp [hl, Path.cancel_concat_up, ← List.append_assoc]
      · simp [hl, Path.cancel_concat _ _ hl, ← List.append_assoc]

theorem At.next (h : d.At r p) (hn : Tree.IsStep n) : d.At (r.next n) (p ++ [n]) := by
  refine ⟨h.slashes, ?_, ?_⟩
  · intro m hm
    rcases List.mem_append.1 hm with hm | hm
    · exact h.names m hm
    · exact List.mem_singleton.1 hm ▸ hn.isName
  · have ho : d.origin (r.next n) = d.origin r := rfl
    rw [ho, Route.next, ← List.append_assoc, Path.cancel_concat _ _ hn.ne_up, h.place]

theorem At.start (h : d.At r p) (target : Text) :
    d.At (r.start target) (Tree.linkStart p target) := by
  unfold Route.start Tree.linkStart
  split
  · exact ⟨Nat.le_refl 1, by simp, rfl⟩
  · exact h

theorem locate_ne_tooManyLinks
    (h : Tree.byteCount p.text < Tree.pathLimit → d.file? ⟨1, p⟩ = .ok (some p)) :
    d.locate ⟨1, p⟩ ≠ .error .tooManyLinks := by
  intro he
  by_cases hl : Tree.byteCount p.text < Tree.pathLimit
  · have hf := h hl
    rw [file?, he] at hf
    split at hf <;> cases hf
  · have hlong : d.locate ⟨1, p⟩ = .error .tooLong := if_pos (Nat.le_of_not_lt hl)
    cases he.symm.trans hlong

section Cwd

variable (hc : ∀ n ∈ d.cwd, Tree.IsStep n)

include hc

theorem ofText_join_cwd {t : Text} (ht : t.head? ≠ some '/') :
    Route.ofText (Path.join d.cwd.text t) = ⟨1, d.cwd ++ Route.namesOf t⟩ := by
  have hnames : ∀ n ∈ d.cwd, Route.IsName n := fun n hn => (hc n hn).isName
  have hcwd : Route.ofText d.cwd.text = ⟨1, d.cwd⟩ :=
    Route.ofText_text (r := ⟨1, d.cwd⟩) (Nat.le_succ 1) hnames
  rw [Route.ofText_join, hcwd, Route.append_ofText ht]

theorem At.absolute_eq (h : d.At r p) : d.absolute r.text = ⟨1, p⟩ := by
  have hr : Route.ofText r.text = r := Route.ofText_text (by have := h.slashes; omega) h.names
  have hjoin : Route.ofText (Path.join d.cwd.text r.text) = ⟨1, d.origin r ++ r.names⟩ := by
    by_cases hs : r.slashes = 0
    · have ho : d.origin r = d.cwd := by simp [origin, Route.isAbsolute, hs]
      have hnames : Route.namesOf r.text = r.names := congrArg Route.names hr
      rw [ofText_join_cwd hc (Route.head?_text hs h.names), hnames, ho]
    · have hs' : r.slashes = 1 := by have := h.slashes; omega
      have ho : d.origin r = [] := by simp [origin, Route.isAbsolute, hs]
      have hhead : r.text.head? = some '/' := Route.head?_text_eq hs
      obtain ⟨slashes, names⟩ := r
      rw [Path.join, if_pos hhead, hr, ho, List.nil_append]
      exact congrArg (Route.mk · names) hs'
  have hleading := congrArg Route.slashes hjoin
  have hnames := congrArg Route.names hjoin
  simp only [Route.ofText] at hleading hnames
  rw [absolute, Path.ofText_normal, hjoin, hleading, hnames]
  exact congrArg (Route.mk 1) h.place

theorem At.target?_eq_some (h : d.At r p) (he : d.tree.node? p = some (.link target)) :
    d.target? r = some target := by
  simp only [target?, h.absolute_eq hc, he]

theorem At.target?_eq_none {e : Entry} (h : d.At r p) (he : d.tree.node? p = some e)
    (hl : ∀ target, e ≠ .link target) : d.target? r = none := by
  cases e with
  | file b => simp only [target?, h.absolute_eq hc, he]
  | directory => simp only [target?, h.absolute_eq hc, he]
  | link target => exact absurd rfl (hl target)

theorem at_origin (hn : ∀ n ∈ r.names, Route.IsName n) :
    d.At (Route.start ⟨0, []⟩ r.text) (d.origin r) := by
  unfold Route.start
  by_cases hs : r.slashes = 0
  · have ho : d.origin r = d.cwd := by simp [origin, Route.isAbsolute, hs]
    have hup : Path.up ∉ d.cwd := fun hm => (hc _ hm).ne_up rfl
    rw [if_neg (Route.head?_text hs hn), ho]
    refine ⟨Nat.zero_le 1, by simp, ?_⟩
    have ho' : d.origin ⟨0, []⟩ = d.cwd := rfl
    rw [ho', List.append_nil, Path.cancel_of_not_mem hup]
  · have ho : d.origin r = [] := by simp [origin, Route.isAbsolute, hs]
    rw [if_pos (Route.head?_text_eq hs), ho]
    exact ⟨Nat.le_refl 1, by simp, rfl⟩

/-- Names that lead to a place trace to a route for that place. -/
theorem Traces.at_of_leads (h : d.Traces r steps k q) (hr : d.At r p)
    (hl : d.tree.Leads p (Route.parts steps) l m) : k = l ∧ d.At q m := by
  induction h generalizing p l m with
  | done r =>
    cases hl
    exact ⟨rfl, hr⟩
  | stay hn _ ih =>
    rw [Route.parts_cons_blank hn] at hl
    exact ih hr hl
  | up _ ih =>
    rw [Route.parts_cons Tree.up_not_blank] at hl
    cases hl with
    | stay hn _ _ => exact absurd hn Tree.up_not_blank
    | up _ hl => exact ih hr.up hl
    | enter hn _ _ _ => exact absurd rfl hn.ne_up
    | link hn _ _ _ => exact absurd rfl hn.ne_up
  | enter hn ht _ ih =>
    rw [Route.parts_cons hn.not_blank] at hl
    cases hl with
    | stay hn' _ _ => exact absurd hn' hn.not_blank
    | up _ _ => exact absurd rfl hn.ne_up
    | enter _ _ _ hl => exact ih (hr.next hn) hl
    | link _ he _ _ =>
      rw [(hr.next hn).target?_eq_some hc he] at ht
      cases ht
  | @link r m' q n target rest k l' hn ht _ _ ih₁ ih₂ =>
    have htarget := target?_of_linkAt? ht
    rw [Route.parts_cons hn.not_blank] at hl
    cases hl with
    | stay hn' _ _ => exact absurd hn' hn.not_blank
    | up _ _ => exact absurd rfl hn.ne_up
    | enter _ he hlink _ =>
      rw [(hr.next hn).target?_eq_none hc he hlink] at htarget
      cases htarget
    | link _ he h₁ h₂ =>
      rw [(hr.next hn).target?_eq_some hc he] at htarget
      cases htarget
      have hsteps := h₁.parts
      rw [Route.parts_linkSteps, ← Route.parts_pieces] at hsteps
      obtain ⟨rfl, hm⟩ := ih₁ (hr.start target) hsteps
      obtain ⟨rfl, hq⟩ := ih₂ hm h₂
      exact ⟨rfl, hq⟩

theorem exists_traces (hr : d.At r p) (hl : d.tree.Leads p (Route.parts steps) 0 m) :
    ∃ q, d.Traces r steps 0 q := by
  induction steps generalizing p r with
  | nil => exact ⟨r, .done r⟩
  | cons n rest ih =>
    by_cases hblank : n = [] ∨ n = ['.']
    · rw [Route.parts_cons_blank hblank] at hl
      obtain ⟨q, hq⟩ := ih hr hl
      exact ⟨q, .stay hblank hq⟩
    rw [Route.parts_cons hblank] at hl
    cases hl with
    | stay hn _ _ => exact absurd hn hblank
    | up _ hl =>
      obtain ⟨q, hq⟩ := ih hr.up hl
      exact ⟨q, .up hq⟩
    | enter hn he hlink hl =>
      obtain ⟨q, hq⟩ := ih (hr.next hn) hl
      exact ⟨q, .enter hn ((hr.next hn).target?_eq_none hc he hlink) hq⟩

theorem legible_of_leads (hr : r.Spelled) (hl : d.tree.Leads (d.origin r) r.names 0 m) :
    d.Legible r := by
  rw [← hr.parts_text] at hl
  obtain ⟨q, hq⟩ := exists_traces hc (at_origin hc fun n => hr.isName) hl
  exact ⟨0, q, hq⟩

theorem real_eq (hr : r.Spelled) (hz : hasZero r = false) (hlegible : d.Legible r)
    (hl : d.tree.Leads (d.origin r) r.names k p) (hk : k ≤ Tree.linkLimit)
    (hfile : Tree.byteCount p.text < Tree.pathLimit → d.file? ⟨1, p⟩ = .ok (some p)) :
    d.real r = .ok ⟨1, p⟩ := by
  obtain ⟨l, q, htraces⟩ := hlegible
  rw [← hr.parts_text] at hl
  obtain ⟨rfl, hq⟩ := htraces.at_of_leads hc (at_origin hc fun n => hr.isName) hl
  have hdepth : l ≤ 988 := Nat.le_trans hk (by decide)
  have hempty : d.Faithful [] := fun r q hget => by cases hget
  have hnone : d.Within [] l := fun o ho => by cases ho
  obtain ⟨known, htrace, -⟩ := htraces.traceWith_eq hdepth hempty hnone
  have hroute : d.trace depthLimit [] [] ⟨0, []⟩ r.text = .ok (q, known) := htrace
  -- The path is looked up once more at its end, and is no loop.
  have hend : d.locate ⟨1, p⟩ ≠ .error .tooManyLinks := locate_ne_tooManyLinks hfile
  rw [real, hz, hroute]
  simp only [hq.absolute_eq hc]
  exact if_neg Bool.false_ne_true

end Cwd
end Disk
end Splice
