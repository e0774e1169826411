import Splice.Program
import Splice.Proofs.WrittenFiles

/-!
What commands do to a disk. Up to its first write a command only finds things out, and what it finds
out depends on the machine alone. A build then writes its text, and after that its rule. Each of the
two writes fails before it touches the disk, or makes its file, or leaves the file empty because the
text has no bytes in the encoding. What is printed comes last, and a line that the console cannot
show is a failure too.
-/

set_option autoImplicit false

namespace Splice.Program

open CommandLine (Argument Command Invocation Job)

variable {α β : Type}

theorem run_bind (x : Action α) (f : α → Action β) (p : Progress) :
    (x >>= f).run p = match x.run p with
      | (.ok a, p) => (f a).run p
      | (.error e, p) => (.error e, p) := by
  have h : (x >>= f).run p = ExceptT.bindCont f (x.run p).1 (x.run p).2 := rfl
  rw [h]
  rcases x.run p with ⟨r, p⟩
  cases r <;> rfl

theorem canShow_line (c : Console) (l : Text) : c.canShow (l ++ ['\n']) = c.canShow l := by
  have h : c.shows '\n' = true := c.shows_ascii _ (by decide)
  simp [Console.canShow, h]

theorem say_run (c : Console) (ls : List Text) (p : Progress) :
    (say c ls).run p =
      (if ls.all c.canShow then .ok () else .error .unencodable,
        ⟨p.disk, p.events, p.output ++ printed (ls.takeWhile c.canShow)⟩) := by
  induction ls generalizing p with
  | nil => simp only [say, printed, List.takeWhile_nil, List.flatMap_nil, List.append_nil]; rfl
  | cons l ls ih =>
    rw [say, run_bind, put, canShow_line]
    cases hl : c.canShow l with
    | false =>
      simp only [List.all_cons, hl, List.takeWhile_cons, printed, Bool.false_and]
      simp only [Bool.false_eq_true, if_false, List.flatMap_nil, List.append_nil]
      rfl
    | true =>
      have hput : (modify fun p => { p with output := p.output ++ (l ++ ['\n']) } :
          Action Unit).run p = (.ok (), ⟨p.disk, p.events, p.output ++ (l ++ ['\n'])⟩) := rfl
      rw [if_pos rfl, hput]
      simp only [ih, List.all_cons, hl, List.takeWhile_cons, printed, Bool.true_and]
      simp [List.append_assoc]

theorem lift_ok (a : α) : (liftM (Except.ok a : Except Failure α) : Action α) = pure a := rfl

theorem lift_bind (x : Except Failure α) (f : α → Except Failure β) :
    (liftM (x >>= f) : Action β) = liftM x >>= fun a => liftM (f a) := by
  cases x <;> rfl

theorem ok_bind (a : α) (f : α → Except Failure β) : (Except.ok a >>= f) = f a := rfl

/-- The action writes and prints nothing, and its result does not depend on what was done before. -/
def Yields (x : Action α) (r : Except Failure α) : Prop :=
  ∀ p, ∃ events, x.run p = (r, ⟨p.disk, events, p.output⟩)

theorem yields_pure (a : α) : Yields (pure a) (.ok a) := fun p => ⟨p.events, rfl⟩

theorem yields_lift (r : Except Failure α) : Yields (liftM r) r := fun p => ⟨p.events, rfl⟩

theorem yields_report (events : List Event) : Yields (report events) (.ok ()) :=
  fun p => ⟨p.events ++ events, rfl⟩

theorem Yields.bind {x : Action α} {f : α → Action β} {r : Except Failure α}
    {g : α → Except Failure β} (hx : Yields x r) (hf : ∀ a, Yields (f a) (g a)) :
    Yields (x >>= f) (r >>= g) := by
  intro p
  obtain ⟨events, hp⟩ := hx p
  rw [run_bind, hp]
  cases r with
  | error e => exact ⟨events, rfl⟩
  | ok a => exact hf a ⟨p.disk, events, p.output⟩

theorem Yields.run_bind {x : Action α} {r : Except Failure α} (hx : Yields x r) (f : α → Action β)
    (p : Progress) :
    ∃ events, (x >>= f).run p = match r with
      | .ok a => (f a).run ⟨p.disk, events, p.output⟩
      | .error e => (.error e, ⟨p.disk, events, p.output⟩) := by
  obtain ⟨events, hp⟩ := hx p
  refine ⟨events, ?_⟩
  rw [Program.run_bind, hp]
  cases r <;> rfl

def built (m : Machine) (config : Value) (job : Job) : Except Failure Built :=
  (discover m.disk config (.list (job.paths.map valueOf)) (valueOf job.comment)
    (.ofSeed job.file)).result

theorem yields_discovered (m : Machine) (config : Value) (job : Job) :
    Yields (discovered m config job) (built m config job) :=
  (yields_report _).bind fun _ => yields_lift (built m config job)

def ruled (target : Text) (g : Graph) (config : Value) (start : Argument) :
    Except Failure Text := do
  let asked := match start with
    | .absent => none
    | a => some (valueOf a)
  let start ← Config.removedStart asked config
  let r ← Rule.makeBy target g.keys (start.getD .null)
  pure r.text

theorem yields_ruleFor (target : Text) (g : Graph) (config : Value) (start : Argument) :
    Yields (ruleFor target g config start) (ruled target g config start) :=
  (yields_lift _).bind fun _ => (yields_lift _).bind fun r =>
    (yields_report _).bind fun _ => yields_pure r.text

def outputRoute (job : Job) (output : Argument) (config : Value) : Except Failure Route :=
  match output with
  | .text t => .ok (.ofText t)
  | _ => Config.outputPath job.file config

/-- What a build has found out before it writes. -/
structure Draft where
  config : Value
  encoding : Value
  built : Built
  text : Text
  out : Route

def drafted (m : Machine) (i : Invocation) (job : Job) (output : Argument) :
    Except Failure Draft := do
  let config := Value.table (← configured m i.config)
  let encoding ←
    Config.setting "preprocess".toList "encoding".toList (.text "utf-8".toList) config
  let b ← built m config job
  let text ← b.graph.assemble
  let out ← outputRoute job output config
  pure ⟨config, encoding, b, text, out⟩

def draft (m : Machine) (i : Invocation) (job : Job) (output : Argument) : Action Draft := do
  let config := Value.table (← configured m i.config)
  let encoding ←
    Config.setting "preprocess".toList "encoding".toList (.text "utf-8".toList) config
  let b ← discovered m config job
  let text ← b.graph.assemble
  let out ← outputRoute job output config
  pure ⟨config, encoding, b, text, out⟩

theorem yields_draft (m : Machine) (i : Invocation) (job : Job) (output : Argument) :
    Yields (draft m i job output) (drafted m i job output) :=
  (yields_lift _).bind fun _ => (yields_lift _).bind fun _ =>
    (yields_discovered m _ job).bind fun _ => (yields_lift _).bind fun _ =>
      (yields_lift _).bind fun _ => yields_pure _

def produce (job : Job) (rule : Argument) (q : Draft) : Action Unit := do
  writeText q.out q.encoding q.text
  match rule with
    | .text t => do
      let r ← ruleFor q.out.text q.built.graph q.config job.start
      writeText (.ofText t) (.text "utf-8".toList) (r ++ ['\n'])
    | _ => pure ()

def announced (q : Draft) (rule : Argument) : List Text :=
  let written := match rule with
    | .text t => ["wrote dependencies to ".toList ++ (Route.ofText t).text]
    | _ => []
  q.built.graph.keys.map ("processed ".toList ++ ·) ++ written ++ ["wrote to ".toList ++ q.out.text]

def close (m : Machine) (i : Invocation) (ls : List Text) : Action Answer := do
  unless i.quiet do
    say m.console ls
  pure ⟨0, []⟩

def publish (m : Machine) (i : Invocation) (job : Job) (rule : Argument) (q : Draft) :
    Action Answer := do
  produce job rule q
  close m i (announced q rule)

variable {m : Machine} {i : Invocation} {job : Job} {output rule target : Argument} {q : Draft}
  {p : Progress} {a : Answer} {e : Failure} {arguments : List Text} {c : Command}
  {r : Route} {place : Place}

theorem of_drafted (h : drafted m i job output = .ok q) :
    ∃ config, configured m i.config = .ok config ∧ q.config = .table config ∧
      built m q.config job = .ok q.built ∧ outputRoute job output q.config = .ok q.out := by
  obtain ⟨config, hconfig, h⟩ := bind_eq_ok h
  obtain ⟨encoding, -, h⟩ := bind_eq_ok h
  obtain ⟨b, hbuilt, h⟩ := bind_eq_ok h
  obtain ⟨text, -, h⟩ := bind_eq_ok h
  obtain ⟨out, hout, h⟩ := bind_eq_ok h
  cases h
  exact ⟨config, hconfig, rfl, hbuilt, hout⟩

theorem build_eq (m : Machine) (i : Invocation) (job : Job) (output rule : Argument) :
    build m i job output rule = draft m i job output >>= publish m i job rule := by
  unfold build draft publish produce close announced outputRoute
  cases output <;> cases rule <;> simp only [bind_assoc, pure_bind, lift_ok]

theorem build_run (m : Machine) (i : Invocation) (job : Job) (output rule : Argument)
    (p : Progress) :
    ∃ events, (build m i job output rule).run p = match drafted m i job output with
      | .ok q => (publish m i job rule q).run ⟨p.disk, events, p.output⟩
      | .error e => (.error e, ⟨p.disk, events, p.output⟩) := by
  obtain ⟨events, hrun⟩ := (yields_draft m i job output).run_bind (publish m i job rule) p
  refine ⟨events, ?_⟩
  rw [build_eq, hrun]
  cases drafted m i job output <;> rfl

theorem writeBytes_run (r : Route) (bytes : List UInt8) (p : Progress) :
    (writeBytes r bytes).run p = (liftM (p.disk.write r bytes) >>= fun d =>
      modify fun p => { p with disk := d } : Action Unit).run p := rfl

theorem writeBytes_of_writes (h : p.disk.Writes r place) (bytes : List UInt8) :
    (writeBytes r bytes).run p = (.ok (), { p with disk := p.disk.fill place bytes }) := by
  rw [writeBytes_run, h.write_eq]
  rfl

theorem writeBytes_of_not_writes (h : ∀ place, ¬p.disk.Writes r place) (bytes : List UInt8) :
    ∃ e, (writeBytes r bytes).run p = (.error e, p) := by
  cases hw : p.disk.write r bytes with
  | error e =>
    refine ⟨e, ?_⟩
    rw [writeBytes_run, hw]
    rfl
  | ok d =>
    obtain ⟨place, hp, -⟩ := Disk.writes_of_write hw
    exact absurd hp (h place)

def encoded (encoding : Value) (t : Text) : Except Failure (List UInt8) :=
  match encoding with
  | .text name =>
    match Encoding.ofName? name with
    | none => .error (.unknownEncoding name)
    | some e =>
      match e.encode t with
      | none => .error .unencodable
      | some bytes => .ok bytes
  | _ => .error .mistyped

theorem encoded_utf8 (t : Text) :
    encoded (.text "utf-8".toList) t = .ok (Codec.Utf8.encode t) := by
  have h : Encoding.ofName? "utf-8".toList = some .utf8 := by decide
  simp only [encoded, h, Encoding.encode]

theorem writeText_eq {name : Text} (hz : '\x00' ∉ name) (r : Route) (t : Text) :
    writeText r (.text name) t = writeBytes r [] >>= fun _ =>
      liftM (encoded (.text name) t) >>= fun bytes => writeBytes r bytes := by
  unfold writeText encoded
  simp only [if_neg hz]
  cases Encoding.ofName? name with
  | none => rfl
  | some e =>
    dsimp only
    cases e.encode t <;> rfl

theorem writeText_of_writes {name : Text} (hz : '\x00' ∉ name) (h : p.disk.Writes r place)
    (t : Text) :
    (writeText r (.text name) t).run p = match encoded (.text name) t with
      | .ok bytes => (.ok (), { p with disk := p.disk.fill place bytes })
      | .error e => (.error e, { p with disk := p.disk.fill place [] }) := by
  rw [writeText_eq hz, run_bind, writeBytes_of_writes h]
  cases encoded (.text name) t with
  | error e => rfl
  | ok bytes =>
    -- The second write finds the file that the first one left empty.
    have hw : (p.disk.fill place []).Writes r place := h.fill h.isOpen []
    have hrun := writeBytes_of_writes (p := { p with disk := p.disk.fill place [] }) hw bytes
    rw [Disk.fill_fill] at hrun
    exact hrun

theorem writeText_of_unnamed {encoding : Value}
    (h : ∀ name, encoding = .text name → '\x00' ∈ name) (r : Route) (t : Text) :
    ∃ e, writeText r encoding t = throw e := by
  cases encoding with
  | text name => exact ⟨.zeroInName, by simp [writeText, h name rfl]⟩
  | _ => exact ⟨.mistyped, rfl⟩

/-- Writing a text fails before it touches the disk, or leaves a file with the bytes of the text, or
an empty one if there are no such bytes. -/
theorem writeText_cases (r : Route) (encoding : Value) (t : Text) (p : Progress) :
    (∃ e, (writeText r encoding t).run p = (.error e, p)) ∧
        (encoding = .text "utf-8".toList → ∀ place, ¬p.disk.Writes r place) ∨
      ∃ place, p.disk.Writes r place ∧
        (writeText r encoding t).run p = match encoded encoding t with
          | .ok bytes => (.ok (), { p with disk := p.disk.fill place bytes })
          | .error e => (.error e, { p with disk := p.disk.fill place [] }) := by
  by_cases hn : ∀ name, encoding = .text name → '\x00' ∈ name
  · obtain ⟨e, he⟩ := writeText_of_unnamed hn r t
    refine .inl ⟨⟨e, he ▸ rfl⟩, fun h => ?_⟩
    exact absurd (hn _ h) (by decide)
  · obtain ⟨name, rfl, hz⟩ : ∃ name, encoding = .text name ∧ '\x00' ∉ name := by simpa using hn
    by_cases hw : ∃ place, p.disk.Writes r place
    · obtain ⟨place, hw⟩ := hw
      exact .inr ⟨place, hw, writeText_of_writes hz hw t⟩
    · have hw : ∀ place, ¬p.disk.Writes r place := fun place h => hw ⟨place, h⟩
      obtain ⟨e, he⟩ := writeBytes_of_not_writes hw []
      refine .inl ⟨⟨e, ?_⟩, fun _ => hw⟩
      rw [writeText_eq hz, run_bind, he]

inductive Publishes (d : Disk) (job : Job) (q : Draft) : Argument → Disk → Prop
  | alone {rule : Argument} {place : Place} {bytes : List UInt8} :
    (∀ t, rule ≠ .text t) → d.Writes q.out place → encoded q.encoding q.text = .ok bytes →
      Publishes d job q rule (d.fill place bytes)
  | withRule {t : Text} {place place' : Place} {bytes : List UInt8} {r : Text} :
    d.Writes q.out place → encoded q.encoding q.text = .ok bytes →
      ruled q.out.text q.built.graph q.config job.start = .ok r →
      (d.fill place bytes).Writes (.ofText t) place' →
      Publishes d job q (.text t)
        ((d.fill place bytes).fill place' (Codec.Utf8.encode (r ++ ['\n'])))

/-- The disk that a build leaves if it fails in its writes or in what it prints after them. -/
inductive Breaks (m : Machine) (i : Invocation) (job : Job) (q : Draft) : Argument → Disk → Prop
  | untouched {rule : Argument} : Breaks m i job q rule m.disk
  | emptied {rule : Argument} {place : Place} {e : Failure} :
    m.disk.Writes q.out place → encoded q.encoding q.text = .error e →
      Breaks m i job q rule (m.disk.fill place [])
  | unruled {t : Text} {place : Place} {bytes : List UInt8} {e : Failure} :
    m.disk.Writes q.out place → encoded q.encoding q.text = .ok bytes →
      ruled q.out.text q.built.graph q.config job.start = .error e →
      Breaks m i job q (.text t) (m.disk.fill place bytes)
  | unwritten {t : Text} {place : Place} {bytes : List UInt8} :
    m.disk.Writes q.out place → encoded q.encoding q.text = .ok bytes →
      (∀ place', ¬(m.disk.fill place bytes).Writes (.ofText t) place') →
      Breaks m i job q (.text t) (m.disk.fill place bytes)
  | unsaid {rule : Argument} {d : Disk} {l : Text} :
    Publishes m.disk job q rule d → i.quiet = false → l ∈ announced q rule →
      m.console.canShow l = false → Breaks m i job q rule d

theorem produce_cases (job : Job) (rule : Argument) (q : Draft) (events : List Event)
    (out : Text) :
    (∃ d events', (produce job rule q).run ⟨m.disk, events, out⟩ = (.ok (), ⟨d, events', out⟩) ∧
        Publishes m.disk job q rule d) ∨
      ∃ e d events', (produce job rule q).run ⟨m.disk, events, out⟩ =
        (.error e, ⟨d, events', out⟩) ∧ Breaks m i job q rule d := by
  unfold produce
  rw [run_bind]
  obtain ⟨⟨e, hrun⟩, -⟩ | ⟨place, hw, hrun⟩ :=
    writeText_cases q.out q.encoding q.text ⟨m.disk, events, out⟩
  · rw [hrun]
    exact .inr ⟨e, m.disk, events, rfl, .untouched⟩
  rw [hrun]
  cases henc : encoded q.encoding q.text with
  | error e => exact .inr ⟨e, _, events, rfl, .emptied hw henc⟩
  | ok bytes =>
    cases rule with
    | absent => exact .inl ⟨_, events, rfl, .alone (by simp) hw henc⟩
    | blank => exact .inl ⟨_, events, rfl, .alone (by simp) hw henc⟩
    | text t =>
      -- Making the rule leaves the disk alone, so the second write starts where the first ended.
      obtain ⟨events', hrule⟩ :=
        (yields_ruleFor q.out.text q.built.graph q.config job.start).run_bind
        (fun r => writeText (.ofText t) (.text "utf-8".toList) (r ++ ['\n']))
        ⟨m.disk.fill place bytes, events, out⟩
      dsimp only
      rw [hrule]
      cases hr : ruled q.out.text q.built.graph q.config job.start with
      | error e => exact .inr ⟨e, _, events', rfl, .unruled hw henc hr⟩
      | ok r =>
        obtain ⟨⟨e, hrun⟩, hno⟩ | ⟨place', hw', hrun⟩ := writeText_cases (.ofText t)
          (.text "utf-8".toList) (r ++ ['\n']) ⟨m.disk.fill place bytes, events', out⟩
        · exact .inr ⟨e, _, events', hrun, .unwritten hw henc (hno rfl)⟩
        · rw [encoded_utf8] at hrun
          exact .inl ⟨_, events', hrun, .withRule hw henc hr hw'⟩

theorem close_run (m : Machine) (i : Invocation) (ls : List Text) (p : Progress) :
    (∃ out, (close m i ls).run p = (.ok ⟨0, []⟩, { p with output := out }) ∧
        (i.quiet = false → ∀ l ∈ ls, m.console.canShow l)) ∨
      ∃ out l, (close m i ls).run p = (.error .unencodable, { p with output := out }) ∧
        i.quiet = false ∧ l ∈ ls ∧ m.console.canShow l = false := by
  unfold close
  cases i.quiet with
  | true => exact .inl ⟨p.output, rfl, fun h => absurd h (by decide)⟩
  | false =>
    have hsay := say_run m.console ls p
    simp only [Bool.false_eq_true, if_false]
    rw [run_bind, hsay]
    cases hall : ls.all m.console.canShow with
    | true => exact .inl ⟨_, rfl, fun _ => List.all_eq_true.1 hall⟩
    | false =>
      obtain ⟨l, hl, hno⟩ := List.all_eq_false.1 hall
      exact .inr ⟨_, l, rfl, trivial, hl, by simpa using hno⟩

theorem publish_cases (m : Machine) (i : Invocation) (job : Job) (rule : Argument) (q : Draft)
    (events : List Event) :
    (∃ p, (publish m i job rule q).run ⟨m.disk, events, []⟩ = (.ok ⟨0, []⟩, p) ∧
        Publishes m.disk job q rule p.disk ∧
        (i.quiet = false → ∀ l ∈ announced q rule, m.console.canShow l)) ∨
      ∃ e p, (publish m i job rule q).run ⟨m.disk, events, []⟩ = (.error e, p) ∧
        Breaks m i job q rule p.disk := by
  rw [publish, run_bind]
  obtain ⟨d, events', hrun, hd⟩ | ⟨e, d, events', hrun, hd⟩ :=
    produce_cases (m := m) (i := i) job rule q events []
  · rw [hrun]
    obtain ⟨out, hclose, hshown⟩ | ⟨out, l, hclose, hquiet, hl, hno⟩ :=
      close_run m i (announced q rule) ⟨d, events', []⟩
    · exact .inl ⟨_, hclose, hd, hshown⟩
    · exact .inr ⟨_, _, hclose, .unsaid hd hquiet hl hno⟩
  · rw [hrun]
    exact .inr ⟨e, _, rfl, hd⟩

theorem run_of_read (hread : CommandLine.read arguments = .ok i) (hc : i.command = some c) :
    run m arguments = carryOut m i c := by
  simp only [run, hread, hc]

theorem carryOut_of_ok (h : (perform m i c).run ⟨m.disk, [], []⟩ = (.ok a, p)) :
    (carryOut m i c).status = .ok a.code ∧ (carryOut m i c).output = p.output ∧
      (carryOut m i c).disk = p.disk := by
  rw [carryOut, h]
  exact ⟨rfl, rfl, rfl⟩

theorem carryOut_of_error (h : (perform m i c).run ⟨m.disk, [], []⟩ = (.error e, p)) :
    (carryOut m i c).status = (if i.verbose then .error e else .ok 1) ∧
      (carryOut m i c).disk = p.disk := by
  rw [carryOut, h]
  cases i.verbose <;> exact ⟨rfl, rfl⟩

theorem carryOut_ne_zero (h : (perform m i c).run ⟨m.disk, [], []⟩ = (.error e, p)) :
    (carryOut m i c).status ≠ .ok 0 ∧ (carryOut m i c).disk = p.disk := by
  obtain ⟨hstatus, hdisk⟩ := carryOut_of_error h
  refine ⟨?_, hdisk⟩
  rw [hstatus]
  cases i.verbose <;> simp

/-- A build ends well with its writes made and its lines printed, or fails before its writes, in
them, or after them. -/
theorem carryOut_build (m : Machine) (i : Invocation) (job : Job) (output rule : Argument) :
    (∃ q, drafted m i job output = .ok q ∧
        (carryOut m i (.build job output rule)).status = .ok 0 ∧
        Publishes m.disk job q rule (carryOut m i (.build job output rule)).disk ∧
        (i.quiet = false → ∀ l ∈ announced q rule, m.console.canShow l)) ∨
      (carryOut m i (.build job output rule)).status ≠ .ok 0 ∧
        ((carryOut m i (.build job output rule)).disk = m.disk ∨
          ∃ q, drafted m i job output = .ok q ∧
            Breaks m i job q rule (carryOut m i (.build job output rule)).disk) := by
  obtain ⟨events, hrun⟩ := build_run m i job output rule ⟨m.disk, [], []⟩
  cases hq : drafted m i job output with
  | error e =>
    rw [hq] at hrun
    obtain ⟨hstatus, hdisk⟩ := carryOut_ne_zero (c := .build job output rule) hrun
    exact .inr ⟨hstatus, .inl hdisk⟩
  | ok q =>
    rw [hq] at hrun
    obtain ⟨p, hpub, hd, hshown⟩ | ⟨e, p, hpub, hd⟩ := publish_cases m i job rule q events
    · obtain ⟨hstatus, -, hdisk⟩ := carryOut_of_ok (c := .build job output rule) (hrun.trans hpub)
      exact .inl ⟨q, rfl, hstatus, hdisk ▸ hd, hshown⟩
    · obtain ⟨hstatus, hdisk⟩ := carryOut_ne_zero (c := .build job output rule) (hrun.trans hpub)
      exact .inr ⟨hstatus, .inr ⟨q, rfl, hdisk ▸ hd⟩⟩

def targetText (job : Job) (target : Argument) (config : Value) : Except Failure Text :=
  match target with
  | .text (c :: t) => .ok (c :: t)
  | _ => do
    let out ← Config.outputPath job.file config
    pure out.text

def explained (m : Machine) (i : Invocation) (job : Job) (target : Argument) :
    Except Failure Text := do
  let config := Value.table (← configured m i.config)
  let b ← built m config job
  let target ← targetText job target config
  ruled target b.graph config job.start

def explain (m : Machine) (i : Invocation) (job : Job) (target : Argument) : Action Text := do
  let config := Value.table (← configured m i.config)
  let b ← discovered m config job
  let target ← targetText job target config
  ruleFor target b.graph config job.start

theorem yields_explain (m : Machine) (i : Invocation) (job : Job) (target : Argument) :
    Yields (explain m i job target) (explained m i job target) :=
  (yields_lift _).bind fun _ => (yields_discovered m _ job).bind fun _ =>
    (yields_lift _).bind fun _ => yields_ruleFor _ _ _ _

theorem deps_eq (m : Machine) (i : Invocation) (job : Job) (target : Argument) :
    deps m i job target = explain m i job target >>= fun r =>
      say m.console [r] >>= fun _ => pure ⟨0, []⟩ := by
  have lift_pure (t : Text) : (liftM (pure t : Except Failure Text) : Action Text) = pure t := rfl
  unfold deps explain targetText
  rcases target with _ | _ | _ | ⟨c, t⟩ <;>
    simp only [bind_assoc, pure_bind, lift_ok, lift_bind, lift_pure]

theorem carryOut_deps {r : Text} (h : explained m i job target = .ok r)
    (hr : m.console.canShow r) :
    (carryOut m i (.deps job target)).status = .ok 0 ∧
      (carryOut m i (.deps job target)).output = r ++ ['\n'] := by
  obtain ⟨events, hrun⟩ := (yields_explain m i job target).run_bind
    (fun r => say m.console [r] >>= fun _ => (pure ⟨0, []⟩ : Action Answer)) ⟨m.disk, [], []⟩
  rw [← deps_eq, h] at hrun
  dsimp only at hrun
  rw [run_bind, say_run] at hrun
  simp only [List.all_cons, List.all_nil, List.takeWhile_cons, List.takeWhile_nil, hr,
    Bool.and_true, if_true] at hrun
  obtain ⟨hstatus, houtput, -⟩ := carryOut_of_ok (c := .deps job target) hrun
  exact ⟨hstatus, houtput.trans (List.append_nil _)⟩

def Keeps (x : Action α) : Prop := ∀ p, (x.run p).2.disk = p.disk

theorem Keeps.bind {x : Action α} {f : α → Action β} (hx : Keeps x) (hf : ∀ a, Keeps (f a)) :
    Keeps (x >>= f) := by
  intro p
  have hp := hx p
  rw [run_bind]
  rcases hr : x.run p with ⟨e | a, p'⟩
  · rwa [hr] at hp
  · rw [hr] at hp
    exact (hf a p').trans hp

end Splice.Program
