import Mathlib
import Splice.Proofs.CommandRuns
import Splice.Proofs.Lookups
import Splice.Proofs.RuleWords

set_option autoImplicit false

namespace Splice

theorem Locator.read_of_contents {l : Locator} {d : Disk} {k : Identity} {t : Text}
    (h : l.contents d k = .ok (.text t)) :
    ∃ b, d.read (.ofText k) = .ok b ∧ decode l.encoding b = .ok (.text t) := by
  unfold Locator.contents at h
  split at h
  · rename_i b hb
    exact ⟨b, hb, h⟩
  · cases h
  · cases h

theorem Locator.run_of_pair {l : Locator} {d : Disk} {m : Marker} {seed : Reference}
    {i u : Identity} {t t' : Text} {n : Nat} {x : Include}
    (hseed : l.resolve d seed = .ok (some i)) (ht : l.contents d i = .ok (.text t))
    (hscan : scan m.read (some i) (Text.lines t) = .ok [(n, x)])
    (htarget : l.resolve d (x.reference i) = .ok (some u)) (hne : u ≠ i)
    (ht' : l.contents d u = .ok (.text t'))
    (hscan' : scan m.read (some u) (Text.lines t') = .ok []) :
    ((l.search d m).run seed).result =
      .ok ⟨i, (((Graph.empty.put i .placeholder).put u .placeholder).put u ⟨t', []⟩).put i
        ⟨t, [⟨n, u⟩]⟩⟩ := by
  have hr : (l.search d m).source.resolve seed = .ok (some i) := hseed
  have hr' : (l.search d m).source.resolve (x.reference i) = .ok (some u) := htarget
  have ho : (l.search d m).Opens i t [(n, x)] := ⟨ht, hscan⟩
  have ho' : (l.search d m).Opens u t' [] := ⟨ht', hscan'⟩
  have hu : u ∉ (Graph.empty.put i .placeholder).keys := by simpa [Graph.mem_keys_put] using hne
  rw [Search.run, hr]
  simp only [Search.openFile_of_opens ho]
  rw [Search.loop_opened hr' (by simp) hu ho', Search.loop_cons]
  simp only [Search.step]
  rw [Search.loop_cons]
  simp only [Search.step]
  rw [Search.loop_nil]
  rfl

theorem Route.text_ofText_ne_nil (t : Text) : (ofText t).text ≠ [] := by
  intro h
  have hread : ofText (ofText t).text = ofText t :=
    ofText_text (leading_le t) fun _ => isName_of_mem_namesOf
  rw [h] at hread
  rw [← hread] at h
  exact absurd h (by decide)

namespace Program

open CommandLine (Argument Command Invocation Job)

variable {m : Machine} {i i' : Invocation} {job : Job} {output target : Argument}
  {q : Draft} {arguments arguments' : List Text}

theorem contents_of_mem_keys {config : Value} {b : Built} {k : Identity}
    (h : built m config job = .ok b) (hk : k ∈ b.graph.keys) :
    ∃ l t points, Locator.ofConfig config (.list (job.paths.map valueOf)) = .ok l ∧
      l.contents m.disk k = .ok (.text t) ∧ b.graph.get? k = some ⟨t, points⟩ := by
  unfold built discover at h
  split at h
  · rename_i s hs
    obtain ⟨l, hl, hs⟩ := bind_eq_ok hs
    obtain ⟨scanner, -, hs⟩ := bind_eq_ok hs
    cases hs
    obtain ⟨-, he, -⟩ := Search.run_ok h
    obtain ⟨t, ds, ⟨hread, -⟩, -, hget⟩ := he.settled k hk (by simp)
    exact ⟨l, t, _, hl, hread, hget⟩
  · cases h

theorem read_of_mem_keys {config : Value} {b : Built} {k : Identity}
    (h : built m config job = .ok b) (hk : k ∈ b.graph.keys) :
    ∃ bytes, m.disk.read (.ofText k) = .ok bytes := by
  obtain ⟨l, t, points, -, hcontents, -⟩ := contents_of_mem_keys h hk
  obtain ⟨bytes, hread, -⟩ := Locator.read_of_contents hcontents
  exact ⟨bytes, hread⟩

/-- After a build without paths to write to, every file of the graph has the bytes that it had,
unless the output path leads to it. Then it has those of the assembled text. -/
theorem build_keeps_or_replaces_inputs (m : Machine)
    (hread : CommandLine.read arguments = .ok i)
    (hc : i.command = some (.build job .absent .absent))
    (hs : (run m arguments).status = .ok 0) :
    ∃ q bytes, drafted m i job .absent = .ok q ∧ encoded q.encoding q.text = .ok bytes ∧
      ∀ k ∈ q.built.graph.keys, ∃ b, m.disk.read (.ofText k) = .ok b ∧
        (m.disk.file? q.out ≠ m.disk.file? (.ofText k) →
          (run m arguments).disk.read (.ofText k) = .ok b) ∧
        (m.disk.file? q.out = m.disk.file? (.ofText k) →
          (run m arguments).disk.read (.ofText k) = .ok bytes) := by
  rw [run_of_read hread hc] at hs ⊢
  obtain ⟨q, hq, -, hd, -⟩ | ⟨hne, -⟩ := carryOut_build m i job .absent .absent
  · generalize (carryOut m i (.build job .absent .absent)).disk = d at hd ⊢
    cases hd with
    | @alone _ place bytes _ hw henc =>
      refine ⟨q, bytes, hq, henc, fun k hk => ?_⟩
      obtain ⟨config, -, -, hbuilt, -⟩ := of_drafted hq
      obtain ⟨b, hb⟩ := read_of_mem_keys hbuilt hk
      obtain ⟨hsame, hother⟩ := hw.read_fill_of_read bytes hb
      exact ⟨b, hb, hother, hsame⟩
  · exact absurd hs hne

def outer : Text := "//&include <main.i>\nx\n".toList

def nest : Machine where
  disk := ⟨⟨[(["main.c".toList], .file (Codec.Utf8.encode outer)),
    (["main.i".toList], .file (Codec.Utf8.encode "y\n".toList))]⟩, []⟩
  environment := []
  hasCompletion := false
  completionTool := none

def nestJob : Job := ⟨"main.c".toList, [], .absent, .absent⟩

def nestDraft : Draft where
  config := .table Config.defaults
  encoding := .text "utf-8".toList
  built := ⟨"/main.c".toList, (((Graph.empty.put "/main.c".toList .placeholder).put
    "/main.i".toList .placeholder).put "/main.i".toList ⟨"y\n".toList, []⟩).put "/main.c".toList
    ⟨outer, [⟨0, "/main.i".toList⟩]⟩⟩
  text := "y\nx".toList
  out := .ofText "main.i".toList

theorem built_nest :
    built nest (.table Config.defaults) nestJob = .ok nestDraft.built := by
  have hsearch : Search.ofConfig nest.disk (.table Config.defaults) (.list []) .null =
      .ok (Locator.default.search nest.disk .default) := rfl
  have hbuilt : built nest (.table Config.defaults) nestJob =
      (discover nest.disk (.table Config.defaults) (.list []) .null
        (.ofSeed "main.c".toList)).result := rfl
  rw [hbuilt, discover, hsearch]
  exact Locator.run_of_pair (x := ⟨.searched, "main.i".toList⟩) rfl rfl (by decide) rfl
    (by decide) rfl (by decide)

theorem drafted_nest (i : Invocation) (h : i.config = .absent) :
    drafted nest i nestJob .absent = .ok nestDraft := by
  have hconfig : configured nest .absent = .ok Config.defaults := rfl
  have hencoding : Config.setting "preprocess".toList "encoding".toList (.text "utf-8".toList)
      (.table Config.defaults) = .ok (.text "utf-8".toList) := rfl
  have htext : nestDraft.built.graph.assemble = .ok nestDraft.text := by cbv
  have hout : outputRoute nestJob .absent (.table Config.defaults) = .ok nestDraft.out := rfl
  simp only [drafted, h, hconfig, hencoding, built_nest, htext, hout, ok_bind]
  rfl

def nestArguments : List Text := ["-q", "build", "main.c"].map String.toList

def nestCall : Invocation := ⟨false, true, .absent, some (.build nestJob .absent .absent)⟩

theorem read_nest : CommandLine.read nestArguments = .ok nestCall := by cbv

theorem run_nest : (run nest nestArguments).status = .ok 0 := by
  obtain ⟨events, hrun⟩ := build_run nest nestCall nestJob .absent .absent ⟨nest.disk, [], []⟩
  rw [drafted_nest nestCall rfl] at hrun
  obtain ⟨p, hpublish, -⟩ | ⟨e, p, hpublish, -⟩ :=
    publish_cases nest nestCall nestJob .absent nestDraft events
  · rw [run_of_read read_nest rfl]
    exact (carryOut_of_ok (c := .build nestJob .absent .absent) (hrun.trans hpublish)).1
  · have hok : ((publish nest nestCall nestJob .absent nestDraft).run ⟨nest.disk, events, []⟩).1 =
        .ok ⟨0, []⟩ := rfl
    cases hok.symm.trans (congrArg Prod.fst hpublish)

theorem build_nest_replaces_include :
    (run nest nestArguments).status = .ok 0 ∧
      (run nest nestArguments).disk.read (.ofText "/main.c".toList) =
        .ok (Codec.Utf8.encode outer) ∧
      (run nest nestArguments).disk.read (.ofText "/main.i".toList) =
        .ok (Codec.Utf8.encode "y\nx".toList) := by
  obtain ⟨q, bytes, hq, hbytes, hkeys⟩ :=
    build_keeps_or_replaces_inputs nest read_nest rfl run_nest
  cases hq.symm.trans (drafted_nest nestCall rfl)
  cases hbytes.symm.trans (encoded_utf8 nestDraft.text)
  have hmain : nest.disk.file? (.ofText "/main.c".toList) = .ok (some ["main.c".toList]) := by
    decide +kernel
  have hinner : nest.disk.file? (.ofText "/main.i".toList) = .ok (some ["main.i".toList]) := by
    decide +kernel
  have hout : nest.disk.file? nestDraft.out = .ok (some ["main.i".toList]) := by decide +kernel
  obtain ⟨b, hb, hkept, -⟩ := hkeys "/main.c".toList (by decide +kernel)
  obtain ⟨-, -, -, hreplaced⟩ := hkeys "/main.i".toList (by decide +kernel)
  have hread : nest.disk.read (.ofText "/main.c".toList) = .ok (Codec.Utf8.encode outer) := rfl
  cases hb.symm.trans hread
  exact ⟨run_nest, hkept (by rw [hmain, hout]; decide), hreplaced (by rw [hinner, hout])⟩

def desk : Machine where
  disk := ⟨⟨[(["main.c".toList], .file [120, 10]), (["a.i".toList], .file [121, 10])]⟩, []⟩
  environment := []
  hasCompletion := false
  completionTool := none

/-- The output of a file with the suffix of an output replaces it. -/
theorem build_desk_replaces_seed :
    CommandLine.read (["-q", "build", "a.i"].map String.toList) =
        .ok ⟨false, true, .absent,
          some (.build ⟨"a.i".toList, [], .absent, .absent⟩ .absent .absent)⟩ ∧
      (run desk (["-q", "build", "a.i"].map String.toList)).status = .ok 0 ∧
      (drafted desk ⟨false, true, .absent,
          some (.build ⟨"a.i".toList, [], .absent, .absent⟩ .absent .absent)⟩
          ⟨"a.i".toList, [], .absent, .absent⟩ .absent).map (·.built.graph.keys) =
        .ok ["/a.i".toList] ∧
      desk.disk.read (.ofText "/a.i".toList) = .ok [121, 10] ∧
      (run desk (["-q", "build", "a.i"].map String.toList)).disk.read (.ofText "/a.i".toList) =
        .ok [121] := by
  refine ⟨?_, ?_, ?_, ?_, ?_⟩ <;> cbv

theorem explained_of_drafted {r : Text} (hconfig : i'.config = i.config)
    (htarget : output = .absent ∧ target = .absent ∨
      ∃ path, output = .text path ∧ target = .text (Route.ofText path).text)
    (hq : drafted m i job output = .ok q)
    (hr : ruled q.out.text q.built.graph q.config job.start = .ok r) :
    explained m i' job target = .ok r := by
  obtain ⟨config, hc, hqc, hbuilt, hout⟩ := of_drafted hq
  have ht : targetText job target q.config = .ok q.out.text := by
    obtain ⟨rfl, rfl⟩ | ⟨path, rfl, rfl⟩ := htarget
    · unfold outputRoute at hout
      simp only [targetText, hout]
      rfl
    · have hout : Route.ofText path = q.out := Except.ok.inj hout
      rw [← hout]
      cases hpath : (Route.ofText path).text with
      | nil => exact absurd hpath (Route.text_ofText_ne_nil path)
      | cons c t => rfl
  simp only [explained, hconfig, hc, ← hqc, hbuilt, ht, ok_bind, hr]

theorem canShow_of_announced {r : Text} {rule start : Argument} {config : Value}
    (h : ∀ l ∈ announced q rule, m.console.canShow l)
    (hr : ruled q.out.text q.built.graph config start = .ok r) : m.console.canShow r := by
  have hshown : ∀ (words t : Text), words ++ t ∈ announced q rule →
      ∀ c ∈ t, m.console.shows c = true := fun words t hmem c hc =>
    List.all_eq_true.1 (h _ hmem) c (List.mem_append_right _ hc)
  obtain ⟨v, -, hr⟩ := bind_eq_ok hr
  obtain ⟨made, hmade, hr⟩ := bind_eq_ok hr
  cases hr
  obtain ⟨s, rfl⟩ : ∃ s, made = Rule.make q.out.text q.built.graph.keys s := by
    unfold Rule.makeBy at hmade
    split at hmade
    · exact ⟨_, (Except.ok.inj hmade).symm⟩
    · split at hmade
      · cases hmade
      · exact ⟨_, (Except.ok.inj hmade).symm⟩
  refine List.all_eq_true.2 fun c hc => ?_
  rcases Rule.mem_make_text hc with hc | hc | ⟨k, hk, hc⟩
  · have hascii : c.toNat < 128 := by
      simp only [List.mem_cons, List.not_mem_nil, or_false] at hc
      rcases hc with rfl | rfl | rfl <;> decide
    exact m.console.shows_ascii c hascii
  · exact hshown _ _ (List.mem_append_right _ (List.mem_singleton.2 rfl)) c hc
  · have hmem := List.mem_map_of_mem (f := ("processed ".toList ++ ·)) hk
    exact hshown _ _ (List.mem_append_left _ (List.mem_append_left _ hmem)) c hc

/-- The rule that a build writes is printed when only the rule is asked for. A build that is not
quiet has shown the names in it before; after a quiet one the console has to show all characters. -/
theorem printed_rule_eq_written_rule (m : Machine) (rule : Text)
    (hread : CommandLine.read arguments = .ok i) (hread' : CommandLine.read arguments' = .ok i')
    (hc : i.command = some (.build job output (.text rule)))
    (hc' : i'.command = some (.deps job target)) (hconfig : i'.config = i.config)
    (htarget : output = .absent ∧ target = .absent ∨
      ∃ path, output = .text path ∧ target = .text (Route.ofText path).text)
    (hshown : i.quiet = false ∨ ∀ c, m.console.shows c)
    (hs : (run m arguments).status = .ok 0) :
    (run m arguments').status = .ok 0 ∧
      (run m arguments).disk.read (.ofText rule) =
        .ok (Codec.Utf8.encode (run m arguments').output) := by
  rw [run_of_read hread hc] at hs ⊢
  rw [run_of_read hread' hc']
  obtain ⟨q, hq, -, hd, hsaid⟩ | ⟨hne, -⟩ := carryOut_build m i job output (.text rule)
  · generalize (carryOut m i (.build job output (.text rule))).disk = d at hd ⊢
    cases hd with
    | alone hno => exact absurd rfl (hno rule)
    | @withRule _ _ _ _ r hw henc hr hw' =>
      have hr' : m.console.canShow r := by
        rcases hshown with hquiet | hall
        · exact canShow_of_announced (hsaid hquiet) hr
        · exact List.all_eq_true.2 fun c _ => hall c
      obtain ⟨hstatus, houtput⟩ :=
        carryOut_deps (explained_of_drafted hconfig htarget hq hr) hr'
      rw [houtput]
      exact ⟨hstatus, hw'.read_fill _⟩
  · exact absurd hs hne

theorem printed_desk_rule :
    (run desk (["-q", "deps", "main.c", "--target", "o"].map String.toList)).status = .ok 0 ∧
      (run desk (["-q", "build", "main.c", "-o", "./o", "-MF", "d"].map String.toList)).disk.read
          (.ofText ['d']) =
        .ok (Codec.Utf8.encode
          (run desk (["-q", "deps", "main.c", "--target", "o"].map String.toList)).output) := by
  have hbuild : CommandLine.read
      (["-q", "build", "main.c", "-o", "./o", "-MF", "d"].map String.toList) =
        .ok ⟨false, true, .absent, some (.build ⟨"main.c".toList, [], .absent, .absent⟩
          (.text "./o".toList) (.text ['d']))⟩ := by cbv
  have hdeps : CommandLine.read (["-q", "deps", "main.c", "--target", "o"].map String.toList) =
      .ok ⟨false, true, .absent,
        some (.deps ⟨"main.c".toList, [], .absent, .absent⟩ (.text ['o']))⟩ := by cbv
  exact printed_rule_eq_written_rule desk ['d'] hbuild hdeps rfl rfl rfl
    (.inr ⟨"./o".toList, rfl, by decide⟩) (.inr fun _ => rfl) (by cbv)

end Program
end Splice
