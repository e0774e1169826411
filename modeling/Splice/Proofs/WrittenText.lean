import Splice.Proofs.BuildEffects
import Splice.Proofs.FilledDisks
import Splice.Proofs.OwnLines

set_option autoImplicit false

namespace Splice

theorem Locator.encoding_ofConfig {config given v : Value} {l : Locator}
    (h : Locator.ofConfig config given = .ok l)
    (hs : Config.setting "preprocess".toList "encoding".toList (.text "utf-8".toList) config =
      .ok v) : l.encoding = v := by
  obtain ⟨heading, hheading, h⟩ := bind_eq_ok h
  obtain ⟨configured, -, h⟩ := bind_eq_ok h
  obtain ⟨encoding, hencoding, h⟩ := bind_eq_ok h
  rw [Config.setting, hheading] at hs
  cases hencoding.symm.trans hs
  have hlast : ∀ first second, (do
      let paths ← routesOf (first ++ second)
      pure ⟨paths, .ofText ['.'], v⟩) = Except.ok l → l.encoding = v := by
    intro first second h
    obtain ⟨paths, -, h⟩ := bind_eq_ok h
    cases h
    rfl
  dsimp only at h
  split at h <;> obtain ⟨first, -, h⟩ := bind_eq_ok h <;> split at h <;>
    obtain ⟨second, -, h⟩ := bind_eq_ok h <;> exact hlast _ _ h

namespace Program

open CommandLine (Argument Command Invocation Job)

variable {m : Machine} {i : Invocation} {job : Job} {output : Argument} {arguments : List Text}

/-- What a build has read and assembled in an encoding. -/
structure Gathered (m : Machine) (i : Invocation) (job : Job) where
  config : Table
  name : Text
  encoding : Encoding
  built : Built
  text : Text
  configured_eq : configured m i.config = .ok config
  setting_eq : Config.setting "preprocess".toList "encoding".toList (.text "utf-8".toList)
    (.table config) = .ok (.text name)
  named : Encoding.ofName? name = some encoding
  built_eq : Program.built m (.table config) job = .ok built
  assemble_eq : built.graph.assemble = .ok text

namespace Gathered

variable (a : Gathered m i job)

theorem decode_eq {k : Identity} (hk : k ∈ a.built.graph.keys) :
    '\x00' ∉ a.name ∧ ∃ r b, a.built.graph.get? k = some r ∧ a.encoding.decode b = .ok r.text := by
  obtain ⟨l, t, points, hl, hcontents, hget⟩ := contents_of_mem_keys a.built_eq hk
  obtain ⟨b, -, hdecode⟩ := Locator.read_of_contents hcontents
  rw [Locator.encoding_ofConfig hl a.setting_eq, Locator.decode_eq_text_iff a.named] at hdecode
  exact ⟨hdecode.1, _, b, hget, hdecode.2⟩

theorem not_mem_name : '\x00' ∉ a.name := by
  have hkeys : a.built.graph.keys ≠ [] := by
    intro hk
    have h := a.assemble_eq
    rw [Graph.assemble, Graph.assembleFrom, Graph.emitted, if_pos hk] at h
    cases h
  obtain ⟨k, hk⟩ := List.exists_mem_of_ne_nil _ hkeys
  exact (a.decode_eq hk).1

theorem exists_encode : ∃ bytes, a.encoding.encode a.text = some bytes := by
  refine Encoding.exists_encode fun c hc => ?_
  rcases Graph.mem_assembleFrom a.assemble_eq hc with rfl | ⟨k, r, hr, hc⟩
  · cases a.encoding <;> decide
  · obtain ⟨-, r', b, hr', hread⟩ := a.decode_eq (Graph.mem_keys_of_get? hr)
    cases hr.symm.trans hr'
    exact Encoding.lt_limit_of_decode hread c hc

theorem of_drafted {q : Draft} (h : drafted m i job output = .ok q) :
    ∃ out, outputRoute job output (.table a.config) = .ok out ∧
      q = ⟨.table a.config, .text a.name, a.built, a.text, out⟩ := by
  simp only [drafted, a.configured_eq, a.setting_eq, a.built_eq, a.assemble_eq, ok_bind] at h
  obtain ⟨out, hout, h⟩ := bind_eq_ok h
  exact ⟨out, hout, (Except.ok.inj h).symm⟩

theorem encoded_eq {bytes : List UInt8} (h : a.encoding.encode a.text = some bytes) :
    encoded (.text a.name) a.text = .ok bytes := by
  simp only [encoded, a.named, h]

theorem run_of_writes {out : Route} {p : Place}
    {bytes : List UInt8} (hread : CommandLine.read arguments = .ok i)
    (hc : i.command = some (.build job output .absent)) (hquiet : i.quiet = true)
    (hout : outputRoute job output (.table a.config) = .ok out) (hw : m.disk.Writes out p)
    (hbytes : a.encoding.encode a.text = some bytes) :
    (run m arguments).status = .ok 0 ∧ (run m arguments).disk = m.disk.fill p bytes := by
  have hq : drafted m i job output =
      .ok ⟨.table a.config, .text a.name, a.built, a.text, out⟩ := by
    simp only [drafted, a.configured_eq, a.setting_eq, a.built_eq, a.assemble_eq, hout, ok_bind]
    rfl
  obtain ⟨events, hrun⟩ := build_run m i job output .absent ⟨m.disk, [], []⟩
  have hwrite := writeText_of_writes (p := ⟨m.disk, events, []⟩) a.not_mem_name hw a.text
  rw [a.encoded_eq hbytes] at hwrite
  rw [hq] at hrun
  unfold publish produce close at hrun
  simp only [hquiet, if_true] at hrun
  rw [run_bind, run_bind, hwrite] at hrun
  have hok := carryOut_of_ok (c := .build job output .absent) hrun
  rw [run_of_read hread hc]
  exact ⟨hok.1, hok.2.2⟩

end Gathered

theorem of_outputPath {file : Text} {config : Value} {out : Route}
    (h : Config.outputPath file config = .ok out) :
    ∃ suffix, Route.isSuffix suffix = true ∧ (Route.ofText file).name ≠ [] ∧
      out = (Route.ofText file).withSuffix suffix := by
  unfold Config.outputPath at h
  split at h
  · rename_i v _
    cases v with
    | text suffix =>
      simp only [Route.replaceSuffixBy, Route.replaceSuffix] at h
      split at h
      · cases h
      rename_i hs
      split at h
      · cases h
      rename_i hn
      cases h
      exact ⟨suffix, by simpa using hs, hn, rfl⟩
    | list _ | table _ =>
      -- Lists and tables fail in different ways, but all of them do.
      simp only [Route.replaceSuffixBy] at h
      repeat' split at h
      all_goals cases h
    | _ => cases h
  · cases h

theorem spelled_of_writes {config : Value} {out : Route} {p : Place} {d : Disk}
    (h : outputRoute job output config = .ok out) (hw : d.Writes out p) : out.Spelled := by
  have hpath : Config.outputPath job.file config = .ok out → out.Spelled := by
    intro h
    obtain ⟨suffix, hs, hn, rfl⟩ := of_outputPath h
    refine (Route.spelled_ofText job.file).withSuffix hn hs fun hp => ?_
    -- A single point is the directory, which is no place for a file.
    obtain ⟨s, hreach, hplace⟩ := hw.reaches
    unfold Disk.reach at hreach
    split at hreach
    · cases hreach
    · rw [Route.withSuffix, hp] at hreach
      cases (Tree.place?_of_walk (.inr rfl) hreach).symm.trans hplace
  unfold outputRoute at h
  split at h
  · cases h
    exact Route.spelled_ofText _
  · exact hpath h

/-- What a build has assembled can be encoded. If the build succeeds, these are the bytes of the
output. The path of the output leads to it, if every link on the way is seen, and what leads to it
fetches the assembled text in the same encoding, unless the path of its place is too long. -/
theorem build_output_read_back (m : Machine) (hd : m.disk.WellFormed)
    (hlinks : ∀ p target, m.disk.tree.node? p = some (.link target) → '\x00' ∉ target)
    (hread : CommandLine.read arguments = .ok i)
    (hc : i.command = some (.build job output .absent)) (a : Gathered m i job) :
    ∃ bytes, a.encoding.encode a.text = some bytes ∧
      ((run m arguments).status = .ok 0 →
        ∃ out p, outputRoute job output (.table a.config) = .ok out ∧
          (run m arguments).disk.file? out = .ok (some p) ∧
          (run m arguments).disk.read out = .ok bytes ∧
          ∀ l : Locator, l.Spelled → l.encoding = .text a.name →
            ((run m arguments).disk.Legible out →
              l.LeadsTo (run m arguments).disk (.ofSeed out.text) p) ∧
            ∀ ref, l.LeadsTo (run m arguments).disk ref p →
              (l.source (run m arguments).disk).fetch ref =
                .ok (if Tree.byteCount p.text < Tree.pathLimit then .file p.text a.text
                  else .unreadable p.text (.access .tooLong p.text))) := by
  obtain ⟨bytes, hbytes⟩ := a.exists_encode
  refine ⟨bytes, hbytes, fun hs => ?_⟩
  rw [run_of_read hread hc] at hs ⊢
  obtain ⟨q, hq, -, hpub, -⟩ | ⟨hne, -⟩ := carryOut_build m i job output .absent
  · generalize (carryOut m i (.build job output .absent)).disk = d at hpub ⊢
    obtain ⟨out, hout, rfl⟩ := a.of_drafted hq
    cases hpub with
    | @alone _ p _ _ hw henc =>
      cases henc.symm.trans (a.encoded_eq hbytes)
      have hspelled := spelled_of_writes hout hw
      have hfilled : (m.disk.fill p bytes).WellFormed :=
        hw.wellFormed_fill hd (hw.fits hd hlinks hspelled) bytes
      have hfile := hw.file?_fill bytes
      have hnode : (m.disk.fill p bytes).tree.node? p = some (.file bytes) :=
        (Tree.node?_put hw.isOpen.ne_nil _ p).trans (if_pos rfl)
      refine ⟨out, p, hout, hfile, hw.read_fill bytes, fun l hl hencoding =>
        ⟨fun hlegible => ?_, fun ref href => ?_⟩⟩
      · exact Locator.leadsTo_ofSeed l hspelled hlegible ((Disk.file?_eq_some_iff hfilled).1 hfile)
      · refine Locator.fetch_of_leadsTo hfilled hl href hnode ?_
        rw [hencoding, Locator.decode_eq_text_iff a.named]
        exact ⟨a.not_mem_name, Encoding.decode_encode hbytes⟩
  · exact absurd hs hne

def rootJob : Job := ⟨"/main.c".toList, [], .absent, .absent⟩

def cover : Text := "//&include <p>\n😀".toList

def page : Text := "\uFEFFx\rz\r\ny\n".toList

def atlas : Machine where
  disk := ⟨⟨[(["main.c".toList], .file (0xFF :: 0xFE :: Codec.Utf16.encode .little cover)),
    (["p".toList], .file (0xFE :: 0xFF :: Codec.Utf16.encode .big page)),
    (["d".toList], .directory), (["l".toList], .link "d".toList)]⟩, []⟩
  environment := [("PREPROC_PREPROCESS_ENCODING".toList, "utf-16".toList)]
  hasCompletion := false
  completionTool := none

def atlasArguments : List Text := ["-q", "build", "/main.c", "-o", "l/o"].map String.toList

def atlasCall : Invocation :=
  ⟨false, true, .absent, some (.build rootJob (.text "l/o".toList) .absent)⟩

theorem read_atlas : CommandLine.read atlasArguments = .ok atlasCall := by cbv

def atlasConfig : Table :=
  [("preprocess".toList,
      .table
        [("comment".toList, .text "//".toList), ("include_paths".toList, .list []),
          ("output_suffix".toList, .text ".i".toList), ("encoding".toList, .text "utf-16".toList)]),
    ("depfile".toList, .table [("strip_prefix".toList, .text [])])]

theorem configured_atlas : configured atlas .absent = .ok atlasConfig := rfl

def atlasLocator : Locator := ⟨[], .ofText ['.'], .text "utf-16".toList⟩

def atlasBuilt : Built :=
  ⟨"/main.c".toList, (((Graph.empty.put "/main.c".toList .placeholder).put
    "/p".toList .placeholder).put "/p".toList ⟨page, []⟩).put "/main.c".toList
    ⟨cover, [⟨0, "/p".toList⟩]⟩⟩

theorem named_utf16 : Encoding.ofName? "utf-16".toList = some .utf16 := by decide +kernel

theorem built_atlas : built atlas (.table atlasConfig) rootJob = .ok atlasBuilt := by
  have hsearch : Search.ofConfig atlas.disk (.table atlasConfig) (.list []) .null =
      .ok (atlasLocator.search atlas.disk .default) := rfl
  have hbuilt : built atlas (.table atlasConfig) rootJob =
      (discover atlas.disk (.table atlasConfig) (.list []) .null
        (.ofSeed "/main.c".toList)).result := rfl
  have hread : atlas.disk.read (.ofText "/main.c".toList) =
      .ok (0xFF :: 0xFE :: Codec.Utf16.encode .little cover) := rfl
  have hread' : atlas.disk.read (.ofText "/p".toList) =
      .ok (0xFE :: 0xFF :: Codec.Utf16.encode .big page) := rfl
  have hcover : Encoding.utf16.decode (0xFF :: 0xFE :: Codec.Utf16.encode .little cover) =
      .ok cover := Codec.Utf16.decode_encode .little 2 cover
  have hpage : Encoding.utf16.decode (0xFE :: 0xFF :: Codec.Utf16.encode .big page) =
      .ok page := Codec.Utf16.decode_encode .big 2 page
  have hcontents : atlasLocator.contents atlas.disk "/main.c".toList = .ok (.text cover) := by
    rw [Locator.contents, hread]
    exact (Locator.decode_eq_text_iff named_utf16).2 ⟨by decide, hcover⟩
  have hcontents' : atlasLocator.contents atlas.disk "/p".toList = .ok (.text page) := by
    rw [Locator.contents, hread']
    exact (Locator.decode_eq_text_iff named_utf16).2 ⟨by decide, hpage⟩
  rw [hbuilt, discover, hsearch]
  exact Locator.run_of_pair (x := ⟨.searched, "p".toList⟩) (by cbv) hcontents
    (by decide +kernel) (by cbv) (by decide) hcontents' (by decide +kernel)

def atlasText : Text := "\uFEFFx\rz\ny\n😀".toList

def atlasGathered : Gathered atlas atlasCall rootJob where
  config := atlasConfig
  name := "utf-16".toList
  encoding := .utf16
  built := atlasBuilt
  text := atlasText
  configured_eq := configured_atlas
  setting_eq := by cbv
  named := named_utf16
  built_eq := built_atlas
  assemble_eq := by cbv

theorem writes_atlas : atlas.disk.Writes (.ofText "l/o".toList) ["d".toList, "o".toList] :=
  ⟨by decide, .vacant ["d".toList, "o".toList], by decide +kernel, rfl⟩

theorem wellFormed_atlas : atlas.disk.WellFormed := ⟨by decide, rfl⟩

theorem links_atlas :
    ∀ p target, atlas.disk.tree.node? p = some (.link target) → '\x00' ∉ target := by
  intro p target h
  have hp : p ≠ [] := by
    rintro rfl
    cases h
  have hm := Tree.mem_entries h hp
  simp only [atlas, List.mem_cons, Prod.mk.injEq, Entry.link.injEq, reduceCtorEq, and_false,
    List.not_mem_nil, or_false, false_or] at hm
  rw [hm.2]
  decide

theorem legible_atlas : atlas.disk.Legible (.ofText "l/o".toList) := by
  have hlink : atlas.disk.linkAt? ⟨0, ["l".toList]⟩ = some "d".toList := by decide +kernel
  have htarget : atlas.disk.Traces ⟨0, []⟩ ["d".toList] 0 ⟨0, ["d".toList]⟩ :=
    .enter (by decide) (by decide +kernel) (.done _)
  have hlast : atlas.disk.Traces ⟨0, ["d".toList]⟩ ["o".toList] 0 ⟨0, ["d".toList, "o".toList]⟩ :=
    .enter (by decide) (by decide +kernel) (.done _)
  exact ⟨1, _, .link (n := "l".toList) (by decide) hlink htarget hlast⟩

theorem build_atlas_read_back :
    (run atlas atlasArguments).status = .ok 0 ∧
      (atlasLocator.source (run atlas atlasArguments).disk).fetch (.ofSeed "l/o".toList) =
        .ok (.file "/d/o".toList atlasText) := by
  have hc : atlasCall.command = some (.build rootJob (.text "l/o".toList) .absent) := rfl
  have hout : outputRoute rootJob (.text "l/o".toList) (.table atlasConfig) =
      .ok (.ofText "l/o".toList) := rfl
  obtain ⟨bytes, hbytes, hback⟩ := build_output_read_back atlas wellFormed_atlas links_atlas
    read_atlas hc atlasGathered
  obtain ⟨hstatus, hdisk⟩ := atlasGathered.run_of_writes read_atlas hc rfl hout writes_atlas hbytes
  obtain ⟨out, p, hout', hfile, -, hfetch⟩ := hback hstatus
  cases hout.symm.trans hout'
  rw [hdisk] at hfile hfetch ⊢
  cases (writes_atlas.file?_fill bytes).symm.trans hfile
  obtain ⟨hleads, hfetch⟩ := hfetch atlasLocator (by decide) rfl
  have h := hfetch _ (hleads (legible_atlas.fill writes_atlas.isOpen bytes))
  rw [if_pos (by decide)] at h
  exact ⟨hstatus, h⟩

def Gathered.ofPlain (hconfig : configured m i.config = .ok Config.defaults)
    (hresolve : Locator.default.resolve m.disk (.ofSeed "/main.c".toList) =
      .ok (some "/main.c".toList))
    (hcontents : Locator.default.contents m.disk "/main.c".toList = .ok (.text "new\n".toList)) :
    Gathered m i rootJob where
  config := Config.defaults
  name := "utf-8".toList
  encoding := .utf8
  built := ⟨"/main.c".toList, (Graph.empty.put "/main.c".toList .placeholder).put
    "/main.c".toList ⟨"new\n".toList, []⟩⟩
  text := "new".toList
  configured_eq := hconfig
  setting_eq := by cbv
  named := by decide +kernel
  built_eq := by
    have hbuilt : Program.built m (.table Config.defaults) rootJob =
        ((Locator.default.search m.disk .default).run (.ofSeed "/main.c".toList)).result := rfl
    have hopens : (Locator.default.search m.disk .default).Opens "/main.c".toList
        "new\n".toList [] := ⟨hcontents, by cbv⟩
    rw [hbuilt]
    exact Search.run_of_steps 1 hresolve (Search.openFile_of_opens hopens) rfl
  assemble_eq := by cbv

def maze : Machine where
  disk := ⟨⟨[(["a".toList], .link (Path.ups 1365)), (["x".toList], .link "sub/deep".toList),
    (["sub".toList], .directory), (["sub".toList, "deep".toList], .directory),
    (["out".toList], .file (Codec.Utf8.encode "old".toList)),
    (["main.c".toList], .file (Codec.Utf8.encode "new\n".toList))]⟩, []⟩
  environment := []
  hasCompletion := false
  completionTool := none

def mazePath : Text := "a/x/../out".toList

def mazeArguments : List Text := ["-q", "build", "/main.c", "-o", "a/x/../out"].map String.toList

def mazeCall : Invocation :=
  ⟨false, true, .absent, some (.build rootJob (.text mazePath) .absent)⟩

theorem read_maze : CommandLine.read mazeArguments = .ok mazeCall := by cbv

theorem wellFormed_maze : maze.disk.WellFormed := ⟨by decide, rfl⟩

theorem writes_maze : maze.disk.Writes (.ofText mazePath) ["sub".toList, "out".toList] :=
  ⟨by decide, .vacant ["sub".toList, "out".toList], by decide +kernel, rfl⟩

def mazeGathered : Gathered maze mazeCall rootJob :=
  .ofPlain rfl (by decide +kernel) (by decide +kernel)

def mazeAfter : Disk :=
  maze.disk.fill ["sub".toList, "out".toList] (Codec.Utf8.encode "new".toList)

theorem real_maze : mazeAfter.real (.ofText mazePath) = .ok ⟨1, ["out".toList]⟩ := by
  have hups := Disk.at_ups (d := mazeAfter) rfl
  -- Behind the steps up the path of the link to the directory takes 4096 bytes.
  have hx : mazeAfter.linkAt? (Route.next ⟨0, List.replicate 1365 Path.up⟩ "x".toList) = none :=
    if_pos (Nat.le_of_eq (Route.byteCount_ups 1365 "x".toList).symm)
  have hout : mazeAfter.linkAt? (Route.next ⟨0, List.replicate 1365 Path.up⟩ "out".toList) =
      none := by
    refine if_pos ?_
    rw [Route.next, Route.byteCount_ups]
    decide
  have hsteps : Text.pieces '/' mazePath =
      ["a".toList, "x".toList, Path.up, "out".toList] := by decide
  have htrace := calc
    mazeAfter.trace Disk.depthLimit [] [] ⟨0, []⟩ mazePath
    _ = mazeAfter.traceWith (mazeAfter.trace 988) [] _ ⟨0, List.replicate 1365 Path.up⟩
        ["x".toList, Path.up, "out".toList] :=
      Disk.trace_behind_ups rfl (by decide +kernel) (by decide) hsteps
    _ = mazeAfter.traceWith (mazeAfter.trace 988) [] _ ⟨0, List.replicate 1365 Path.up⟩
        ["out".toList] := by
      rw [Disk.traceWith_plain (by decide) hx, Disk.traceWith_up, Disk.above_next (by decide)]
    _ = .ok (Route.next ⟨0, List.replicate 1365 Path.up⟩ "out".toList, _) :=
      Disk.traceWith_plain (by decide) hout
  have habs := ((hups 1365).next (n := "out".toList) (by decide)).absolute_eq (by decide)
  have hz : Disk.hasZero (.ofText mazePath) = false := by decide
  have htext : (Route.ofText mazePath).text = mazePath := by decide
  have hend : mazeAfter.locate ⟨1, ["out".toList]⟩ =
      .ok (.file ["out".toList] (Codec.Utf8.encode "old".toList)) := by decide +kernel
  rw [Disk.real, hz, htext, htrace]
  simp only [habs, List.nil_append, hend]
  rfl

theorem fetch_maze :
    (Locator.default.source mazeAfter).fetch (.ofSeed mazePath) =
      .ok (.file "/out".toList "old".toList) := by
  have hfile : mazeAfter.isFile (.ofText mazePath) = .ok true := by
    rw [Disk.isFile, mazeAfter, writes_maze.file?_fill]
    rfl
  have hroute := Locator.default.route?_ofSeed mazeAfter (Route.spelled_ofText mazePath)
  have htext : (Route.ofText mazePath).text = mazePath := by decide
  rw [htext] at hroute
  have hresolve : Locator.default.resolve mazeAfter (.ofSeed mazePath) =
      .ok (some "/out".toList) := by
    rw [Locator.resolve, hroute]
    simp only [Locator.firstFile, hfile, real_maze]
    rfl
  have hcontents : Locator.default.contents mazeAfter "/out".toList = .ok (.text "old".toList) := by
    decide +kernel
  exact Locator.fetch_of_contents hresolve hcontents

def far : Place := List.replicate 16 (List.replicate 254 'd')

def depths : Machine where
  disk := ⟨⟨(["main.c".toList], .file (Codec.Utf8.encode "new\n".toList)) ::
    (["c".toList], .file []) :: (List.range 16).map fun k => (far.take (k + 1), .directory)⟩, far⟩
  environment := []
  hasCompletion := false
  completionTool := none

def depthsPath : Text := "a-long-way-down".toList

def depthsArguments : List Text :=
  ["-q", "--config", "/c", "build", "/main.c", "-o", "a-long-way-down"].map String.toList

def depthsCall : Invocation :=
  ⟨false, true, .text "/c".toList, some (.build rootJob (.text depthsPath) .absent)⟩

theorem read_depths : CommandLine.read depthsArguments = .ok depthsCall := by cbv

theorem configured_depths : configured depths depthsCall.config = .ok Config.defaults := by
  have hread : depths.disk.read (.ofText "/c".toList) = .ok [] := by decide +kernel
  have hreader : depths.reader = Toml.parse := rfl
  have hload : Config.load depths.disk (.ofText "/c".toList) = .ok Config.defaults := by
    rw [Config.load, hread]
    cbv
  simp only [configured, depthsCall, Config.effective, hreader, hload, pure_bind]
  rfl

def depthsGathered : Gathered depths depthsCall rootJob :=
  .ofPlain configured_depths (by decide +kernel) (by decide +kernel)

theorem writes_depths : depths.disk.Writes (.ofText depthsPath) (far ++ [depthsPath]) :=
  ⟨by decide, .vacant (far ++ [depthsPath]), by decide +kernel, rfl⟩

def depthsAfter : Disk :=
  depths.disk.fill (far ++ [depthsPath]) (Codec.Utf8.encode "new".toList)

theorem wellFormed_depthsAfter : depthsAfter.WellFormed := ⟨by decide +kernel, by decide +kernel⟩

theorem text_depths : Place.text (far ++ [depthsPath]) = far.below depthsPath :=
  Place.text_append (by simp)

theorem tooLong_depths : ¬Tree.byteCount (far.below depthsPath) < Tree.pathLimit := by
  have h : Tree.byteCount (far.below depthsPath) = _ :=
    Place.byteCount_below_replicate 16 (List.replicate 254 'd') depthsPath
  rw [h]
  decide +kernel

theorem fetch_depths :
    (Locator.default.source depthsAfter).fetch (.ofSeed depthsPath) =
      .ok (.unreadable (far.below depthsPath) (.access .tooLong (far.below depthsPath))) := by
  have hfile : depthsAfter.file? (.ofText depthsPath) = .ok (some (far ++ [depthsPath])) :=
    writes_depths.file?_fill _
  have hnode : depthsAfter.tree.node? (far ++ [depthsPath]) =
      some (.file (Codec.Utf8.encode "new".toList)) := by decide +kernel
  have hd := wellFormed_depthsAfter
  have hspelled := Route.spelled_ofText depthsPath
  have htext : (Route.ofText depthsPath).text = depthsPath := by decide
  have hleads : depthsAfter.tree.Leads far [depthsPath] 0 (far ++ [depthsPath]) :=
    .enter (by decide) hnode (by simp) (.done _)
  have hlegible := Disk.legible_of_leads hd.isStep hspelled hleads
  have hto := Locator.default.leadsTo_ofSeed hspelled hlegible
    ((Disk.file?_eq_some_iff hd).1 hfile)
  have hdecode : Locator.decode Locator.default.encoding (Codec.Utf8.encode "new".toList) =
      .ok (.text "new".toList) := by decide +kernel
  have hfetch := Locator.fetch_of_leadsTo hd (by decide) hto hnode hdecode
  rw [htext, text_depths, if_neg tooLong_depths] at hfetch
  exact hfetch

/-- Beyond the limits of a disk the text is not read back. A path can be resolved to another file,
and its text is fetched; and a file far down is written, but cannot be read by its identity. -/
theorem build_output_beyond_limits :
    (maze.disk.WellFormed ∧ CommandLine.read mazeArguments = .ok mazeCall ∧
      mazeGathered.text = "new".toList ∧ (run maze mazeArguments).status = .ok 0 ∧
      (run maze mazeArguments).disk.read (.ofText mazePath) =
        .ok (Codec.Utf8.encode "new".toList) ∧
      (Locator.default.source (run maze mazeArguments).disk).fetch (.ofSeed mazePath) =
        .ok (.file "/out".toList "old".toList)) ∧
    depths.disk.WellFormed ∧ CommandLine.read depthsArguments = .ok depthsCall ∧
      depthsGathered.text = "new".toList ∧ (run depths depthsArguments).status = .ok 0 ∧
      (run depths depthsArguments).disk.read (.ofText depthsPath) =
        .ok (Codec.Utf8.encode "new".toList) ∧
      (Locator.default.source (run depths depthsArguments).disk).fetch (.ofSeed depthsPath) =
        .ok (.unreadable (far.below depthsPath) (.access .tooLong (far.below depthsPath))) := by
  obtain ⟨hmaze, hmazeDisk⟩ := mazeGathered.run_of_writes read_maze rfl rfl rfl writes_maze rfl
  obtain ⟨hdepths, hdepthsDisk⟩ :=
    depthsGathered.run_of_writes read_depths rfl rfl rfl writes_depths rfl
  have hmazeAfter : (run maze mazeArguments).disk = mazeAfter := hmazeDisk
  have hdepthsAfter : (run depths depthsArguments).disk = depthsAfter := hdepthsDisk
  rw [hmazeAfter, hdepthsAfter]
  exact ⟨⟨wellFormed_maze, read_maze, rfl, hmaze, writes_maze.read_fill _, fetch_maze⟩,
    ⟨by decide +kernel, by decide +kernel⟩, read_depths, rfl, hdepths, writes_depths.read_fill _,
    fetch_depths⟩

end Program
end Splice
