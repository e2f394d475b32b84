import GoAtlas.Proofs.Files.Contents
import GoAtlas.Proofs.Report.Relocation
import GoAtlas.Proofs.Report.Writing
import GoAtlas.Proofs.Session.References
import GoAtlas.Proofs.Workspace.Failing

namespace GoAtlas

open Files GoAtlas.Path

theorem Workspace.Loaded.registeredBy {ws ws' : Workspace} (hws' : ws'.Loaded)
    (h : ws'.unplaced = ws.unplaced) : ∃ files, ws.RegisteredBy files ws' := by
  obtain ⟨files, hregistry⟩ := hws'.registry
  exact ⟨files, h, hregistry, fun f hf => (hws'.registered f hf).slot⟩

namespace Report

variable {s t : Store} {hidden : List String → Bool} {entries : List (String × Entry)}
  {dir root out : String} {texts : List (String × String)} {out? package? : Option String}

section

variable (hc : Closed hidden) (hroot : hidden [] = false)
include hc hroot

theorem writeTexts_skirting (h : ∀ x ∈ texts, s.Skirts hidden (join dir x.1)) :
    writeTexts dir texts (s.without hidden) = (writeTexts dir texts s).map (·.without hidden) := by
  induction texts generalizing s with
  | nil => rfl
  | cons x texts ih =>
    obtain ⟨hx, htexts⟩ := List.forall_mem_cons.mp h
    rw [writeTexts_cons, writeTexts_cons, Store.writeFile_skirting hc hroot hx]
    cases hwrite : s.writeFile (join dir x.1) x.2.toUTF8 with
    | error e => rfl
    | ok t => exact ih fun y hy => (Store.writeFile_sameLinks hwrite).skirts (htexts y hy)

theorem writeAll_skirting (hat : s.root.at? [] = some (.dir entries)) (hdir : s.Skirts hidden dir)
    (h : ∀ x ∈ texts, s.Skirts hidden (join dir x.1)) :
    writeAll (s.without hidden) dir texts = (writeAll s dir texts).map (·.without hidden) := by
  simp only [writeAll, bind, Except.bind]
  rw [Store.makeDirs_skirting hc hroot hat hdir]
  cases hmake : s.makeDirs dir with
  | error e => rfl
  | ok t =>
    exact writeTexts_skirting hc hroot fun x hx =>
      (Store.makeDirs_sameLinks hat hmake).skirts (h x hx)

end

/-- The path under which a run is to write, as it is told. -/
def outputPath (s : Store) (root : String) (out? : Option String) (c : Settings) : String :=
  out?.getD (join (s.realPath root) c.outputDir)

/-- Neither the path of the root nor one of the reports' passes a hidden place. Where the configured
directory leads into a loop of links, that goes for what is left of its path as well. -/
structure Clear (s : Store) (hidden : List String → Bool) (root : String) (out? : Option String) :
    Prop where
  base : s.Skirts hidden root
  reports : ∀ c, Settings.load s root = .ok c → ∀ name ∈ reportNames,
    s.Skirts hidden (join (outputPath s root out? c) name)
  looping : out? = none → ∀ c, Settings.load s root = .ok c → s.Loops (outputPath s root none c) →
    ∀ name ∈ reportNames, s.Skirts hidden (join (s.realPath (outputPath s root none c)) name)

theorem skirts_of_reports (h : ∀ name ∈ reportNames, s.Skirts hidden (join dir name)) :
    s.Skirts hidden dir := by
  have hname : "symbols.jsonl" ∈ reportNames := List.mem_cons_self
  exact (h _ hname).of_join (of_mem_reportNames hname).1

theorem Clear.resolved {c : Settings} (h : Clear s hidden root none)
    (hat : s.root.at? [] = some (.dir entries)) (hload : Settings.load s root = .ok c) {name : String}
    (hname : name ∈ reportNames) :
    s.Skirts hidden (join (s.realPath (join (s.realPath root) c.outputDir)) name) := by
  by_cases hloop : s.Loops (outputPath s root none c)
  · exact h.looping rfl c hload hloop name hname
  · exact (h.reports c hload name hname).join_realPath hat (of_mem_reportNames hname).1 hloop

theorem prepare_clear {ns : List String} (hs : s.Sound) (hc : Closed hidden)
    (hns : hidden ns = false) (hbase : s.realPath root = ofParts ns)
    (hat : s.root.at? ns = some (.dir entries)) (h : Clear s hidden root out?)
    (hload : Settings.load (s.without hidden) root = Settings.load s root) :
    prepare (s.without hidden) root out? = prepare s root out? := by
  have hroot := hc.root hns
  obtain ⟨top, htop⟩ := Entry.isDir_of_prefix hat rfl List.nil_prefix
  rw [prepare, prepare, hload]
  cases hsettings : Settings.load s root with
  | error o => simp only [bind, Except.bind]
  | ok c =>
    cases out? with
    | some out => simp only [bind, Except.bind]
    | none =>
      have hbase' : (s.without hidden).realPath root = ofParts ns := by
        rw [Store.realPath_skirting hc hroot hs h.base, hbase]
      have houtput : (s.without hidden).resolve (join (ofParts ns) c.outputDir) =
          s.resolve (join (ofParts ns) c.outputDir) := by
        rw [← hbase]
        exact Store.resolve_skirting hc hroot hs (skirts_of_reports (h.reports c hsettings))
          (skirts_of_reports fun name hname => h.resolved htop hsettings hname)
      simp only [bind, Except.bind, Settings.resolveOutput_eq hs hbase hat,
        Settings.resolveOutput_eq (hs.without hc hroot) hbase' (Store.dir_without hc hns hat), houtput]

theorem Clear.of_prepare {ns : List String} {c : Settings} (hs : s.Sound)
    (hbase : s.realPath root = ofParts ns) (hat : s.root.at? ns = some (.dir entries))
    (h : Clear s hidden root out?) (hprepare : prepare s root out? = .ok (c, out)) {name : String}
    (hname : name ∈ reportNames) : s.Skirts hidden (join out name) := by
  obtain ⟨top, htop⟩ := Entry.isDir_of_prefix hat rfl List.nil_prefix
  rw [prepare] at hprepare
  cases hsettings : Settings.load s root with
  | error o =>
    rw [hsettings] at hprepare
    cases hprepare
  | ok c =>
    rw [hsettings] at hprepare
    cases out? with
    | some out =>
      cases hprepare
      exact h.reports c hsettings name hname
    | none =>
      have hout : out = s.realPath (join (s.realPath root) c.outputDir) := by
        simp only [bind, Except.bind] at hprepare
        split at hprepare
        · cases hprepare
        · next output houtput =>
          cases hprepare
          have hresolve := ((Settings.resolveOutput_ok_iff hs hbase hat).mp houtput).2.2.1
          rw [hbase]
          exact (Store.realPath_of_resolve hresolve).symm
      rw [hout]
      exact h.resolved htop hsettings hname

theorem clear_of_bare {ns place : List String} {c : Settings} (hc : Closed hidden) (hns : s.Bare ns)
    (hhidden : hidden ns = false) (hroot : ofParts ns = root) (hload : Settings.load s root = .ok c)
    (hout : ofParts place = outputPath s root out? c)
    (h : ∀ name ∈ reportNames, s.Bare (place ++ [name]) ∧ hidden (place ++ [name]) = false) :
    Clear s hidden root out? where
  base := hroot ▸ hns.skirts hc hhidden
  reports c' hc' name hname := by
    obtain rfl : c = c' := Except.ok.inj (hload.symm.trans hc')
    obtain ⟨hbare, hreport⟩ := h name hname
    have hplace := (hbare.of_isPrefix (List.prefix_append place [name])).isPart
    rw [← hout, join_ofParts (of_mem_reportNames hname).1 hplace]
    exact hbare.skirts hc hreport
  looping hnone c' hc' := by
    subst hnone
    obtain rfl : c = c' := Except.ok.inj (hload.symm.trans hc')
    have hname : "symbols.jsonl" ∈ reportNames := List.mem_cons_self
    have hplace := (h _ hname).1.of_isPrefix (List.prefix_append place _)
    rintro ⟨left, hleft⟩
    rw [← hout, s.names_ofParts hplace.isPart, hplace.realNames] at hleft
    cases hleft

/-- What a run shows in a store with hidden places. -/
def shownWithout (hidden : List String → Bool) (x : List (String × List Json) × Json × Store) :
    List (String × List Json) × Json × Store :=
  (x.1, x.2.1, x.2.2.without hidden)

theorem onLoaded_skirting (hc : Closed hidden) (hroot : hidden [] = false)
    (hat : s.root.at? [] = some (.dir entries))
    (h : ∀ name ∈ reportNames, s.Skirts hidden (join out name)) (c : Settings) (ws : Workspace) :
    ((onLoaded (s.without hidden) c out package? ws).shown root).2 =
      ((onLoaded s c out package? ws).shown root).2.map (shownWithout hidden) := by
  rw [onLoaded, onLoaded]
  cases selectPackages ws package? with
  | error o => rfl
  | ok packages =>
    have hwrite : writeAll (s.without hidden) out (draft c out ws packages).texts =
        (writeAll s out (draft c out ws packages).texts).map (·.without hidden) := by
      refine writeAll_skirting hc hroot hat (skirts_of_reports h) fun x hx => h x.1 ?_
      rw [← names_draft c out ws packages]
      exact List.mem_map_of_mem hx
    simp only [onWorkspace, hwrite]
    cases writeAll s out (draft c out ws packages).texts <;> rfl

open Discovery in
theorem settings_stripped {place : List String} {removed : String → Bool}
    (h : Strips s place removed) (hlinks : s.LinksAvoid (within place removed))
    (hroot : within place removed [] = false) (hskirts : s.Skirts (within place removed) root) :
    Settings.load (s.without (within place removed)) root = Settings.load s root := by
  have hc := closed_within place removed
  have hname : IsPart Settings.fileName := ⟨by decide, by decide, by decide⟩
  have hother : ∀ way, within place removed way = false →
      within place removed (way ++ [Settings.fileName]) = false := by
    intro way hway
    cases hsettings : within place removed (way ++ [Settings.fileName]) with
    | false => rfl
    | true =>
      rcases within_concat_iff.mp hsettings with ⟨-, hremoved⟩ | hhidden
      · have hsource := (h.only hremoved).1
        revert hsource
        decide
      · rw [hway] at hhidden
        cases hhidden
  have havoids : s.Avoids (within place removed) [] (s.names (join root Settings.fileName)) := by
    rw [Store.names_join _ _ hname]
    exact Store.avoids_concat hc hlinks hother hroot hskirts
  rw [Settings.load, Settings.load, Store.isFile_avoiding hc hroot havoids,
    Store.read_avoiding hc hroot havoids]

open Discovery in
theorem generate_stripped {place ns : List String} {removed : String → Bool}
    {found : List (String × Entry)} {r : Source.Registry} {e : Failure} (hs : s.Sound)
    (h : Strips s place removed) (hlinks : s.LinksAvoid (within place removed))
    (hat : s.root.at? ns = some (.dir entries)) (hplace : s.root.at? place = some (.dir found))
    (hsources : hasSources s (ofParts place) = .ok true)
    (hfail : (Load.package s (ofParts place) r).1 = .error e) (hroot : s.realPath root = ofParts ns)
    (hclear : Clear s (within place removed) root out?) :
    ((generate (s.without (within place removed)) root out? package?).shown (ofParts ns)).2 =
      ((generate s root out? package?).shown (ofParts ns)).2.map
        (shownWithout (within place removed)) := by
  have hc := closed_within place removed
  have hunhidden : within place removed [] = false := hc.root (h.unhidden hat)
  obtain ⟨top, htop⟩ := Entry.isDir_of_prefix hat rfl List.nil_prefix
  have hsettings := settings_stripped h hlinks hunhidden hclear.base
  rw [generate, generate, prepare_clear hs hc (h.unhidden hat) hroot hat hclear hsettings]
  cases hprepare : prepare s root out? with
  | error o => rfl
  | ok found =>
    obtain ⟨c, out⟩ := found
    have hws := Load.workspace_stripped hs h hlinks hat hplace hsources hfail hroot hclear.base
      c.respectIgnore
    dsimp only
    cases hload : Load.workspace s root c.respectIgnore with
    | mk result log =>
      cases hload' : Load.workspace (s.without (within place removed)) root c.respectIgnore with
      | mk result' log' =>
        rw [hload, hload'] at hws
        cases result with
        | error o =>
          cases result' with
          | error o' =>
            cases hws
            rfl
          | ok ws' => cases hws
        | ok ws =>
          cases result' with
          | error o' => cases hws
          | ok ws' =>
            have hloaded := Load.loaded hs.proper hload
            have hloaded' := Load.loaded (hs.without hc hunhidden).proper hload'
            obtain ⟨files, hregistered⟩ := hloaded'.registeredBy (Except.ok.inj hws)
            have hwsroot : ws.root = ofParts ns := by
              obtain ⟨ms, hms, hrooted, -⟩ := Load.rooted_loaded hs.proper hload
              rw [hrooted.root, ← hms, hroot]
            have hsame := onLoaded_registered hloaded hregistered (s.without (within place removed)) c
              out package?
            rw [hwsroot] at hsame
            exact (congrArg Prod.snd hsame).trans (onLoaded_skirting hc hunhidden htop
              (fun name => hclear.of_prepare hs hroot hat hprepare) c ws)

open Discovery in
/-- A package that fails leaves no trace. No file of it is in the workspace; each other directory with
sources, unless its package fails too, is there with all of them; and a run has the same outcome as
without these sources, if neither the root nor a report is found by way of one of them. -/
theorem failing_package_unseen {place ns dirs : List String} {found : List (String × Entry)}
    {respectIgnore : Bool} {ws : Workspace} {log : List LogRecord} {r : Source.Registry} {e : Failure}
    (hs : s.Sound) (hroot : s.realPath root = ofParts ns) (hat : s.root.at? ns = some (.dir entries))
    (hload : Load.workspace s root respectIgnore = (.ok ws, log))
    (hdirs : packageDirs s (ofParts ns) respectIgnore = .ok dirs)
    (hplace : s.root.at? place = some (.dir found)) (hmem : ofParts place ∈ dirs)
    (hfail : (Load.package s (ofParts place) r).1 = .error e) :
    (∀ f ∈ ws.files true, ∀ name, IsPart name → f.path ≠ ofParts (place ++ [name])) ∧
    (∀ way entries, s.root.at? way = some (.dir entries) → ofParts way ∈ dirs →
      ∀ r p, (Load.package s (ofParts way) r).1 = .ok p →
        ∃ q ∈ ws.packages, Load.Holding s way q ∧
          ∀ f ∈ q.allFiles true, ws.packageOfFile? f.path = some q) ∧
    ∀ removed out? package?, Strips s place removed → s.LinksAvoid (within place removed) →
      Clear s (within place removed) root out? →
      ((generate (s.without (within place removed)) root out? package?).shown (ofParts ns)).2 =
        ((generate s root out? package?).shown (ofParts ns)).2.map
          (shownWithout (within place removed)) := by
  obtain ⟨_, _, -, -, hsources⟩ := dir_of_packageDirs hs hat hdirs hmem
  obtain ⟨ms, hms, hrooted, hws⟩ := Load.rooted_loaded hs.proper hload
  obtain ⟨module?, dirs', -, hdirs', rfl⟩ := Load.workspace_ok hload
  rw [hroot] at hdirs'
  obtain rfl : dirs = dirs' := Except.ok.inj (hdirs.symm.trans hdirs')
  refine ⟨fun f hf name hname hpath => ?_, fun way entries hway hmem r p hok => ?_,
    fun removed out? package? hstrips hlinks hclear => ?_⟩
  · obtain ⟨p, hp, hf⟩ := List.mem_flatMap.mp hf
    obtain ⟨way, last, hparts, -, hdir, hfile⟩ := (hrooted.placed p hp).file hrooted.isPart hf
    have hall : ∀ n ∈ place ++ [name], IsPart n := by
      simpa [or_imp, forall_and] using ⟨(hs.bare hplace).isPart, hname⟩
    have heq := ofParts_inj hparts hall (hfile.symm.trans hpath)
    obtain ⟨r', q, hq⟩ := Load.package_of_assemble hp
    rw [hdir, (List.append_inj' heq rfl).1, Load.package_of_error s r' hfail] at hq
    cases hq
  · obtain ⟨q, hq, hholding⟩ := Load.holding_of_assemble hs hway hmem hok
    exact ⟨q, hq, hholding, fun f hf => hws.packageOfFile? hq hf⟩
  · exact generate_stripped hs hstrips hlinks hat hplace hsources hfail hroot hclear

/-- A package with an error in the second of its files. -/
def brokenFiles : List (String × Entry) :=
  [("y.go", .file "package\n".toUTF8), ("x.go", .file "package b\n".toUTF8)]

def brokenModule : List (String × Entry) :=
  [("go.mod", .file "module m\n".toUTF8), ("a.go", .file "package p\n".toUTF8),
    ("b", .dir brokenFiles)]

def broken : Store :=
  { root := .dir [("ws", .dir brokenModule)] }

theorem package_broken (r : Source.Registry) :
    ∃ e r', Load.package broken (ofParts ["ws", "b"]) r = (.error e, r') := by
  have hsources : Discovery.sources broken (ofParts ["ws", "b"]) =
      .ok (["x.go", "y.go"].map (join (ofParts ["ws", "b"]))) :=
    Load.sources_eq (by decide) (by decide +kernel)
  have hread : broken.read (join (ofParts ["ws", "b"]) "y.go") = .ok "package\n".toUTF8 := by
    decide +kernel
  have hparse : Syntax.parse? "package\n".toUTF8 = none := by decide +kernel
  have hfile : ∀ r, ∃ e, Load.file broken (join (ofParts ["ws", "b"]) "y.go") r = .error e := by
    intro r
    simp only [Load.file, hread, hparse]
    exact ⟨_, rfl⟩
  exact Load.package_of_failing hsources (by simp) hfile r

open Discovery in
theorem failing_package_unseen_broken : ∃ ws log,
    Load.workspace broken "/ws" false = (.ok ws, log) ∧
    (∀ f ∈ ws.files true, f.path ≠ "/ws/b/x.go") ∧
    (∃ q ∈ ws.packages, Load.Holding broken ["ws"] q) ∧
    ((generate (broken.without (within ["ws", "b"] (isStripped brokenFiles))) "/ws" none none).shown
        "/ws").2 =
      ((generate broken "/ws" none none).shown "/ws").2.map
        (shownWithout (within ["ws", "b"] (isStripped brokenFiles))) := by
  have hs : broken.Sound := Store.sound_of_isNeat (by decide +kernel)
  have hroot : broken.realPath "/ws" = ofParts ["ws"] := by decide +kernel
  have hat : broken.root.at? ["ws"] = some (.dir brokenModule) := rfl
  have hplace : broken.root.at? ["ws", "b"] = some (.dir brokenFiles) := rfl
  have hdirs : packageDirs broken (ofParts ["ws"]) false =
      .ok [ofParts ["ws"], ofParts ["ws", "b"]] := by
    decide +kernel
  have hsome : (Load.workspace broken "/ws" false).1.toOption.isSome := by decide +kernel
  obtain ⟨ws, hws⟩ := Option.isSome_iff_exists.mp hsome
  have hload := Load.workspace_of_toOption hws
  obtain ⟨e, r, hfail⟩ := package_broken {}
  have hother : sources broken (ofParts ["ws"]) = .ok [join (ofParts ["ws"]) "a.go"] :=
    Load.sources_single (by decide +kernel)
  have hread : broken.read (join (ofParts ["ws"]) "a.go") = .ok "package p\n".toUTF8 := by
    decide +kernel
  have hparse : (Syntax.parse? "package p\n".toUTF8).isSome := by decide +kernel
  obtain ⟨tree, hparse⟩ := Option.isSome_iff_exists.mp hparse
  have hpackage := Load.package_single {} hother hread hparse (by decide +kernel)
  have hclear : Clear broken (within ["ws", "b"] (isStripped brokenFiles)) "/ws" none := by
    have hsettings : Settings.load broken "/ws" = .ok {} := by decide +kernel
    have hout : ofParts ["ws", ".goscope"] = outputPath broken "/ws" none {} := by decide +kernel
    refine clear_of_bare (closed_within _ _) (hs.bare hat) rfl (by decide) hsettings hout ?_
    intro name hname
    obtain ⟨hpart, hdown, -⟩ := of_mem_reportNames hname
    have hnames : ∀ n ∈ [".goscope", name], IsPart n ∧ n ≠ ".." := by
      simpa using ⟨by decide, hpart, hdown⟩
    have hbare : broken.Bare (["ws"] ++ ".goscope" :: [name]) := hs.bare_missing hat rfl hnames
    exact ⟨hbare, rfl⟩
  obtain ⟨hunseen, hholding, hsame⟩ := failing_package_unseen hs hroot hat hload hdirs hplace
    (by simp) (congrArg Prod.fst hfail)
  obtain ⟨q, hq, hholds, -⟩ := hholding ["ws"] _ hat (by simp) {} _ (congrArg Prod.fst hpackage)
  refine ⟨ws, _, hload, fun f hf => hunseen f hf "x.go" (by decide), ⟨q, hq, hholds⟩, ?_⟩
  exact hsame _ none none (strips_isStripped hplace)
    (Store.linksAvoid_of_hidden hs (by decide +kernel)) hclear

theorem packages_new (hs : s.Sound) {name : String} {c : Settings} (count : Nat)
    (way rest : List String) (hway : s.root.at? way = some (.dir entries))
    (hnone : s.root.at? (way ++ [name]) = none) (hnames : ∀ n ∈ name :: rest, IsPart n ∧ n ≠ "..")
    (hout : ofParts (way ++ name :: rest) = out) (hprepare : prepare s root out? = .ok (c, out))
    (hload : ∃ ws ∈ (Load.workspace s root c.respectIgnore).1.toOption, ws.packages.length = count) :
    (generate s root out? none).result.toOption.map (·.1.packages) = some count := by
  obtain ⟨ws, hws, rfl⟩ := hload
  have hselect : selectPackages ws none = .ok ws.packages := rfl
  obtain ⟨u, hrun⟩ := generate_new hs way rest hway hnone hnames hout hprepare
    (Load.workspace_of_toOption hws) hselect
  rw [hrun]
  rfl

/-- A module whose reports belong below a source. -/
def blockingFiles : List (String × Entry) :=
  [("x.go", .file "package\n".toUTF8)]

def blocking : Store :=
  { root := .dir [("ws", .dir [("go.mod", .file "module m\n".toUTF8),
      ("a.go", .file "package p\n".toUTF8), ("b", .dir blockingFiles),
      ("goscope.toml", .file "output_dir = \"b/x.go/reports\"\n".toUTF8)])] }

/-- A module whose reports belong below a source, by a path that leads into a loop first. -/
def looping : Store :=
  { root := .dir [("ws", .dir [("go.mod", .file "module m\n".toUTF8),
      ("a.go", .file "package p\n".toUTF8), ("b", .dir blockingFiles), ("loop", .link "loop"),
      ("goscope.toml", .file "output_dir = \"loop/../b/x.go/reports\"\n".toUTF8)])] }

theorem passes_looping {done todo rest place : List String} (h : looping.Passes done todo place)
    (hdone : done = ["ws"]) (htodo : todo = "loop" :: rest) : place = ["ws", "loop"] := by
  induction h generalizing rest with
  | here hname =>
    subst hdone
    obtain ⟨rfl, -⟩ := List.cons.inj htodo
    rfl
  | up hp ih => exact absurd (List.cons.inj htodo).1 (by decide)
  | down hname hnone hp ih =>
    subst hdone
    obtain ⟨rfl, -⟩ := List.cons.inj htodo
    exact (hnone "loop" rfl).elim
  | jump hname hat hp ih =>
    subst hdone
    obtain ⟨rfl, rfl⟩ := List.cons.inj htodo
    cases hat
    exact ih rfl rfl

open Discovery in
theorem skirts_looping {c : Settings} (hs : looping.Sound)
    (hload : Settings.load looping "/ws" = .ok c) {name : String} (hname : name ∈ reportNames) :
    looping.Skirts (within ["ws", "b"] (isStripped blockingFiles))
      (join (outputPath looping "/ws" none c) name) := by
  have hsettings : Settings.load looping "/ws" = .ok { outputDir := "loop/../b/x.go/reports" } := by
    decide +kernel
  obtain rfl := Except.ok.inj (hsettings.symm.trans hload)
  have hnames : looping.names (outputPath looping "/ws" none
      { outputDir := "loop/../b/x.go/reports" }) =
      ["ws", "loop", "..", "b", "x.go", "reports"] := by
    decide +kernel
  have hbare : looping.Bare ["ws"] := hs.bare rfl
  intro place hp
  rw [Store.names_join _ _ (of_mem_reportNames hname).1, hnames] at hp
  rcases hbare.passes hp with hp | hp
  · exact hbare.skirts (closed_within _ _) rfl place hp
  · rw [passes_looping hp rfl rfl]
    rfl

open Discovery in
/-- A package that fails, with sources to which no link leads, and a run that is another without
them. -/
structure Obstructs (s : Store) (root : String) (place : List String) (removed : String → Bool) :
    Prop where
  sound : s.Sound
  loads : (Load.workspace s root false).1.toOption.isSome
  discovered : ofParts place ∈ (packageDirs s (s.realPath root) false).toOption.getD []
  fails : (Load.package s (ofParts place) {}).1.toOption.isNone
  strips : Strips s place removed
  links : s.LinksAvoid (within place removed)
  differs :
    (generate (s.without (within place removed)) root none none).result.toOption.map (·.1.packages) ≠
      (generate s root none none).result.toOption.map (·.1.packages)

open Discovery in
theorem packages_without_blocking {c : Settings} (hs : s.Sound)
    (hat : s.root.at? ["ws", "b"] = some (.dir blockingFiles))
    (hprepare : prepare (s.without (within ["ws", "b"] (isStripped blockingFiles))) "/ws" none =
      .ok (c, "/ws/b/x.go/reports"))
    (hload : ∃ ws ∈ (Load.workspace (s.without (within ["ws", "b"] (isStripped blockingFiles))) "/ws"
      c.respectIgnore).1.toOption, ws.packages.length = 1) :
    (generate (s.without (within ["ws", "b"] (isStripped blockingFiles))) "/ws" none
      none).result.toOption.map (·.1.packages) = some 1 := by
  have hc := closed_within ["ws", "b"] (isStripped blockingFiles)
  have hnone : (s.without (within ["ws", "b"] (isStripped blockingFiles))).root.at?
      (["ws", "b"] ++ ["x.go"]) = none :=
    Entry.at?_without_of_hidden rfl rfl
  exact packages_new (hs.without hc rfl) 1 ["ws", "b"] ["reports"] (Store.dir_without hc rfl hat)
    hnone (by decide) (by decide) hprepare hload

open Discovery in
theorem obstructs_blocking :
    Obstructs blocking "/ws" ["ws", "b"] (isStripped blockingFiles) := by
  have hs : blocking.Sound := Store.sound_of_isNeat (by decide +kernel)
  have hat : blocking.root.at? ["ws", "b"] = some (.dir blockingFiles) := rfl
  have hprepare : prepare (blocking.without (within ["ws", "b"] (isStripped blockingFiles))) "/ws"
      none = .ok ({ outputDir := "b/x.go/reports" }, "/ws/b/x.go/reports") := by
    decide +kernel
  have hkept := packages_without_blocking hs hat hprepare (by decide +kernel)
  have hblocked : (generate blocking "/ws" none none).result.toOption.map (·.1.packages) = none := by
    decide +kernel
  exact {
    sound := hs
    loads := by decide +kernel
    discovered := by decide +kernel
    fails := by decide +kernel
    strips := strips_isStripped hat
    links := Store.linksAvoid_of_hidden hs (by decide +kernel)
    differs := by
      rw [hkept, hblocked]
      exact Option.some_ne_none 1 }

open Discovery in
theorem obstructs_looping :
    Obstructs looping "/ws" ["ws", "b"] (isStripped blockingFiles) := by
  have hs : looping.Sound := Store.sound_of_isNeat (by decide +kernel)
  have hat : looping.root.at? ["ws", "b"] = some (.dir blockingFiles) := rfl
  have hprepare : prepare (looping.without (within ["ws", "b"] (isStripped blockingFiles))) "/ws"
      none = .ok ({ outputDir := "loop/../b/x.go/reports" }, "/ws/b/x.go/reports") := by
    decide +kernel
  have hkept := packages_without_blocking hs hat hprepare (by decide +kernel)
  have hblocked : (generate looping "/ws" none none).result.toOption.map (·.1.packages) = none := by
    decide +kernel
  have hplaces : looping.linkPlaces = [["ws"] ++ ["loop"]] := by decide +kernel
  exact {
    sound := hs
    loads := by decide +kernel
    discovered := by decide +kernel
    fails := by decide +kernel
    strips := strips_isStripped hat
    links := by
      intro done name target _ hat place hvisits
      have hmem := Store.mem_linkPlaces hs hat
      rw [hplaces] at hmem
      obtain ⟨rfl, heq⟩ := List.append_inj' (List.mem_singleton.mp hmem) rfl
      cases heq
      cases hat
      rw [passes_looping hvisits.passes rfl rfl]
      rfl
    differs := by
      rw [hkept, hblocked]
      exact Option.some_ne_none 1 }

/-- A module whose root is told by way of a source, which is a link to what is missing. -/
def misleadingFiles : List (String × Entry) :=
  [("x.go", .link "../c")]

def misleading : Store :=
  { root := .dir [("ws", .dir [("go.mod", .file "module m\n".toUTF8),
      ("a.go", .file "package p\n".toUTF8), ("b", .dir misleadingFiles)])] }

open Discovery in
theorem obstructs_misleading :
    Obstructs misleading "/ws/b/x.go/.." ["ws", "b"] (isStripped misleadingFiles) := by
  have hs : misleading.Sound := Store.sound_of_isNeat (by decide +kernel)
  have hprepare : prepare misleading "/ws/b/x.go/.." none = .ok ({}, "/ws/.goscope") := by
    decide +kernel
  have hnone : misleading.root.at? (["ws"] ++ [".goscope"]) = none := rfl
  have hall := packages_new hs 1 ["ws"] [] rfl hnone (by decide) (by decide) hprepare
    (by decide +kernel)
  have hc := closed_within ["ws", "b"] (isStripped misleadingFiles)
  have hat : misleading.root.at? ["ws", "b"] = some (.dir misleadingFiles) := rfl
  have hnone' : (misleading.without (within ["ws", "b"] (isStripped misleadingFiles))).root.at?
      (["ws", "b"] ++ [".goscope"]) = none :=
    Store.at?_without hc rfl
  have hprepare' : prepare (misleading.without (within ["ws", "b"] (isStripped misleadingFiles)))
      "/ws/b/x.go/.." none = .ok ({}, "/ws/b/.goscope") := by
    decide +kernel
  have hkept := packages_new (hs.without hc rfl) 0 ["ws", "b"] [] (Store.dir_without hc rfl hat)
    hnone' (by decide) (by decide) hprepare' (by decide +kernel)
  exact {
    sound := hs
    loads := by decide +kernel
    discovered := by decide +kernel
    fails := by decide +kernel
    strips := strips_isStripped hat
    links := Store.linksAvoid_of_hidden hs (by decide +kernel)
    differs := by
      rw [hkept, hall]
      decide }

open Discovery in
/-- No condition on paths can be left out: a source may stand where a report is to be written, where it
is to be written once a path is resolved that leads into a loop, and on the way to the root. -/
theorem failing_package_seen :
    Obstructs blocking "/ws" ["ws", "b"] (isStripped blockingFiles) ∧
      Obstructs misleading "/ws/b/x.go/.." ["ws", "b"] (isStripped misleadingFiles) ∧
      Obstructs looping "/ws" ["ws", "b"] (isStripped blockingFiles) ∧
      ∀ c, Settings.load looping "/ws" = .ok c → ∀ name ∈ reportNames,
        looping.Skirts (within ["ws", "b"] (isStripped blockingFiles))
          (join (outputPath looping "/ws" none c) name) :=
  ⟨obstructs_blocking, obstructs_misleading, obstructs_looping,
    fun _ hload _ => skirts_looping obstructs_looping.sound hload⟩

end Report

end GoAtlas
