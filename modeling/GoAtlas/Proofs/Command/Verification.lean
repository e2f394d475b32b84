import GoAtlas.Command.Run
import GoAtlas.Proofs.Check.Verdicts
import GoAtlas.Proofs.Report.Comparison
import GoAtlas.Proofs.Report.Alike

namespace GoAtlas

open Files GoAtlas.Path

namespace Report

variable {s t u : Store} {place way ns : List String} {entries : List (String × Entry)}
  {texts : List (String × String)} {name : String} {e : Entry}

def isTouched (s : Store) (place way : List String) : Bool :=
  reportNames.any (fun name => (place ++ [name]).isPrefixOf way) ||
    place.inits.any fun start => (s.root.at? start).isNone && start.isPrefixOf way

theorem isTouched_iff : isTouched s place way = true ↔
    (∃ name ∈ reportNames, place ++ [name] <+: way) ∨
      ∃ start, start <+: place ∧ s.root.at? start = none ∧ start <+: way := by
  simp [isTouched, List.mem_inits]

theorem closed_isTouched (s : Store) (place : List String) : Closed (isTouched s place) := by
  intro way more h
  rcases isTouched_iff.mp h with ⟨name, hname, hp⟩ | ⟨start, hstart, hnone, hp⟩
  · exact isTouched_iff.mpr (.inl ⟨name, hname, hp.trans (List.prefix_append way more)⟩)
  · exact isTouched_iff.mpr (.inr ⟨start, hstart, hnone, hp.trans (List.prefix_append way more)⟩)

/-- A directory that is missing, or in which no entry at any depth leads to a file but the reports. -/
def OnlyReports (s : Store) (place : List String) : Prop :=
  ∀ way e, s.root.at? (place ++ way) = some e → s.isFile (ofParts (place ++ way)) = true →
    ∃ name ∈ reportNames, way = [name]

def Enclosed (s : Store) (place : List String) : Prop :=
  ∀ x, s.LeadsBy x → ¬place <+: x

/-- A directory without files but the reports, which are files themselves. -/
structure Clean (s : Store) (place : List String) : Prop where
  files : OnlyReports s place
  regular : ∀ name ∈ reportNames, ∀ target, s.root.at? (place ++ [name]) ≠ some (.link target)

/-- No link leads into a directory, or by what is missing on the way to it. -/
structure Unlinked (s : Store) (place : List String) : Prop where
  into : Enclosed s place
  missing : ∀ x, s.LeadsBy x → ∀ start, start <+: place → s.root.at? start = none → ¬start <+: x

theorem onlyReports_of_none (h : s.root.at? place = none) : OnlyReports s place := by
  intro way e hat
  rw [Entry.at?_append, h] at hat
  cases hat

theorem clean_of_none (h : s.root.at? place = none) : Clean s place where
  files := onlyReports_of_none h
  regular name _ target hat := by
    rw [Entry.at?_append, h] at hat
    cases hat

theorem unlinked_of_noLinks (hs : s.Sound) (h : (s.root.leaves []).filter (·.2.isLink) = []) :
    Unlinked s place := by
  have hnone := Store.not_leadsBy_of_noLinks hs h
  exact ⟨fun x hx => (hnone x hx).elim, fun x hx => (hnone x hx).elim⟩

theorem enclosed_of_links (hs : s.Sound) {links : List (List String × String × String)}
    (hlinks : (s.root.leaves []).filter (·.2.isLink) =
      links.map fun l => (l.1 ++ [l.2.1], .link l.2.2))
    (h : ∀ way name target, (way, name, target) ∈ links → ∀ x,
      s.Visits (if Path.isAbsolute target then [] else way) (Path.parts target) x → ¬place <+: x) :
    Enclosed s place := by
  intro x hx
  obtain ⟨way, name, target, hleaf, hv⟩ := hx.leaf hs
  rw [hlinks] at hleaf
  obtain ⟨l, hl, heq⟩ := List.mem_map.mp hleaf
  rw [Prod.mk.injEq, Entry.link.injEq] at heq
  obtain ⟨hplace, rfl⟩ := heq
  obtain ⟨rfl, -⟩ := List.append_inj' hplace rfl
  exact h _ _ _ hl x hv

theorem Unlinked.linksAvoid (h : Unlinked s place) : s.LinksAvoid (isTouched s place) := by
  intro way name target _ hlink x hv
  have hleads : s.LeadsBy x := ⟨way, name, target, hlink, hv⟩
  cases htouched : isTouched s place x with
  | false => rfl
  | true =>
    rcases isTouched_iff.mp htouched with ⟨r, -, hp⟩ | ⟨start, hstart, hnone, hp⟩
    · exact (h.into x hleads ((List.prefix_append place [r]).trans hp)).elim
    · exact (h.missing x hleads start hstart hnone hp).elim

/-- A store to which reports have been written. -/
structure Reported (s : Store) (place : List String) (texts : List (String × String)) (u : Store) :
    Prop where
  sound : s.Sound
  names : texts.map (·.1) = reportNames
  written : ∃ t, s.Made place t ∧ Written t place texts u

namespace Reported

variable (h : Reported s place texts u)
include h

theorem part (x : String × String) (hx : x ∈ texts) : IsPart x.1 ∧ x.1 ≠ ".." := by
  obtain ⟨hpart, hdown, -⟩ := of_mem_reportNames (h.names ▸ List.mem_map_of_mem hx)
  exact ⟨hpart, hdown⟩

theorem dir : ∃ entries, u.root.at? place = some (.dir entries) := by
  obtain ⟨t, -, hwritten⟩ := h.written
  exact hwritten.dir

theorem without_eq : u.without (isTouched s place) = s.without (isTouched s place) := by
  obtain ⟨t, hmade, hwritten⟩ := h.written
  rw [hwritten.unseen, hmade.unseen]
  · intro way hway hnone
    exact isTouched_iff.mpr (.inr ⟨way, hway, hnone, List.prefix_refl way⟩)
  · intro x hx
    exact isTouched_iff.mpr
      (.inl ⟨x.1, h.names ▸ List.mem_map_of_mem hx, List.prefix_refl _⟩)

theorem report_of_isTouched (htouched : isTouched s place way = true)
    (hat : s.root.at? way = some e) :
    ∃ name ∈ reportNames, ∃ content, way = place ++ [name] ∧ e = .file content := by
  obtain ⟨t, hmade, hwritten⟩ := h.written
  rcases isTouched_iff.mp htouched with ⟨name, hname, rest, rfl⟩ | ⟨start, -, hnone, rest, rfl⟩
  · rw [Entry.at?_append] at hat
    obtain ⟨f, hf, hrest⟩ := Option.bind_eq_some_iff.mp hat
    obtain ⟨x, hx, rfl⟩ := List.mem_map.mp (h.names ▸ hname)
    obtain ⟨content, rfl⟩ := (hwritten.free x hx).noDir f (hmade.kept [x.1] f hf)
    cases rest with
    | nil =>
      cases hrest
      exact ⟨x.1, hname, content, List.append_nil _, rfl⟩
    | cons next rest => cases hrest
  · rw [Entry.at?_append, hnone] at hat
    cases hat

theorem tame_before : Tame s (isTouched s place) := by
  intro way e htouched hat
  obtain ⟨name, hname, content, hway, he⟩ := h.report_of_isTouched htouched hat
  exact .inr ⟨place, name, hname, content, hway, he⟩

theorem tame_after : Tame u (isTouched s place) := by
  intro way e htouched hat
  have hbefore := h.tame_before
  obtain ⟨t, hmade, hwritten⟩ := h.written
  rcases hwritten.others way e hat with ⟨x, hx, rfl⟩ | hold | ⟨_, _, rfl, -⟩
  · rw [hwritten.reports x hx] at hat
    cases hat
    exact .inr ⟨place, x.1, h.names ▸ List.mem_map_of_mem hx, _, rfl, rfl⟩
  · rcases hmade.others way e hold with hold | ⟨-, hdir⟩
    · exact hbefore way e htouched hold
    · exact .inl hdir
  · exact .inl rfl

theorem sound_after : u.Sound := by
  obtain ⟨t, -, hwritten⟩ := h.written
  exact hwritten.sound

theorem not_isTouched (hat : s.root.at? way = some (.dir entries)) : isTouched s place way = false := by
  cases htouched : isTouched s place way with
  | false => rfl
  | true =>
    obtain ⟨_, _, _, _, hfile⟩ := h.report_of_isTouched htouched hat
    cases hfile

variable (hunlinked : Unlinked s place)
include hunlinked

/-- The reports are not seen by what is read elsewhere. -/
theorem alike : Alike s u (isTouched s place) where
  closed := closed_isTouched s place
  before := h.sound
  after := h.sound_after
  links := hunlinked.linksAvoid
  tame := h.tame_before
  tameAfter := h.tame_after
  same := h.without_eq

/-- The files of the directory are the reports. -/
theorem mem_contents (hclean : Clean s place) (x : String × ByteArray) :
    x ∈ u.contents (ofParts place) ↔ x ∈ contentsOf texts := by
  obtain ⟨t, hmade, hwritten⟩ := h.written
  apply hwritten.mem_contents h.part
  intro way leaf hway hleaf hne
  have hbefore : s.root.at? (place ++ way) = some leaf := by
    rcases hwritten.others _ _ hway with ⟨x, hx, he⟩ | hold | ⟨_, _, rfl, -⟩
    · exact (hne x hx (List.append_cancel_left he)).elim
    · rcases hmade.others _ _ hold with hold | ⟨-, hdir⟩
      · exact hold
      · rw [hleaf] at hdir
        cases hdir
    · cases hleaf
  have hreport : ∀ name ∈ reportNames, way ≠ [name] := by
    intro name hname he
    obtain ⟨x, hx, rfl⟩ := List.mem_map.mp (h.names ▸ hname)
    exact hne x hx he
  have huntouched : isTouched s place (place ++ way) = false := by
    cases htouched : isTouched s place (place ++ way) with
    | false => rfl
    | true =>
      obtain ⟨name, hname, -, he, -⟩ := h.report_of_isTouched htouched hbefore
      exact (hreport name hname (List.append_cancel_left he)).elim
  have hsame : u.isFile (ofParts (place ++ way)) = s.isFile (ofParts (place ++ way)) := by
    rcases List.eq_nil_or_concat way with rfl | ⟨before, last, rfl⟩
    · obtain ⟨found, hdir⟩ := hwritten.dir
      rw [List.append_nil, hdir] at hway
      cases hway
      cases hleaf
    · rw [List.concat_eq_append, ← List.append_assoc] at hway hbefore huntouched ⊢
      exact (h.alike hunlinked).isFile_after huntouched hbefore hway
  rw [hsame]
  cases hfile : s.isFile (ofParts (place ++ way)) with
  | false => rfl
  | true =>
    obtain ⟨name, hname, he⟩ := hclean.files way leaf hbefore hfile
    exact (hreport name hname he).elim

end Reported

theorem writeAll_ok {dir : String} (h : writeAll s dir texts = .ok u) :
    ∃ t, s.makeDirs dir = .ok t ∧ writeTexts dir texts t = .ok u := by
  rw [writeAll] at h
  cases hmake : s.makeDirs dir with
  | error e =>
    rw [hmake] at h
    cases h
  | ok t =>
    rw [hmake] at h
    exact ⟨t, rfl, h⟩

theorem reported_of_writeAll (hs : s.Sound) (hroot : s.root.at? [] = some (.dir entries))
    (hplace : s.Bare place)
    (hregular : ∀ name ∈ reportNames, ∀ target, s.root.at? (place ++ [name]) ≠ some (.link target))
    (hnames : texts.map (·.1) = reportNames) (h : writeAll s (ofParts place) texts = .ok u) :
    Reported s place texts u := by
  obtain ⟨t, hmake, hwrite⟩ := writeAll_ok h
  have hmade := Store.made_of_makeDirs hs hplace hroot hmake
  obtain ⟨found, hdir⟩ := hmade.dir
  have hmem : ∀ x ∈ texts, x.1 ∈ reportNames := fun x hx => hnames ▸ List.mem_map_of_mem hx
  refine ⟨hs, hnames, t, hmade, written_of_writeTexts hmade.sound hdir ?_
    (hnames ▸ nodup_reportNames) ?_ hwrite⟩
  · intro x hx
    obtain ⟨hpart, hdown, -⟩ := of_mem_reportNames (hmem x hx)
    exact ⟨hpart, hdown⟩
  · intro x hx target hlink
    rcases hmade.others _ _ hlink with hold | ⟨-, hdir⟩
    · exact hregular x.1 (hmem x hx) target hold
    · cases hdir

theorem alike_vacant {dir : String} (hs : s.Sound) (h : s.Vacant dir name way)
    {files : List (String × ByteArray)} (hnodup : (files.map (·.1)).Nodup)
    (hnames : ∀ x ∈ files, x.1 ∈ reportNames) :
    Alike s (s.putAt (way ++ [name]) (Store.folder files)) (Store.below (way ++ [name])) where
  closed := Store.closed_below _
  before := hs
  after := by
    obtain ⟨entries, hat⟩ := h.at?
    have hbare := hs.bare_concat hat h.isPart h.down (by simp [h.none])
    refine hs.putAt_folder hbare.isPart hbare.down hnodup fun x hx => ?_
    obtain ⟨hpart, hdown, -⟩ := of_mem_reportNames (hnames x hx)
    exact ⟨hpart, hdown⟩
  links := h.linksAvoid
  tame other e hbelow hat := by
    rw [h.unhidden hat] at hbelow
    cases hbelow
  tameAfter other e hbelow hat := by
    obtain ⟨rest, rfl⟩ := Store.below_iff.mp hbelow
    rw [Store.putAt, Entry.at?_put_append] at hat
    cases rest with
    | nil =>
      cases hat
      exact .inl rfl
    | cons first rest =>
      obtain ⟨rfl, content, hmem, rfl⟩ := Store.file_of_folder hat
      exact .inr ⟨way ++ [name], first, hnames _ hmem, content, rfl, rfl⟩
  same := h.without_putAt _

theorem verify_of_load {c : Settings} {ws : Workspace} {log : List LogRecord} {dir : String}
    {found : List (String × Entry)} (hs : s.Sound) (hplace : s.root.at? place = some (.dir found))
    (hat : s.root.at? ns = some (.dir entries)) (htemp : s.Vacant dir name way)
    (hsettings : Settings.load s (ofParts ns) = .ok c)
    (hload : Load.workspace s (ofParts ns) c.respectIgnore = (.ok ws, log)) (out : String) :
    ∃ log t, t = s.putAt (way ++ [name])
        (Store.folder (contentsOf (draft c out ws ws.packages).texts)) ∧
      verify s (ofParts ns) (ofParts place) (join dir name) =
        ⟨log, .ok (.ofContents (t.contents (ofParts place)) (t.contents (join dir name)))⟩ := by
  have hnames : (draft c (join dir name) ws ws.packages).texts.map (·.1) = reportNames := rfl
  have hempty : Alike s (s.putAt (way ++ [name]) (Store.folder [])) (Store.below (way ++ [name])) :=
    alike_vacant hs htemp List.nodup_nil (by simp)
  have hroot := htemp.unhidden hat
  rw [← hempty.settings_after hat hroot] at hsettings
  rw [← hempty.workspace_after hat hroot] at hload
  have hprepare : prepare (s.putAt (way ++ [name]) (Store.folder [])) (ofParts ns)
      (some (join dir name)) = .ok (c, join dir name) := by
    rw [prepare, hsettings]
    rfl
  have hnew : s.makeNew (join dir name) = .ok (s.putAt (way ++ [name]) (Store.folder [])) :=
    htemp.makeNew
  have hwrite : writeAll (s.putAt (way ++ [name]) (Store.folder [])) (join dir name)
      (draft c (join dir name) ws ws.packages).texts = _ := writeAll_vacant htemp hnames
  rw [verify, Store.entry?, hs.locate hplace]
  simp only [Except.toOption, Option.map_some, hnew, generate, hprepare, hload, onLoaded,
    selectPackages, onWorkspace, hwrite]
  exact ⟨_, _, rfl, rfl⟩

theorem not_below_of_apart {dir : String} {found : List (String × Entry)}
    (hplace : s.root.at? place = some (.dir found)) (htemp : s.Vacant dir name way)
    (hapart : ¬place <+: way) (rest : List String) :
    Store.below (way ++ [name]) (place ++ rest) = false := by
  cases hbelow : Store.below (way ++ [name]) (place ++ rest) with
  | false => rfl
  | true =>
    rcases List.prefix_or_prefix_of_prefix (Store.below_iff.mp hbelow)
      (List.prefix_append place rest) with hp | hp
    · have hunhidden := htemp.unhidden hplace
      rw [Store.below_iff.mpr hp] at hunhidden
      cases hunhidden
    · rcases List.prefix_concat_iff.mp hp with rfl | hp
      · rw [htemp.none] at hplace
        cases hplace
      · exact (hapart hp).elim

theorem exists_of_inside {files : List (String × ByteArray)} (hs : s.Sound)
    (hat : s.root.at? (place ++ way) = some (Store.folder files)) (hway : way ≠ [])
    {x : String × ByteArray} (hx : x ∈ files) (hname : IsPart x.1 ∧ x.1 ≠ "..") :
    ∃ path, (path, x.2) ∈ s.contents (ofParts place) ∧ ¬IsPart path := by
  obtain ⟨found, hplace⟩ := Entry.isDir_of_prefix hat rfl (List.prefix_append place way)
  have hfile : s.root.at? (place ++ way ++ [x.1]) = some (.file x.2) := by
    rw [Entry.at?_concat hat]
    exact (Entry.Proper.at? hs.proper hat).lookup_of_mem
      (List.mem_map_of_mem (f := fun x => (x.1, Entry.file x.2)) hx)
  refine ⟨"/".intercalate (way ++ [x.1]), (Store.mem_contents hs hplace).mpr
    ⟨way ++ [x.1], _, List.append_assoc place way [x.1] ▸ hfile, rfl, rfl, ?_⟩, fun hpart => ?_⟩
  · rw [← List.append_assoc]
    exact hs.read_concat hat hname.1 hname.2 hfile
  · have hparts : ∀ n ∈ way ++ [x.1], IsPart n := fun n hn =>
      Entry.Proper.isPart hs.proper hfile n (List.append_assoc place way [x.1] ▸
        List.mem_append_right place hn)
    have hlength := congrArg List.length ((parts_intercalate hparts).symm.trans (parts_of_isPart hpart))
    simp only [List.length_append, List.length_singleton] at hlength
    exact hway (List.eq_nil_of_length_eq_zero (by omega))

/-- What verification compares after reports have been written: the files of a new run, which finds what
it would have found before, with these reports, unless their directory holds the new one. -/
theorem Reported.verify_eq {c : Settings} {ws : Workspace} {log : List LogRecord} {dir : String}
    (h : Reported s place texts u) (hat : s.root.at? ns = some (.dir entries))
    (hclean : Clean s place) (hunlinked : Unlinked s place) (htemp : u.Vacant dir name way)
    (hsettings : Settings.load s (ofParts ns) = .ok c)
    (hload : Load.workspace s (ofParts ns) c.respectIgnore = (.ok ws, log)) (out : String) :
    ∃ log written fresh, verify u (ofParts ns) (ofParts place) (join dir name) =
        ⟨log, .ok (.ofContents written fresh)⟩ ∧
      (∀ x, x ∈ fresh ↔ x ∈ contentsOf (draft c out ws ws.packages).texts) ∧
      (¬place <+: way → ∀ x, x ∈ written ↔ x ∈ contentsOf texts) ∧
      (place <+: way → ∃ x ∈ written, ¬IsPart x.1) := by
  have hnames : (contentsOf (draft c out ws ws.packages).texts).map (·.1) = reportNames := by
    rw [contentsOf, List.map_map]
    rfl
  obtain ⟨found, hdir⟩ := h.dir
  have halike := h.alike hunlinked
  obtain ⟨entries', hat'⟩ := halike.dir_after hat (h.not_isTouched hat)
  rw [← halike.settings_after hat (h.not_isTouched hat)] at hsettings
  rw [← halike.workspace_after hat (h.not_isTouched hat)] at hload
  obtain ⟨log, t, rfl, hverify⟩ := verify_of_load h.sound_after hdir hat' htemp hsettings hload out
  generalize contentsOf (draft c out ws ws.packages).texts = files at hnames hverify ⊢
  have hfilled := alike_vacant h.sound_after htemp (hnames ▸ nodup_reportNames) fun x hx =>
    hnames ▸ List.mem_map_of_mem hx
  refine ⟨log, _, _, hverify, mem_contents_folder hfilled.after (htemp.locate rfl),
    fun hapart x => ?_, fun hinside => ?_⟩
  · rw [hfilled.mem_contents_after hdir (not_below_of_apart hdir htemp hapart),
      h.mem_contents hunlinked hclean]
  · obtain ⟨rest, hrest⟩ := hinside
    have hnew : (u.putAt (way ++ [name]) (Store.folder files)).root.at? (way ++ [name]) =
        some (Store.folder files) := Entry.at?_put _ _ _
    have hfirst : "symbols.jsonl" ∈ files.map (·.1) := by
      rw [hnames]
      exact List.mem_cons_self
    obtain ⟨x, hx, -⟩ := List.mem_map.mp hfirst
    obtain ⟨hpart, hdown, -⟩ := of_mem_reportNames (hnames ▸ List.mem_map_of_mem hx)
    rw [← hrest, List.append_assoc] at hnew
    rw [← hrest, List.append_assoc] at hfilled ⊢
    obtain ⟨path, hpath, hno⟩ := exists_of_inside hfilled.after hnew (by simp) hx ⟨hpart, hdown⟩
    exact ⟨_, hpath, hno⟩

end Report

namespace Command

open Report

variable {s : Store} {root : String} {out? : Option String} {level level' : LogLevel}
  {ns place way : List String} {entries : List (String × Entry)} {outcome : Outcome}
  {dir name : String}

theorem mapError_eq_ok {α ε ε' : Type} {f : ε → ε'} {x : Except ε α} {a : α} :
    x.mapError f = .ok a ↔ x = .ok a := by
  cases x <;> simp [Except.mapError]

theorem analyze_ok (hrun : run s ⟨level, .analyze root out? none⟩ = .ok outcome)
    (hcode : outcome.code = 0) : ∃ path dir? summary, s.resolve root = .ok path ∧
      (out?.mapM fun dir => (s.resolve dir).mapError Obstacle.unwritable) = .ok dir? ∧
      (generate s path dir? none).result = .ok (summary, outcome.store) := by
  simp only [run, analyze, bind, Except.bind] at hrun
  split at hrun
  · cases hrun
  next path hpath =>
  split at hrun
  · cases hrun
  next dir? hdir =>
  split at hrun
  · next summary after hresult =>
    cases hrun
    exact ⟨path, dir?, summary, mapError_eq_ok.mp hpath, hdir, hresult⟩
  · next o hresult =>
    unfold stopped at hrun
    split at hrun
    · cases hrun
    · cases hrun
    · cases hrun
      cases hcode

theorem prepare_eq {c : Settings} {out dir : String} {dir? : Option String}
    (hout : (out?.mapM fun dir => (s.resolve dir).mapError Obstacle.unwritable) = .ok dir?)
    (hprepare : prepare s root dir? = .ok (c, out)) (hdir : reportsDir s root out? = .ok dir) :
    Settings.load s root = .ok c ∧ out = dir := by
  rw [prepare] at hprepare
  cases hload : Settings.load s root with
  | error o =>
    rw [hload] at hprepare
    cases hprepare
  | ok found =>
    rw [hload] at hprepare
    cases out? with
    | some path =>
      have hresolve : s.resolve path = .ok dir := mapError_eq_ok.mp hdir
      rw [Option.mapM_some, hresolve] at hout
      cases hout
      cases hprepare
      exact ⟨rfl, rfl⟩
    | none =>
      cases hout
      rw [reportsDir, hload] at hdir
      have hdir : Settings.resolveOutput s root found.outputDir = .ok dir := hdir
      simp only [bind, Except.bind, hdir] at hprepare
      cases hprepare
      exact ⟨rfl, rfl⟩

/-- The same directory is verified in another store with the same settings and the same resolved paths,
if it is there. -/
theorem reportsDir_after {u : Store} {found entries' : List (String × Entry)} (hs : s.Sound)
    (hu : u.Sound) (hpath : ∀ path, u.realPath path = s.realPath path)
    (hload : Settings.load u (ofParts ns) = Settings.load s (ofParts ns))
    (hat : s.root.at? ns = some (.dir entries)) (hat' : u.root.at? ns = some (.dir entries'))
    (hplace : u.root.at? place = some (.dir found))
    (h : reportsDir s (ofParts ns) out? = .ok (ofParts place)) :
    reportsDir u (ofParts ns) out? = .ok (ofParts place) := by
  have hresolve : ∀ {path}, s.resolve path = .ok (ofParts place) →
      u.resolve path = .ok (ofParts place) := fun hpath' =>
    hu.resolve hplace ((hpath _).trans (Store.realPath_of_resolve hpath'))
  cases out? with
  | some dir =>
    rw [reportsDir, hresolve (mapError_eq_ok.mp h)]
    rfl
  | none =>
    rw [reportsDir] at h ⊢
    rw [hload]
    cases hsettings : Settings.load s (ofParts ns) with
    | error o =>
      rw [hsettings] at h
      cases h
    | ok c =>
      rw [hsettings] at h
      obtain ⟨hempty, hrelative, houtput, hbelow⟩ :=
        (Settings.resolveOutput_ok_iff hs (hs.bare hat).realPath hat).mp h
      exact (Settings.resolveOutput_ok_iff hu (hu.bare hat').realPath hat').mpr
        ⟨hempty, hrelative, hresolve houtput, hbelow⟩

theorem run_analyze {c : Settings} {path out : String} {dir? : Option String} {ws : Workspace}
    {log : List LogRecord} {u : Store} (hroot : s.resolve root = .ok path)
    (hdir : (out?.mapM fun dir => (s.resolve dir).mapError Obstacle.unwritable) = .ok dir?)
    (hprepare : prepare s path dir? = .ok (c, out))
    (hload : Load.workspace s path c.respectIgnore = (.ok ws, log))
    (hwrite : writeAll s out (draft c out ws ws.packages).texts = .ok u) :
    ∃ outcome, run s ⟨level, .analyze root out? none⟩ = .ok outcome ∧ outcome.code = 0 ∧
      outcome.store = u := by
  have hpath : (s.resolve root).mapError Obstacle.unwritable = .ok path := by rw [hroot, Except.mapError]
  simp only [run, hpath, hdir, bind, Except.bind, analyze, generate, hprepare, hload, onLoaded,
    selectPackages, onWorkspace, hwrite]
  exact ⟨_, rfl, rfl, rfl⟩

theorem run_verify {path dir temp : String} {c : Comparison} {log : List LogRecord}
    (hroot : s.resolve root = .ok path) (hdir : reportsDir s path out? = .ok dir)
    (hverify : verify s path dir temp = ⟨log, .ok c⟩) :
    ∃ outcome, run s ⟨level, .verify root out?⟩ temp = .ok outcome ∧
      outcome.code = if c.ok then 0 else 1 := by
  have hpath : (s.resolve root).mapError Obstacle.unwritable = .ok path := by rw [hroot, Except.mapError]
  simp only [run, hpath, bind, Except.bind, hdir, verifyIn, hverify]
  exact ⟨_, rfl, rfl⟩

section

variable (hs : s.Sound) (hroot : s.realPath root = ofParts ns)
  (hat : s.root.at? ns = some (.dir entries))
  (hout : reportsDir s (ofParts ns) out? = .ok (ofParts place)) (hplace : s.Bare place)
  (hclean : Clean s place) (hunlinked : Unlinked s place)
  (hrun : run s ⟨level, .analyze root out? none⟩ = .ok outcome) (hcode : outcome.code = 0)
  (htemp : outcome.store.Vacant dir name way)
include hs hroot hat hout hplace hclean hunlinked hrun hcode htemp

theorem compared_after_analyze : ∃ outcome' log written fresh, ∃ files : List (String × ByteArray),
    run outcome.store ⟨level', .verify root out?⟩ (join dir name) = .ok outcome' ∧
    outcome'.code = (if (Comparison.ofContents written fresh).ok then 0 else 1) ∧
    verify outcome.store (ofParts ns) (ofParts place) (join dir name) =
      ⟨log, .ok (.ofContents written fresh)⟩ ∧
    files.map (·.1) = reportNames ∧ (∀ x, x ∈ fresh ↔ x ∈ files) ∧
    (¬place <+: way → ∀ x, x ∈ written ↔ x ∈ files) ∧
    (place <+: way → ∃ x ∈ written, ¬IsPart x.1) := by
  obtain ⟨path, dir?, summary, hpath, hdir?, hresult⟩ := analyze_ok hrun hcode
  obtain rfl : path = ofParts ns := (Store.realPath_of_resolve hpath).symm.trans hroot
  obtain ⟨c, out, ws, log, packages, hprepare, hload, hselect, -, hwrite⟩ := generate_ok hresult
  obtain ⟨hsettings, rfl⟩ := prepare_eq hdir? hprepare hout
  cases hselect
  obtain ⟨rootEntries, hrootDir⟩ := Entry.isDir_of_prefix hat rfl List.nil_prefix
  have h := reported_of_writeAll hs hrootDir hplace hclean.regular rfl hwrite
  obtain ⟨log, written, fresh, hverify, hfresh, hwritten, hinside⟩ :=
    h.verify_eq hat hclean hunlinked htemp hsettings hload (ofParts place)
  have halike := h.alike hunlinked
  have hns := h.not_isTouched hat
  obtain ⟨entries', hat'⟩ := halike.dir_after hat hns
  obtain ⟨found, hfound⟩ := h.dir
  have hdirectory := reportsDir_after hs halike.after (halike.realPath_after hns)
    (halike.settings_after hat hns) hat hat' hfound hout
  have hresolve : outcome.store.resolve root = .ok (ofParts ns) :=
    halike.after.resolve hat' ((halike.realPath_after hns root).trans hroot)
  obtain ⟨outcome', hrun', hcode'⟩ := run_verify hresolve hdirectory hverify
  refine ⟨outcome', log, written, fresh, _, hrun', hcode', hverify, ?_, hfresh, hwritten, hinside⟩
  rw [contentsOf, List.map_map]
  rfl

/-- After reports have been written to a directory that is missing or clean, and into which no link
leads, neither to it nor by what is missing on the way, they are verified: a new run finds the same,
and no file is missing, too many or different. The directory for the new reports is to be under a name
that nothing has and by which no link leads, not in the directory of the old ones. -/
theorem verify_after_analyze (hapart : ¬place <+: way) :
    ∃ outcome', run outcome.store ⟨level', .verify root out?⟩ (join dir name) = .ok outcome' ∧
      outcome'.code = 0 ∧
      (verify outcome.store (ofParts ns) (ofParts place) (join dir name)).result =
        .ok ⟨[], [], []⟩ := by
  obtain ⟨outcome', log, written, fresh, files, hrun', hcode', hverify, hnames, hfresh, hwritten, -⟩ :=
    compared_after_analyze hs hroot hat hout hplace hclean hunlinked hrun hcode htemp
  have hcompare : Comparison.ofContents written fresh = ⟨[], [], []⟩ :=
    Comparison.ofContents_of_mem_iff (hnames ▸ nodup_reportNames) (hwritten hapart) hfresh
  rw [hcompare] at hverify hcode'
  exact ⟨outcome', hrun', hcode', by rw [hverify]⟩

theorem verify_inside_after_analyze (hinside : place <+: way) (last : LogLevel) :
    ∃ outcome', run outcome.store ⟨last, .verify root out?⟩ (join dir name) = .ok outcome' ∧
      outcome'.code = 1 := by
  obtain ⟨outcome', log, written, fresh, files, hrun', hcode', -, hnames, hfresh, -, hdiffer⟩ :=
    compared_after_analyze hs hroot hat hout hplace hclean hunlinked hrun hcode htemp
  obtain ⟨x, hx, hno⟩ := hdiffer hinside
  refine ⟨outcome', hrun', hcode'.trans (if_neg fun hok => ?_)⟩
  have hmem := (hfresh x).mp (Comparison.mem_of_ok hok hx)
  exact hno (of_mem_reportNames (hnames ▸ List.mem_map_of_mem hmem)).1

end

theorem analyze_new {c : Settings} {dir? : Option String} {ws : Workspace} {log : List LogRecord}
    (hs : s.Sound) (hlinks : s.linkPlaces = []) (hroot : s.resolve root = .ok (ofParts ns))
    (hat : s.root.at? ns = some (.dir entries))
    (hdir : (out?.mapM fun dir => (s.resolve dir).mapError Obstacle.unwritable) = .ok dir?)
    (hname : IsPart name ∧ name ≠ "..") (hnone : s.root.at? (ns ++ [name]) = none)
    (hprepare : prepare s (ofParts ns) dir? = .ok (c, ofParts (ns ++ [name])))
    (hload : Load.workspace s (ofParts ns) c.respectIgnore = (.ok ws, log)) :
    ∃ outcome, ∃ files : List (String × ByteArray),
      run s ⟨level, .analyze root out? none⟩ = .ok outcome ∧ outcome.code = 0 ∧
      outcome.store = s.putAt (ns ++ [name]) (Store.folder files) ∧ files.map (·.1) = reportNames ∧
      ∀ x, ¬outcome.store.LeadsBy x := by
  have hbare : s.Bare (ns ++ [name]) := hs.bare_missing hat hnone (by simpa using hname)
  have hwrite := writeAll_new ns [] hbare hat hnone (names_draft c (ofParts (ns ++ [name])) ws ws.packages)
  obtain ⟨outcome, hrun, hcode, hstore⟩ := run_analyze hroot hdir hprepare hload hwrite
  refine ⟨outcome, _, hrun, hcode, hstore, ?_, ?_⟩
  · rw [contentsOf, List.map_map]
    rfl
  · rw [hstore]
    rintro x ⟨way, last, target, hlink, -⟩
    rcases Entry.at?_put_cases hlink with ⟨rest, -, hrest⟩ | ⟨-, hdir⟩ | hold
    · cases rest with
      | nil => cases hrest
      | cons first rest =>
        obtain ⟨-, _, -, hfile⟩ := Store.file_of_folder hrest
        cases hfile
    · cases hdir
    · exact List.not_mem_nil (hlinks ▸ Store.mem_linkPlaces hs hold)

/-- The reports on a module with two packages, in the usual directory. -/
theorem verify_after_analyze_chain : ∃ outcome outcome',
    run Load.chain ⟨.error, .analyze "/ws" none none⟩ = .ok outcome ∧ outcome.code = 0 ∧
    run outcome.store ⟨.info, .verify "/ws" none⟩ = .ok outcome' ∧ outcome'.code = 0 ∧
    (verify outcome.store (ofParts ["ws"]) (ofParts ["ws", ".goscope"])).result =
      .ok ⟨[], [], []⟩ := by
  have hs : Load.chain.Sound := Store.sound_of_isNeat (by decide +kernel)
  have hroot : Load.chain.realPath "/ws" = ofParts ["ws"] := by decide +kernel
  have hat : Load.chain.root.at? ["ws"] = some (.dir (Load.nestedFiles Load.chainOuter Load.chainInner)) :=
    rfl
  have hnone : Load.chain.root.at? (["ws"] ++ [".goscope"]) = none := rfl
  have hout : reportsDir Load.chain (ofParts ["ws"]) none = .ok (ofParts ["ws", ".goscope"]) := by
    decide +kernel
  have hbare : Load.chain.Bare (["ws"] ++ [".goscope"]) := hs.bare_missing hat hnone (by decide)
  have hprepare : prepare Load.chain (ofParts ["ws"]) none =
      .ok ({}, ofParts (["ws"] ++ [".goscope"])) := by
    decide +kernel
  obtain ⟨log, outer, inner, hload, -⟩ := Load.workspace_chain
  have hpath : ofParts ["ws"] = "/ws" := by decide
  rw [← Load.workspace_ignore (by decide +kernel) false, ← hpath] at hload
  have hdir : ((none : Option String).mapM fun dir =>
      (Load.chain.resolve dir).mapError Obstacle.unwritable) = .ok none := rfl
  obtain ⟨outcome, files, hrun, hcode, hstore, -, hlinks⟩ :=
    analyze_new hs rfl (hs.resolve hat hroot) hat hdir (by decide) hnone hprepare hload
  obtain ⟨entries, htop⟩ : ∃ entries, outcome.store.locate "/" = .ok ([], .dir entries) := by
    have hslash : ofParts [] = "/" := by decide
    rw [← hslash, hstore]
    exact ⟨_, Store.locate_ofParts (by simp) (by simp) rfl rfl⟩
  obtain ⟨name, htemp, hvacant⟩ := vacant_scratch htop fun x hx => (hlinks x hx).elim
  obtain ⟨outcome', hrun', hcode', hresult⟩ := verify_after_analyze hs hroot hat hout hbare
    (clean_of_none hnone) (unlinked_of_noLinks hs rfl) hrun hcode hvacant (by simp)
  rw [← htemp] at hrun' hresult
  exact ⟨outcome, outcome', hrun, hcode, hrun', hcode', hresult⟩

/-- Reports that are written to a directory without other files, into which no link leads, and that
cannot be verified with a new directory under the path `temp`. -/
structure Unstable (s : Store) (out temp : String) (place : List String) (code : Nat) : Prop where
  sound : s.Sound
  root : s.realPath "/ws" = ofParts ["ws"]
  output : reportsDir s (ofParts ["ws"]) (some out) = .ok (ofParts place)
  bare : s.Bare place
  files : OnlyReports s place
  into : Enclosed s place
  codes : ((run s ⟨.error, .analyze "/ws" (some out) none⟩).toOption.map fun outcome =>
    (outcome.code, (run outcome.store ⟨.error, .verify "/ws" (some out)⟩ temp).toOption.map (·.code))) =
      some (0, some code)

/-- A module in which the name of a source stands for a link by a directory that is missing. Once it is
there, the link leads back to itself. -/
def looping : Store :=
  { root := .dir [("ws", .dir [("x.go", .link "build/../x.go")])] }

theorem unstable_looping :
    Unstable looping "/ws/build/reports" "/tmpdir" ["ws", "build", "reports"] 2 := by
  have hs : looping.Sound := Store.sound_of_isNeat (by decide +kernel)
  have hat : looping.root.at? ["ws"] = some (.dir [("x.go", .link "build/../x.go")]) := rfl
  have hlinks : (looping.root.leaves []).filter (·.2.isLink) =
      [(["ws"], "x.go", "build/../x.go")].map fun l => (l.1 ++ [l.2.1], .link l.2.2) := rfl
  have hparts : Path.isAbsolute "build/../x.go" = false ∧
      Path.parts "build/../x.go" = ["build", "..", "x.go"] := by
    decide
  constructor
  case sound => exact hs
  case root => decide +kernel
  case output => decide +kernel
  case bare =>
    have hnone : looping.root.at? (["ws"] ++ ["build"]) = none := rfl
    have hbare : looping.Bare (["ws"] ++ "build" :: ["reports"]) :=
      hs.bare_missing hat hnone (by decide)
    exact hbare
  case files => exact onlyReports_of_none rfl
  case into =>
    refine enclosed_of_links hs hlinks fun way name target hl x hv => ?_
    cases List.mem_singleton.mp hl
    simp only [hparts, Bool.false_eq_true, if_false] at hv
    rw [hv.of_none rfl (by decide)]
    decide
  case codes => decide +kernel

/-- A module in which the name of a report stands for a link to what is missing, and that of a source
for one by the same place. -/
def diverting : Store :=
  { root := .dir [("ws", .dir [("x.go", .link "new/x"),
      ("reports", .dir [("complexity.jsonl", .link "../new")])])] }

theorem unstable_diverting : Unstable diverting "/ws/reports" "/tmpdir" ["ws", "reports"] 2 := by
  have hs : diverting.Sound := Store.sound_of_isNeat (by decide +kernel)
  have hat : diverting.root.at? ["ws", "reports"] =
      some (.dir [("complexity.jsonl", .link "../new")]) := rfl
  have hlinks : (diverting.root.leaves []).filter (·.2.isLink) =
      [(["ws"], "x.go", "new/x"), (["ws", "reports"], "complexity.jsonl", "../new")].map fun l =>
        (l.1 ++ [l.2.1], .link l.2.2) := rfl
  have hparts : Path.isAbsolute "new/x" = false ∧ Path.parts "new/x" = ["new", "x"] ∧
      Path.isAbsolute "../new" = false ∧ Path.parts "../new" = ["..", "new"] := by
    decide
  constructor
  case sound => exact hs
  case root => decide +kernel
  case output => decide +kernel
  case bare => exact hs.bare hat
  case files =>
    intro way e hway hfile
    rw [Entry.at?_append, hat, Option.bind_some] at hway
    cases way with
    | nil =>
      have hdir : diverting.isFile (ofParts ["ws", "reports"]) = false := by decide +kernel
      rw [List.append_nil, hdir] at hfile
      cases hfile
    | cons name way =>
      obtain ⟨f, hf, hrest⟩ := Option.bind_eq_some_iff.mp hway
      have hmem : (name, f) ∈ [("complexity.jsonl", Entry.link "../new")] := Dict.mem_of_lookup hf
      rw [List.mem_singleton, Prod.mk.injEq] at hmem
      obtain ⟨rfl, rfl⟩ := hmem
      cases way with
      | nil => exact ⟨"complexity.jsonl", by decide, rfl⟩
      | cons next way => cases hrest
  case into =>
    refine enclosed_of_links hs hlinks fun way name target hl x hv => ?_
    rw [List.mem_cons, List.mem_singleton] at hl
    rcases hl with hl | hl
    · cases hl
      simp only [hparts, Bool.false_eq_true, if_false] at hv
      rw [hv.of_none rfl (by decide)]
      decide
    · cases hl
      simp only [hparts, Bool.false_eq_true, if_false] at hv
      rw [hv.of_up.of_none rfl (by decide)]
      decide
  case codes => decide +kernel

/-- A module in which the name of a source stands for a link by the place of the new directory. Once
that is there, the link leads back to itself. -/
def awaiting : Store :=
  { root := .dir [("ws", .dir [("x.go", .link "/tmpdir/../ws/x.go")])] }

theorem unstable_awaiting : Unstable awaiting "/ws/reports" "/tmpdir" ["ws", "reports"] 2 := by
  have hs : awaiting.Sound := Store.sound_of_isNeat (by decide +kernel)
  have hat : awaiting.root.at? ["ws"] = some (.dir [("x.go", .link "/tmpdir/../ws/x.go")]) := rfl
  have hlinks : (awaiting.root.leaves []).filter (·.2.isLink) =
      [(["ws"], "x.go", "/tmpdir/../ws/x.go")].map fun l => (l.1 ++ [l.2.1], .link l.2.2) := rfl
  have hparts : Path.isAbsolute "/tmpdir/../ws/x.go" = true ∧
      Path.parts "/tmpdir/../ws/x.go" = ["tmpdir", "..", "ws", "x.go"] := by
    decide
  have hnone : awaiting.root.at? (["ws"] ++ ["reports"]) = none := rfl
  constructor
  case sound => exact hs
  case root => decide +kernel
  case output => decide +kernel
  case bare => exact hs.bare_missing hat hnone (by decide)
  case files => exact onlyReports_of_none hnone
  case into =>
    refine enclosed_of_links hs hlinks fun way name target hl x hv => ?_
    cases List.mem_singleton.mp hl
    simp only [hparts, if_true] at hv
    rw [hv.of_none rfl (by decide)]
    decide
  case codes => decide +kernel

/-- A module without sources. -/
def empty : Store :=
  { root := .dir [("ws", .dir [])] }

theorem vacant_of_reports {files : List (String × ByteArray)}
    (hpart : ∀ n ∈ place, IsPart n ∧ n ≠ "..")
    (hplace : s.root.at? place = some (Store.folder files)) (hnames : files.map (·.1) = reportNames)
    (hname : IsPart name ∧ name ≠ "..") (hother : name ∉ reportNames) (hlinks : ∀ x, ¬s.LeadsBy x) :
    s.Vacant (ofParts place) name place where
  isPart := hname.1
  down := hname.2
  leads := ⟨_, Store.locate_ofParts (fun n hn => (hpart n hn).1) (fun hn => (hpart _ hn).2 rfl)
    hplace rfl⟩
  none := by
    rw [Entry.at?_concat hplace, Dict.lookup_eq_none_iff, List.map_map]
    exact hnames ▸ hother
  links x hx := (hlinks x hx).elim

theorem unstable_empty : Unstable empty "/ws/reports" "/ws/reports/tmpdir" ["ws", "reports"] 1 := by
  have hs : empty.Sound := Store.sound_of_isNeat (by decide +kernel)
  have hroot : empty.realPath "/ws" = ofParts ["ws"] := by decide +kernel
  have hat : empty.root.at? ["ws"] = some (.dir []) := rfl
  have hnone : empty.root.at? (["ws"] ++ ["reports"]) = none := rfl
  have hbare : empty.Bare (["ws"] ++ ["reports"]) := hs.bare_missing hat hnone (by decide)
  have hout : reportsDir empty (ofParts ["ws"]) (some "/ws/reports") =
      .ok (ofParts ["ws", "reports"]) := by
    decide +kernel
  constructor
  case sound => exact hs
  case root => exact hroot
  case output => exact hout
  case bare => exact hbare
  case files => exact onlyReports_of_none hnone
  case into => exact fun x hx => (Store.not_leadsBy_of_noLinks hs rfl x hx).elim
  case codes =>
    have hsome : (Load.workspace empty (ofParts ["ws"]) false).1.toOption.isSome := by decide +kernel
    obtain ⟨ws, hws⟩ := Option.isSome_iff_exists.mp hsome
    have hprepare : prepare empty (ofParts ["ws"]) (some "/ws/reports") =
        .ok ({}, ofParts (["ws"] ++ ["reports"])) := by
      decide +kernel
    have hdir : ((some "/ws/reports").mapM fun dir =>
        (empty.resolve dir).mapError Obstacle.unwritable) = .ok (some "/ws/reports") := by
      decide +kernel
    obtain ⟨outcome, files, hrun, hcode, hstore, hnames, hlinks⟩ :=
      analyze_new hs rfl (hs.resolve hat hroot) hat hdir (by decide) hnone hprepare
        (Load.workspace_of_toOption hws)
    have hplace : outcome.store.root.at? ["ws", "reports"] = some (Store.folder files) :=
      hstore ▸ Entry.at?_put _ _ _
    have hpath : ofParts ["ws", "reports"] = "/ws/reports" := by decide
    have hvacant : outcome.store.Vacant (ofParts ["ws", "reports"]) "tmpdir" ["ws", "reports"] :=
      vacant_of_reports (by decide) hplace hnames (by decide) (by decide) hlinks
    rw [hpath] at hvacant
    obtain ⟨outcome', hrun', hcode'⟩ := verify_inside_after_analyze hs hroot hat hout hbare
      (clean_of_none hnone) (unlinked_of_noLinks hs rfl) hrun hcode hvacant (List.prefix_refl _)
      .error
    have htemp : join "/ws/reports" "tmpdir" = "/ws/reports/tmpdir" := by decide
    rw [htemp] at hrun'
    rw [hrun]
    simp only [Except.toOption, Option.map_some, hcode, hrun', hcode']

/-- No condition on links can be left out, nor that on the new directory: a run may make the directory
that a link leads by, write to where a link leads, or read what it has just written itself. -/
theorem analyze_not_verified :
    Unstable looping "/ws/build/reports" "/tmpdir" ["ws", "build", "reports"] 2 ∧
    Unstable diverting "/ws/reports" "/tmpdir" ["ws", "reports"] 2 ∧
    Unstable awaiting "/ws/reports" "/tmpdir" ["ws", "reports"] 2 ∧
    Unstable empty "/ws/reports" "/ws/reports/tmpdir" ["ws", "reports"] 1 :=
  ⟨unstable_looping, unstable_diverting, unstable_awaiting, unstable_empty⟩

end Command

end GoAtlas
