import GoAtlas.Proofs.Files.Located
import GoAtlas.Report.Generate

namespace GoAtlas.Report

open Files GoAtlas.Path

/-- The names under which reports are written. -/
def reportNames : List String :=
  ["symbols.jsonl", "unused.jsonl", "complexity.jsonl", "if_init.jsonl", "boolean_branching.jsonl",
    "deep_if_else.jsonl", "error_wrapping.jsonl", "missing_context.jsonl", "env_booleans.jsonl",
    "dependencies.json"]

theorem names_texts (root : String) (f : Findings) (d : Dependencies) :
    (texts root f d).map (·.1) = reportNames :=
  rfl

theorem names_draft (c : Settings) (out : String) (ws : Workspace) (packages : List Package) :
    (draft c out ws packages).texts.map (·.1) = reportNames :=
  names_texts _ _ _

theorem nodup_reportNames : reportNames.Nodup := by
  decide

/-- No report is a source or a file that is read by its name. -/
theorem of_mem_reportNames {name : String} (h : name ∈ reportNames) :
    IsPart name ∧ name ≠ ".." ∧ Discovery.isSourceName name = false ∧
      name ∉ [".gitignore", "go.mod", Settings.fileName] := by
  have hall : ∀ n ∈ reportNames, n ≠ "" ∧ n ≠ "." ∧ '/' ∉ n.toList ∧ n ≠ ".." ∧
      Discovery.isSourceName n = false ∧ n ∉ [".gitignore", "go.mod", Settings.fileName] := by
    decide
  obtain ⟨hempty, hdot, hslash, hrest⟩ := hall name h
  exact ⟨⟨hempty, hdot, hslash⟩, hrest⟩

variable {s t u : Store} {place : List String} {entries : List (String × Entry)}
  {texts : List (String × String)}

/-- What a run that succeeds has read, and what it has written. -/
theorem generate_ok {root : String} {out? package? : Option String} {summary : Summary}
    (h : (generate s root out? package?).result = .ok (summary, u)) :
    ∃ c out ws log packages, prepare s root out? = .ok (c, out) ∧
      Load.workspace s root c.respectIgnore = (.ok ws, log) ∧
      selectPackages ws package? = .ok packages ∧
      summary = (draft c out ws packages).summary ∧
      writeAll s out (draft c out ws packages).texts = .ok u := by
  rw [generate] at h
  split at h
  · cases h
  · next c out hprepare =>
    split at h
    · cases h
    · next ws log hload =>
      rw [onLoaded] at h
      split at h
      · cases h
      · next packages hselect =>
        rw [onWorkspace] at h
        dsimp only at h
        split at h
        · cases h
        · next after hwrite =>
          cases h
          exact ⟨c, out, ws, log, packages, hprepare, hload, hselect, rfl, hwrite⟩

theorem generate_of_writeAll {root out : String} {out? package? : Option String} {c : Settings}
    {ws : Workspace} {log : List LogRecord} {packages : List Package}
    (hprepare : prepare s root out? = .ok (c, out))
    (hload : Load.workspace s root c.respectIgnore = (.ok ws, log))
    (hselect : selectPackages ws package? = .ok packages)
    (hwrite : writeAll s out (draft c out ws packages).texts = .ok u) :
    (generate s root out? package?).result = .ok ((draft c out ws packages).summary, u) := by
  simp only [generate, hprepare, hload, onLoaded, hselect, onWorkspace, hwrite]

theorem writeTexts_cons (dir : String) (x : String × String) (texts : List (String × String))
    (s : Store) :
    writeTexts dir (x :: texts) s =
      (s.writeFile (join dir x.1) x.2.toUTF8).bind (writeTexts dir texts) := by
  rw [writeTexts, List.foldlM_cons]
  rfl

/-- A store after texts have been written to a directory of another. -/
structure Written (s : Store) (place : List String) (texts : List (String × String)) (u : Store) :
    Prop where
  sound : u.Sound
  dir : ∃ entries, u.root.at? place = some (.dir entries)
  reports : ∀ x ∈ texts, u.root.at? (place ++ [x.1]) = some (.file x.2.toUTF8)
  /-- All else was there before, directories perhaps with other entries. -/
  others : ∀ way e, u.root.at? way = some e → (∃ x ∈ texts, way = place ++ [x.1]) ∨
    s.root.at? way = some e ∨
    ∃ entries entries', e = .dir entries ∧ s.root.at? way = some (.dir entries')
  kept : ∀ name, (∀ x ∈ texts, x.1 ≠ name) →
    u.root.at? (place ++ [name]) = s.root.at? (place ++ [name])
  free : ∀ x ∈ texts, s.Free (place ++ [x.1])
  unseen : ∀ hidden, (∀ x ∈ texts, hidden (place ++ [x.1]) = true) →
    u.without hidden = s.without hidden

theorem Written.nil (hs : s.Sound) (hat : s.root.at? place = some (.dir entries)) :
    Written s place [] s where
  sound := hs
  dir := ⟨entries, hat⟩
  reports := by simp
  others way e he := .inr (.inl he)
  kept _ _ := rfl
  free := by simp
  unseen _ _ := rfl

/-- One text more is written before the others. -/
theorem Written.cons {x : String × String} (hat : s.root.at? place = some (.dir entries))
    (hfree : s.Free (place ++ [x.1])) (hfresh : x.1 ∉ texts.map (·.1))
    (hlinks : ∀ y ∈ texts, ∀ target, s.root.at? (place ++ [y.1]) ≠ some (.link target))
    (h : Written (s.putAt (place ++ [x.1]) (.file x.2.toUTF8)) place texts u) :
    Written s place (x :: texts) u where
  sound := h.sound
  dir := h.dir
  reports y hy := by
    rcases List.mem_cons.mp hy with rfl | hy
    · have hne : ∀ z ∈ texts, z.1 ≠ y.1 := fun z hz he => hfresh (he ▸ List.mem_map_of_mem hz)
      rw [h.kept y.1 hne]
      exact Entry.at?_put _ _ _
    · exact h.reports y hy
  others way e he := by
    rcases h.others way e he with ⟨y, hy, hway⟩ | hold | ⟨found, found', rfl, hold⟩
    · exact .inl ⟨y, List.mem_cons_of_mem x hy, hway⟩
    · rcases hfree.at?_putAt hold with ⟨hway, -⟩ | ⟨found, found', hdir, hbefore⟩ | hbefore
      · exact .inl ⟨x, List.mem_cons_self, hway⟩
      · exact .inr (.inr ⟨found, found', hdir, hbefore⟩)
      · exact .inr (.inl hbefore)
    · obtain ⟨found', hold⟩ := hfree.dir_of_putAt hold
      exact .inr (.inr ⟨found, found', rfl, hold⟩)
  kept name hname := by
    have hne : x.1 ≠ name := hname x List.mem_cons_self
    rw [h.kept name fun y hy => hname y (List.mem_cons_of_mem x hy)]
    apply Entry.at?_put_of_not_prefix
    · intro hp
      have heq := hp.eq_of_length (by simp)
      exact hne (by simpa using heq)
    · intro hp
      have heq := hp.eq_of_length (by simp)
      exact hne (by simpa using heq.symm)
  free y hy := by
    rcases List.mem_cons.mp hy with rfl | hy
    · exact hfree
    · refine ⟨⟨place, y.1, entries, rfl, hat⟩, ?_⟩
      intro e he
      cases e with
      | file content => exact ⟨content, rfl⟩
      | link target => exact (hlinks y hy target he).elim
      | dir found =>
        obtain ⟨found', hdir⟩ := hfree.dir_putAt he x.2.toUTF8
        obtain ⟨content, hfile⟩ := (h.free y hy).noDir _ hdir
        cases hfile
  unseen hidden hhidden := by
    rw [h.unseen hidden fun y hy => hhidden y (List.mem_cons_of_mem x hy)]
    exact Store.without_putAt hat (hhidden x List.mem_cons_self) (.file x.2.toUTF8) []

section

variable (hs : s.Sound) (hat : s.root.at? place = some (.dir entries))
  (hnames : ∀ x ∈ texts, IsPart x.1 ∧ x.1 ≠ "..") (hnodup : (texts.map (·.1)).Nodup)
include hs hat hnames hnodup

/-- Texts are written right to a directory in which no link has one of their names. -/
theorem written_of_writeTexts
    (hlinks : ∀ x ∈ texts, ∀ target, s.root.at? (place ++ [x.1]) ≠ some (.link target))
    (hok : writeTexts (ofParts place) texts s = .ok u) : Written s place texts u := by
  induction texts generalizing s entries with
  | nil =>
    cases hok
    exact .nil hs hat
  | cons x texts ih =>
    obtain ⟨hpart, hdown⟩ := hnames x List.mem_cons_self
    obtain ⟨hfresh, hnodup⟩ := List.nodup_cons.mp hnodup
    have hlinks' := fun y hy => hlinks y (List.mem_cons_of_mem x hy)
    have hbare := hs.bare_concat hat hpart hdown (hlinks x List.mem_cons_self)
    rw [writeTexts_cons, join_ofParts hpart (hs.bare hat).isPart] at hok
    cases hwrite : s.writeFile (ofParts (place ++ [x.1])) x.2.toUTF8 with
    | error e =>
      rw [hwrite] at hok
      cases hok
    | ok t =>
      rw [hwrite] at hok
      obtain ⟨hfree, rfl⟩ :=
        Store.writeFile_here (hs.bare hat) hat hpart (hlinks x List.mem_cons_self) hwrite
      obtain ⟨entries', hat'⟩ := hfree.dir_putAt hat x.2.toUTF8
      apply Written.cons hat hfree hfresh hlinks'
      apply ih (hs.putAt_file hbare.isPart hbare.down _) hat'
        (fun y hy => hnames y (List.mem_cons_of_mem x hy)) hnodup _ hok
      intro y hy target hlink
      rcases hfree.at?_putAt hlink with ⟨-, hfile⟩ | ⟨_, _, hdir, -⟩ | hold
      · cases hfile
      · cases hdir
      · exact hlinks' y hy target hold

end

def contentsOf (texts : List (String × String)) : List (String × ByteArray) :=
  texts.map fun x => (x.1, x.2.toUTF8)

/-- To a directory without entries by their names, texts are written one after the other, if its path
leads there whatever its entries are. -/
theorem writeTexts_putAt {dir : String}
    (hlocate : ∀ entries, (s.putAt place (.dir entries)).locate dir = .ok (place, .dir entries))
    (hnames : ∀ x ∈ texts, IsPart x.1 ∧ x.1 ≠ "..")
    (hnodup : (entries.map (·.1) ++ texts.map (·.1)).Nodup) :
    writeTexts dir texts (s.putAt place (.dir entries)) =
      .ok (s.putAt place (.dir (entries ++ (contentsOf texts).map fun x => (x.1, .file x.2)))) := by
  induction texts generalizing entries with
  | nil =>
    rw [contentsOf, List.map_nil, List.map_nil, List.append_nil, writeTexts]
    rfl
  | cons x texts ih =>
    obtain ⟨hpart, hname⟩ := hnames x List.mem_cons_self
    have hat : (s.putAt place (.dir entries)).root.at? place = some (.dir entries) :=
      Entry.at?_put _ _ _
    have hfresh : ∀ y ∈ entries, y.1 ≠ x.1 := by
      intro y hy
      exact (List.nodup_append.mp hnodup).2.2 y.1 (List.mem_map_of_mem hy) x.1 (by simp)
    have hnone : entries.lookup x.1 = none := by
      rw [Dict.lookup_eq_none_iff, List.mem_map]
      rintro ⟨y, hy, heq⟩
      exact hfresh y hy heq
    have hput : (s.putAt place (.dir entries)).putAt (place ++ [x.1]) (.file x.2.toUTF8) =
        s.putAt place (.dir (entries ++ [(x.1, .file x.2.toUTF8)])) := by
      rw [Store.putAt, Entry.put_concat hat, Dict.put_of_fresh hfresh]
      simp only [Store.putAt, Entry.put_put]
    rw [writeTexts_cons, Store.writeFile_join (hlocate entries) hpart hname hnone, hput, Except.bind,
      ih fun y hy => hnames y (List.mem_cons_of_mem x hy)]
    · simp [contentsOf]
    · simpa [List.append_assoc] using hnodup

theorem writeTexts_folder {dir : String}
    (hlocate : ∀ entries, (s.putAt place (.dir entries)).locate dir = .ok (place, .dir entries))
    (hnames : texts.map (·.1) = reportNames) :
    writeTexts dir texts (s.putAt place (.dir [])) =
      .ok (s.putAt place (Store.folder (contentsOf texts))) := by
  apply writeTexts_putAt hlocate
  · intro x hx
    obtain ⟨hpart, hdown, -⟩ := of_mem_reportNames (hnames ▸ List.mem_map_of_mem hx)
    exact ⟨hpart, hdown⟩
  · simpa [hnames] using nodup_reportNames

theorem writeAll_new (way : List String) {name : String} (rest : List String)
    (h : s.Bare (way ++ name :: rest)) (hway : s.root.at? way = some (.dir entries))
    (hnone : s.root.at? (way ++ [name]) = none) (hnames : texts.map (·.1) = reportNames) :
    writeAll s (ofParts (way ++ name :: rest)) texts =
      .ok (s.putAt (way ++ name :: rest) (Store.folder (contentsOf texts))) := by
  rw [writeAll, Store.makeDirs_of_none h hway hnone]
  refine writeTexts_folder (fun entries => ?_) hnames
  have hat : (s.putAt (way ++ name :: rest) (.dir entries)).root.at? (way ++ name :: rest) =
      some (.dir entries) := Entry.at?_put _ _ _
  exact (Store.Bare.of_dir h.isPart h.down hat).locate hat

/-- Texts are written to a directory that a path leads to under a name that nothing had. -/
theorem writeAll_vacant {dir name : String} {way : List String} (h : s.Vacant dir name way)
    (hnames : texts.map (·.1) = reportNames) :
    writeAll (s.putAt (way ++ [name]) (.dir [])) (join dir name) texts =
      .ok (s.putAt (way ++ [name]) (Store.folder (contentsOf texts))) := by
  rw [writeAll, Store.makeDirs_of_locate (h.locate rfl)]
  exact writeTexts_folder (fun _ => h.locate rfl) hnames

/-- Reports are generated where their directory is missing. -/
theorem generate_new (hs : s.Sound) {root out name : String} {out? package? : Option String}
    {c : Settings} {ws : Workspace} {log : List LogRecord} {packages : List Package}
    (way rest : List String) (hway : s.root.at? way = some (.dir entries))
    (hnone : s.root.at? (way ++ [name]) = none)
    (hnames : ∀ n ∈ name :: rest, IsPart n ∧ n ≠ "..")
    (hout : ofParts (way ++ name :: rest) = out) (hprepare : prepare s root out? = .ok (c, out))
    (hload : Load.workspace s root c.respectIgnore = (.ok ws, log))
    (hselect : selectPackages ws package? = .ok packages) :
    ∃ u, (generate s root out? package?).result = .ok ((draft c out ws packages).summary, u) := by
  have hbare : s.Bare (way ++ name :: rest) := hs.bare_missing hway hnone hnames
  have hwrite := writeAll_new way rest hbare hway hnone (names_draft c out ws packages)
  rw [hout] at hwrite
  exact ⟨_, generate_of_writeAll hprepare hload hselect hwrite⟩

end GoAtlas.Report
