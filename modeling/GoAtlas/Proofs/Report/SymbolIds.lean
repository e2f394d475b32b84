import GoAtlas.Proofs.Report.Ids
import GoAtlas.Proofs.Report.Selection
import GoAtlas.Proofs.Report.Writing

namespace GoAtlas

open Files Finding

variable {ws : Workspace} {p q : Package} {a b : Symbol} {tests : Bool}

def Symbol.Together (a b : Symbol) : Prop :=
  a.file = b.file ∧ a.line = b.line ∧ a.column = b.column

theorem Workspace.Loaded.symbol_eq (hws : ws.Loaded) (hp : p ∈ ws.packages) (hq : q ∈ ws.packages)
    (ha : a ∈ (SymbolTable.ofPackage p tests).symbols)
    (hb : b ∈ (SymbolTable.ofPackage q tests).symbols) (h : a.Together b) : a = b := by
  obtain ⟨f, hf, m, hm, rfl⟩ := Symbol.mem_declared.mp (SymbolTable.declared_of_mem ha)
  obtain ⟨g, hg, n, hn, rfl⟩ := Symbol.mem_declared.mp (SymbolTable.declared_of_mem hb)
  obtain ⟨hfile, hline, hcolumn⟩ := h
  have hf := (p.allFiles_sublist tests).subset hf
  have hg := (q.allFiles_sublist tests).subset hg
  obtain rfl := hws.package_eq hp hq hf hg hfile
  obtain rfl := hws.file_eq (Workspace.mem_files hp hf) (Workspace.mem_files hp hg) hfile
  obtain ⟨size, hr⟩ := hws.parsed f (Workspace.mem_files hp hf)
  have hstart := Int.ofNat.inj (Source.Slot.place_inj hline hcolumn)
  rw [Naming.eq_of_start hr hm hn hstart]

theorem Workspace.Loaded.nodup_table (hws : ws.Loaded) (hp : p ∈ ws.packages) (tests : Bool) :
    (SymbolTable.ofPackage p tests).symbols.Nodup := by
  apply SymbolTable.nodup_ofPackage (hws.nodup_paths hp tests)
  exact fun f hf => hws.parsed f (Workspace.mem_files hp ((p.allFiles_sublist _).subset hf))

/-- Symbols taken from the tables of packages, each at most once, stand at different places. -/
theorem Workspace.Loaded.pairwise_symbols (hws : ws.Loaded) {group : Package → List Symbol}
    (hnodup : ∀ p ∈ ws.packages, (group p).Nodup)
    (hgroup : ∀ p ∈ ws.packages, group p ⊆ (SymbolTable.ofPackage p tests).symbols) :
    (ws.packages.flatMap group).Pairwise fun a b => ¬ a.Together b := by
  have hpackages : ws.packages.Nodup := .of_map (·.path) hws.directories
  have hall : (ws.packages.flatMap group).Nodup := by
    apply List.nodup_flatMap.mpr
    refine ⟨hnodup, hpackages.imp_of_mem ?_⟩
    intro p q hp hq hne s hsp hsq
    obtain ⟨f, hf, hfile⟩ := Report.file_of_table (hgroup p hp hsp)
    obtain ⟨g, hg, hfile'⟩ := Report.file_of_table (hgroup q hq hsq)
    exact hne (hws.package_eq hp hq hf hg (hfile.symm.trans hfile'))
  refine hall.pairwise_of_forall_ne ?_
  intro a ha b hb hne htogether
  obtain ⟨p, hp, ha⟩ := List.mem_flatMap.mp ha
  obtain ⟨q, hq, hb⟩ := List.mem_flatMap.mp hb
  exact hne (hws.symbol_eq hp hq (hgroup p hp ha) (hgroup q hq hb) htogether)

namespace Report

theorem symbol_id_symbolRecord (root : String) (s : Symbol) :
    (symbolRecord root s).field? "symbol_id" = some (.str (s.id (Path.shown "/" s.file root))) := by
  obtain ⟨name, kind, package, file, position, stop, line, column, exported, signature, receiver, v⟩ := s
  cases signature <;> cases receiver <;> rfl

/-- The path of one symbol goes on with what stands behind that of another, up to its own package. -/
def Continues (root : String) (a b : Symbol) : Prop :=
  ∃ more, more ≠ "" ∧ Path.shown "/" b.file root = Path.shown "/" a.file root ++ more ∧
    "::" ++ a.package ++ "." ++ a.qualifiedName = more ++ "::" ++ b.package ++ "." ++ b.qualifiedName

theorem Continues.id_eq {root : String} (h : Continues root a b) :
    Path.shown "/" a.file root ++ "::" ++ a.package ++ "." ++ a.qualifiedName =
      Path.shown "/" b.file root ++ "::" ++ b.package ++ "." ++ b.qualifiedName := by
  obtain ⟨more, -, hpath, hname⟩ := h
  rw [hpath]
  simp only [String.append_assoc] at hname ⊢
  rw [hname]

/-- Symbols at different places have the same identifier only if the path of one of them can be taken
for that of the other. -/
theorem symbolId_eq_iff_continues {ns : List String} (h : ws.Rooted ns) (hp : p ∈ ws.packages)
    (hq : q ∈ ws.packages) (ha : a ∈ (SymbolTable.ofPackage p tests).symbols)
    (hb : b ∈ (SymbolTable.ofPackage q tests).symbols) (hne : ¬ a.Together b) :
    (symbolRecord ws.root a).field? "symbol_id" = (symbolRecord ws.root b).field? "symbol_id" ↔
      a.line = b.line ∧ a.column = b.column ∧ (Continues ws.root a b ∨ Continues ws.root b a) := by
  rw [symbol_id_symbolRecord, symbol_id_symbolRecord, Option.some.injEq, Json.str.injEq, Symbol.id,
    Symbol.id, symbolId_eq_iff]
  constructor
  · rintro ⟨hline, hcolumn, htext⟩
    refine ⟨hline, hcolumn, ?_⟩
    -- where the paths are the same, so are the files
    have hdiffer : Path.shown "/" a.file ws.root ≠ Path.shown "/" b.file ws.root := by
      intro hpath
      obtain ⟨f, hf, hfile⟩ := file_of_table ha
      obtain ⟨g, hg, hfile'⟩ := file_of_table hb
      rw [hfile, hfile'] at hpath
      have hpath := h.path_of_shown (Workspace.mem_files hp hf) (Workspace.mem_files hq hg) hpath
      exact hne ⟨by rw [hfile, hfile', hpath], hline, hcolumn⟩
    simp only [String.append_assoc] at htext
    rcases append_cases htext with ⟨more, hpath, hname⟩ | ⟨more, hpath, hname⟩
    · refine .inl ⟨more, ?_, hpath, by simpa only [String.append_assoc] using hname⟩
      rintro rfl
      exact hdiffer (by simp [hpath])
    · refine .inr ⟨more, ?_, hpath, by simpa only [String.append_assoc] using hname⟩
      rintro rfl
      exact hdiffer (by simp [hpath])
  · rintro ⟨hline, hcolumn, h | h⟩
    · exact ⟨hline, hcolumn, h.id_eq⟩
    · exact ⟨hline, hcolumn, h.id_eq.symm⟩

variable {s after : Store} {root : String} {out? package? : Option String} {summary : Summary}

theorem sublist_of_selectPackages {ps : List Package} (h : selectPackages ws package? = .ok ps) :
    ps.Sublist ws.packages := by
  cases package? with
  | none =>
    cases h
    exact .refl _
  | some reference =>
    simp only [selectPackages] at h
    split at h
    · next p hp =>
      cases h
      exact List.singleton_sublist.mpr (List.mem_of_find?_eq_some hp)
    · cases h

/-- Two of the symbols that a run reports have the same identifier exactly if they are at the same line
and column, and the path of one goes on with what stands behind that of the other. -/
theorem symbolId_collision (hs : s.Proper)
    (h : (generate s root out? package?).result = .ok (summary, after)) :
    summary.findings.symbols.Pairwise fun a b =>
      ((symbolRecord (s.realPath root) a).field? "symbol_id" =
        (symbolRecord (s.realPath root) b).field? "symbol_id" ↔
      a.line = b.line ∧ a.column = b.column ∧
        (Continues (s.realPath root) a b ∨ Continues (s.realPath root) b a)) := by
  obtain ⟨c, out, ws, log, packages, -, hload, hselect, rfl, -⟩ := generate_ok h
  obtain ⟨ns, hroot, hrooted, hws⟩ := Load.rooted_loaded hs hload
  rw [hroot, ← hrooted.root]
  let group (p : Package) : List Symbol :=
    (SymbolTable.ofPackage p c.unused.tests).symbols.mergeSort UnusedSymbol.before
  have hgroup : ∀ p ∈ ws.packages, group p ⊆ (SymbolTable.ofPackage p c.unused.tests).symbols :=
    fun p _ => (List.mergeSort_perm _ _).subset
  have hnodup : ∀ p ∈ ws.packages, (group p).Nodup :=
    fun p hp => (List.mergeSort_perm _ _).nodup_iff.mpr (hws.nodup_table hp _)
  have hsymbols : (draft c out ws packages).summary.findings.symbols = packages.flatMap group :=
    List.flatMap_map _ _ _
  have hsub : (packages.flatMap group).Sublist (ws.packages.flatMap group) :=
    (sublist_of_selectPackages hselect).flatMap group
  rw [hsymbols]
  refine ((hws.pairwise_symbols hnodup hgroup).sublist hsub).imp_of_mem ?_
  intro a b ha hb hne
  obtain ⟨p, hp, ha⟩ := List.mem_flatMap.mp (hsub.subset ha)
  obtain ⟨q, hq, hb⟩ := List.mem_flatMap.mp (hsub.subset hb)
  exact symbolId_eq_iff_continues hrooted hp hq (hgroup p hp ha) (hgroup q hq hb) hne

/-- A method whose receiver is spelled like the rest of a path, and a function in the file at that
path. -/
def alikeFiles : List (String × Entry) :=
  [("go.mod", .file "module m\n".toUTF8),
    ("a.go", .file ("package p\n\nfunc (r struct\x7ba b\"\x7d/b.go::m/a.go::m." ++
      "struct\x7ba b\"\x7d) f() \x7b\x7d\n").toUTF8),
    ("a.go::m.struct\x7ba b\"\x7d", .dir [("b.go",
      .file "package q\n\nfunc                                               f() \x7b\x7d\n".toUTF8)])]

def alike : Store :=
  { root := .dir [("ws", .dir alikeFiles)] }

theorem symbolId_collision_alike : ∃ summary after a b,
    (generate alike "/ws" none none).result = .ok (summary, after) ∧
    summary.findings.symbols = [a, b] ∧
    (symbolRecord "/ws" a).field? "symbol_id" = (symbolRecord "/ws" b).field? "symbol_id" := by
  have hs : alike.Sound := Store.sound_of_isNeat (by decide +kernel)
  have hroot : alike.realPath "/ws" = "/ws" := by decide +kernel
  have hprepare : prepare alike "/ws" none = .ok ({}, "/ws/.goscope") := by decide +kernel
  obtain ⟨ws, hws, hpair⟩ : ∃ ws ∈ (Load.workspace alike "/ws" false).1.toOption,
      (Findings.inPackages {} [] ws.packages).symbols.map (fun s =>
        (s.file, s.package, s.qualifiedName, s.line, s.column)) =
      [("/ws/a.go", "m", "struct\x7ba b\"\x7d/b.go::m/a.go::m.struct\x7ba b\"\x7d.f", 3, 52),
        ("/ws/a.go::m.struct\x7ba b\"\x7d/b.go", "m/a.go::m.struct\x7ba b\"\x7d", "f", 3, 52)] := by
    decide +kernel
  have hat : alike.root.at? ["ws"] = some (.dir alikeFiles) := rfl
  have hnone : alike.root.at? (["ws"] ++ [".goscope"]) = none := rfl
  have hselect : selectPackages ws none = .ok ws.packages := rfl
  obtain ⟨after, hresult⟩ := generate_new hs ["ws"] [] hat hnone (by decide) (by decide) hprepare
    (Load.workspace_of_toOption hws) hselect
  have hpairs := symbolId_collision hs.proper hresult
  have hsymbols : (draft {} "/ws/.goscope" ws ws.packages).summary.findings.symbols =
      (Findings.inPackages {} [] ws.packages).symbols := rfl
  simp only [List.map_eq_cons_iff, List.map_eq_nil_iff, Prod.mk.injEq] at hpair
  obtain ⟨a, _, hall, ⟨hfile, hpackage, hname, hline, hcolumn⟩, b, _, rfl,
    ⟨hfile', hpackage', hname', hline', hcolumn'⟩, rfl⟩ := hpair
  rw [hall] at hsymbols
  rw [hsymbols, hroot] at hpairs
  refine ⟨_, _, a, b, hresult, hsymbols, ?_⟩
  apply (List.rel_of_pairwise_cons hpairs List.mem_cons_self).mpr
  refine ⟨hline.trans hline'.symm, hcolumn.trans hcolumn'.symm, .inl ⟨"::m.struct\x7ba b\"\x7d/b.go", ?_⟩⟩
  rw [hfile, hfile', hpackage, hpackage', hname, hname']
  decide +kernel

end Report

end GoAtlas
