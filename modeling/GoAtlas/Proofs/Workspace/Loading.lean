import GoAtlas.Workspace.Load
import GoAtlas.Proofs.Files.Resolving
import GoAtlas.Proofs.Source.Slots

namespace GoAtlas

namespace Load

open Files Source

variable {s : Store} {r r' : Registry} {p p' : Package} {f : SourceFile}

/-- A file is parsed from its content and has a slot of its size. -/
structure Registered (r : Registry) (f : SourceFile) : Prop where
  parsed : Syntax.parse? f.content = some f.tree
  slot : f.slot ∈ r.slots
  file : f.slot.file = f.path
  size : f.slot.size = f.content.size
  starts : f.slot.lineStarts = lineStarts f.content

/-- A registry to which files have been added. -/
def Extends (r r' : Registry) : Prop :=
  ∃ files, r' = (r.register files).2

theorem Extends.refl (r : Registry) : Extends r r :=
  ⟨[], rfl⟩

theorem Extends.trans {r'' : Registry} (h : Extends r r') (h' : Extends r' r'') :
    Extends r r'' := by
  obtain ⟨files, rfl⟩ := h
  obtain ⟨more, rfl⟩ := h'
  exact ⟨files ++ more, by rw [Registry.register_append]⟩

/-- Slots once given stay. -/
theorem Registered.mono (h : Registered r f) (he : Extends r r') : Registered r' f := by
  obtain ⟨files, rfl⟩ := he
  refine { h with slot := ?_ }
  rw [Registry.slots_register]
  exact List.mem_append_left _ h.slot

theorem file_ok {path : String} (h : file s path r = .ok (f, r')) :
    f.path = path ∧ Registered r' f ∧ Extends r r' := by
  unfold file at h
  split at h
  · cases h
  · next content hc =>
    split at h
    · cases h
    · next tree ht =>
      simp only [Except.ok.injEq, Prod.mk.injEq] at h
      obtain ⟨rfl, rfl⟩ := h
      exact ⟨rfl, ⟨ht, by simp [Registry.add], rfl, rfl, rfl⟩, [(path, content)], rfl⟩

/-- The files of a package: those that are tests and those that are not, with their paths in the
order in which they were added. -/
structure Holds (r : Registry) (p : Package) (paths : List String) : Prop where
  paths : ((p.allFiles true).map (·.path)).Perm paths
  registered : ∀ f ∈ p.allFiles true, Registered r f
  tests : ∀ f ∈ p.testFiles, f.isTest
  others : ∀ f ∈ p.files, f.isTest = false

theorem Holds.mono {paths : List String} (h : Holds r p paths) (he : Extends r r') :
    Holds r' p paths :=
  ⟨h.paths, fun f hf => (h.registered f hf).mono he, h.tests, h.others⟩

theorem addFile_of_test (p : Package) (ht : f.isTest = true) :
    (addFile p f).files = p.files ∧ (addFile p f).testFiles = p.testFiles ++ [f] := by
  rw [addFile, if_pos ht]
  exact ⟨rfl, rfl⟩

theorem addFile_of_not_test (p : Package) (ht : f.isTest = false) :
    (addFile p f).files = p.files ++ [f] ∧ (addFile p f).testFiles = p.testFiles := by
  rw [addFile, if_neg (by simp [ht])]
  exact ⟨rfl, rfl⟩

theorem allFiles_addFile (p : Package) (f : SourceFile) :
    ((addFile p f).allFiles true).Perm (p.allFiles true ++ [f]) := by
  cases ht : f.isTest with
  | true => simp [Package.allFiles, addFile_of_test p ht]
  | false =>
    simp only [Package.allFiles, addFile_of_not_test p ht, if_true, List.append_assoc]
    exact List.perm_append_comm.append_left _

theorem Holds.addFile {paths : List String} (h : Holds r p paths) (hf : Registered r f) :
    Holds r (addFile p f) (paths ++ [f.path]) := by
  have hperm := allFiles_addFile p f
  have hreg : ∀ g ∈ (Load.addFile p f).allFiles true, Registered r g := fun g hg =>
    (List.mem_append.mp (hperm.mem_iff.mp hg)).elim (h.registered g) fun hg =>
      List.mem_singleton.mp hg ▸ hf
  have hpaths : (((Load.addFile p f).allFiles true).map (·.path)).Perm (paths ++ [f.path]) := by
    refine (hperm.map _).trans ?_
    simpa using h.paths.append_right [f.path]
  cases ht : f.isTest with
  | true =>
    obtain ⟨hfiles, htests⟩ := addFile_of_test p ht
    refine ⟨hpaths, hreg, ?_, hfiles ▸ h.others⟩
    simpa [htests, or_imp, forall_and] using ⟨h.tests, ht⟩
  | false =>
    obtain ⟨hfiles, htests⟩ := addFile_of_not_test p ht
    refine ⟨hpaths, hreg, htests ▸ h.tests, ?_⟩
    simpa [hfiles, or_imp, forall_and] using ⟨h.others, ht⟩

theorem addFile_path (p : Package) (f : SourceFile) :
    (addFile p f).path = p.path ∧ (addFile p f).importPath = p.importPath := by
  unfold addFile
  split <;> exact ⟨rfl, rfl⟩

theorem addFiles_extends (paths : List String) (p : Package) (r : Registry) :
    Extends r (addFiles s paths p r).2 := by
  induction paths generalizing p r with
  | nil => exact .refl r
  | cons path more ih =>
    rw [addFiles]
    cases hf : file s path r with
    | error e => exact .refl r
    | ok found => exact (file_ok hf).2.2.trans (ih _ _)

theorem addFiles_holds {paths done : List String} (h : Holds r p done)
    (he : addFiles s paths p r = (.ok p', r')) :
    Holds r' p' (done ++ paths) ∧ p'.path = p.path ∧ p'.importPath = p.importPath := by
  induction paths generalizing p r done with
  | nil =>
    simp only [addFiles, Prod.mk.injEq, Except.ok.injEq] at he
    obtain ⟨rfl, rfl⟩ := he
    exact ⟨by simpa using h, rfl, rfl⟩
  | cons path more ih =>
    rw [addFiles] at he
    cases hf : file s path r with
    | error e => simp [hf] at he
    | ok found =>
      rw [hf] at he
      obtain ⟨rfl, hreg, hext⟩ := file_ok hf
      obtain ⟨hh, hp, hi⟩ := ih ((h.mono hext).addFile hreg) he
      obtain ⟨hpath, himport⟩ := addFile_path p found.1
      exact ⟨by simpa using hh, hp.trans hpath, hi.trans himport⟩

theorem package_extends (directory : String) (r : Registry) :
    Extends r (package s directory r).2 := by
  unfold package
  split
  · exact .refl r
  · next paths _ =>
    have hext := addFiles_extends (s := s) paths { path := directory } r
    split
    · next p r' he =>
      rw [he] at hext
      split <;> exact hext
    · next e r' he => rwa [he] at hext

/-- The package in a directory holds the sources found there, and has no import path yet. -/
theorem package_ok {directory : String} (h : package s directory r = (.ok p, r')) :
    p.path = directory ∧ p.importPath = "" ∧
      ∃ paths, Discovery.sources s directory = .ok paths ∧ Holds r' p paths := by
  unfold package at h
  split at h
  · cases h
  · next paths hp =>
    split at h
    · next p₀ r₀ he =>
      split at h
      · cases h
      · cases h
        have hempty : Holds r { path := directory } [] :=
          ⟨by simp [Package.allFiles], by simp [Package.allFiles], by simp, by simp⟩
        obtain ⟨hh, hpath, himport⟩ := addFiles_holds hempty he
        exact ⟨hpath, himport, paths, hp, by simpa using hh⟩
    · cases h

/-- Directories are taken one by one, each with its outcome. -/
theorem packages_spec (dirs : List String) (r : Registry) :
    (packages s dirs r).1.map (·.1) = dirs ∧ Extends r (packages s dirs r).2 ∧
      ∀ d p, (d, .ok p) ∈ (packages s dirs r).1 →
        p.path = d ∧ p.importPath = "" ∧ ∃ paths, Discovery.sources s d = .ok paths ∧
          Holds (packages s dirs r).2 p paths := by
  induction dirs generalizing r with
  | nil => exact ⟨rfl, .refl r, by simp [packages]⟩
  | cons d ds ih =>
    obtain ⟨hd, hext, hok⟩ := ih (package s d r).2
    refine ⟨congrArg (d :: ·) hd, (package_extends d r).trans hext, fun d' p hp => ?_⟩
    rcases List.mem_cons.mp hp with he | hp
    · obtain ⟨rfl, he⟩ := Prod.mk.inj he
      have hp : package s d' r = (.ok p, (package s d' r).2) := Prod.ext he.symm rfl
      obtain ⟨hpath, himport, paths, hs, hh⟩ := package_ok hp
      exact ⟨hpath, himport, paths, hs, hh.mono hext⟩
    · exact hok d' p hp

end Load

namespace Workspace

open GoAtlas.Path

variable {ws : Workspace} {ns : List String} {p q : Package}

/-- A package lies below a place, in a directory that holds its files. -/
structure Placed (ns : List String) (p : Package) : Prop where
  directory : ∃ way, (∀ m ∈ way, IsPart m) ∧ ".." ∉ way ∧ p.path = ofParts (ns ++ way)
  files : ∃ names : List String, names.Nodup ∧ (∀ m ∈ names, IsPart m) ∧ ".." ∉ names ∧
    ((p.allFiles true).map (·.path)).Perm (names.map (join p.path))

/-- The paths of a package's files are those of its directory, each with one more part. -/
theorem Placed.file (h : Placed ns p) (hn : ∀ m ∈ ns, IsPart m) {f : SourceFile}
    (hf : f ∈ p.allFiles true) :
    ∃ way name, (∀ m ∈ ns ++ way ++ [name], IsPart m) ∧ ".." ∉ way ++ [name] ∧
      p.path = ofParts (ns ++ way) ∧ f.path = ofParts (ns ++ way ++ [name]) := by
  obtain ⟨way, hw, hdown, hpath⟩ := h.directory
  obtain ⟨names, _, hparts, hup, hperm⟩ := h.files
  obtain ⟨name, hname, he⟩ :=
    List.mem_map.mp (hperm.mem_iff.mp (List.mem_map_of_mem (f := (·.path)) hf))
  have hway : ∀ m ∈ ns ++ way, IsPart m := by simpa [or_imp, forall_and] using ⟨hn, hw⟩
  refine ⟨way, name, ?_, ?_, hpath, ?_⟩
  · simpa [or_imp, forall_and, hparts name hname] using ⟨hn, hw⟩
  · have hne : ".." ≠ name := fun he => hup (he ▸ hname)
    simpa [hne] using hdown
  · rw [← he, hpath, join_ofParts (hparts name hname) hway]

theorem Placed.path_eq (hp : Placed ns p) (hq : Placed ns q) (hn : ∀ m ∈ ns, IsPart m)
    {f g : SourceFile} (hf : f ∈ p.allFiles true) (hg : g ∈ q.allFiles true)
    (h : f.path = g.path) : p.path = q.path := by
  obtain ⟨way, name, hparts, -, hpath, hfile⟩ := hp.file hn hf
  obtain ⟨way', name', hparts', -, hpath', hfile'⟩ := hq.file hn hg
  have he := ofParts_inj hparts hparts' (hfile.symm.trans (h.trans hfile'))
  rw [hpath, hpath', (List.append_inj' he rfl).1]

theorem Placed.nodup_files (h : Placed ns p) (hn : ∀ m ∈ ns, IsPart m) :
    ((p.allFiles true).map (·.path)).Nodup := by
  obtain ⟨way, hw, -, hpath⟩ := h.directory
  obtain ⟨names, hnodup, hparts, -, hperm⟩ := h.files
  have hway : ∀ m ∈ ns ++ way, IsPart m := by simpa [or_imp, forall_and] using ⟨hn, hw⟩
  refine hperm.nodup_iff.mpr (hnodup.map_on fun a ha b hb he => ?_)
  rw [hpath, join_ofParts (hparts a ha) hway, join_ofParts (hparts b hb) hway] at he
  have hall : ∀ m, IsPart m → ∀ k ∈ ns ++ way ++ [m], IsPart k := fun m hm => by
    simpa [or_imp, forall_and, hm] using ⟨hn, hw⟩
  simpa using ofParts_inj (hall a (hparts a ha)) (hall b (hparts b hb)) he

/-- A workspace whose packages lie below its root and have the import paths of their places. -/
structure Rooted (ws : Workspace) (ns : List String) : Prop where
  isPart : ∀ m ∈ ns, IsPart m
  root : ws.root = ofParts ns
  placed : ∀ p ∈ ws.packages, Placed ns p
  importPath : ∀ p ∈ ws.packages, p.importPath = ws.importPathOf p.path

structure Loaded (ws : Workspace) : Prop where
  directories : (ws.packages.map (·.path)).Nodup
  paths : ((ws.files true).map (·.path)).Nodup
  registered : ∀ f ∈ ws.files true, Load.Registered ws.registry f
  registry : ∃ files, ws.registry = (({} : Source.Registry).register files).2
  tests : ∀ p ∈ ws.packages, ∀ f ∈ p.testFiles, f.isTest
  others : ∀ p ∈ ws.packages, ∀ f ∈ p.files, f.isTest = false
  importPaths : ∀ m, ws.module? = some m → m.path ≠ "" →
    (∀ p ∈ ws.packages, p.importPath ≠ "") ∧ (ws.packages.map (·.importPath)).Nodup

theorem Loaded.ordered (h : ws.Loaded) : ws.registry.Ordered := by
  obtain ⟨files, hr⟩ := h.registry
  rw [hr]
  exact Source.Registry.ordered_empty.register files

theorem importPathOf_below {m : ModuleFile} (hm : ws.module? = some m)
    (hroot : ws.root = ofParts ns) (hn : ∀ k ∈ ns, IsPart k) {way : List String}
    (hw : ∀ k ∈ way, IsPart k) :
    ws.importPathOf (ofParts (ns ++ way)) = m.path ++ if way = [] then "" else ofParts way := by
  rw [importPathOf, hm, hroot, below?_ofParts hn hw]
  cases way with
  | nil => simp
  | cons part more => simp [ofParts, String.append_assoc]

theorem importPathOf_inj {m : ModuleFile} (hm : ws.module? = some m)
    (hroot : ws.root = ofParts ns) (hn : ∀ k ∈ ns, IsPart k) (hp : Placed ns p)
    (hq : Placed ns q) (h : ws.importPathOf p.path = ws.importPathOf q.path) :
    p.path = q.path := by
  obtain ⟨way, hw, -, hpath⟩ := hp.directory
  obtain ⟨way', hw', -, hpath'⟩ := hq.directory
  have hne : ∀ l, ofParts l ≠ "" := fun l he => by simpa [ofParts] using congrArg String.toList he
  rw [hpath, hpath', importPathOf_below hm hroot hn hw, importPathOf_below hm hroot hn hw',
    String.append_right_inj] at h
  suffices way = way' by rw [hpath, hpath', this]
  by_cases hnil : way = [] <;> by_cases hnil' : way' = []
  · rw [hnil, hnil']
  · exact (hne way' (by simpa [hnil, hnil'] using h.symm)).elim
  · exact (hne way (by simpa [hnil, hnil'] using h)).elim
  · exact ofParts_inj hw hw' (by simpa [hnil, hnil'] using h)

/-- Packages below the root have different import paths if they are in different directories. -/
theorem Rooted.nodup_importPaths (h : ws.Rooted ns) (hd : (ws.packages.map (·.path)).Nodup)
    {m : ModuleFile} (hm : ws.module? = some m) : (ws.packages.map (·.importPath)).Nodup := by
  refine List.pairwise_map.mpr ((List.pairwise_map.mp hd).imp_of_mem ?_)
  intro p q hpm hqm hne he
  rw [h.importPath p hpm, h.importPath q hqm] at he
  exact hne (importPathOf_inj hm h.root h.isPart (h.placed p hpm) (h.placed q hqm) he)

theorem nodup_files (hn : ∀ m ∈ ns, IsPart m) {ps : List Package}
    (hd : (ps.map (·.path)).Nodup) (hp : ∀ p ∈ ps, Placed ns p) :
    ((ps.flatMap (·.allFiles true)).map (·.path)).Nodup := by
  rw [List.map_flatMap]
  refine List.nodup_flatMap.mpr ⟨fun p hm => (hp p hm).nodup_files hn, ?_⟩
  refine (List.pairwise_map.mp hd).imp_of_mem fun ha hb hne path hx hy => hne ?_
  obtain ⟨f, hf, he⟩ := List.mem_map.mp hx
  obtain ⟨g, hg, he'⟩ := List.mem_map.mp hy
  exact (hp _ ha).path_eq (hp _ hb) hn hf hg (he.trans he'.symm)

theorem Rooted.loaded (h : ws.Rooted ns) (hd : (ws.packages.map (·.path)).Nodup)
    (hr : Load.Extends {} ws.registry)
    (hh : ∀ p ∈ ws.packages, ∃ paths, Load.Holds ws.registry p paths) : ws.Loaded where
  directories := hd
  paths := nodup_files h.isPart hd h.placed
  registered f hf := by
    obtain ⟨p, hm, hf⟩ := List.mem_flatMap.mp hf
    exact (hh p hm).choose_spec.registered f hf
  registry := hr
  tests p hm := (hh p hm).choose_spec.tests
  others p hm := (hh p hm).choose_spec.others
  importPaths m hm hne := by
    refine ⟨fun p hpm => ?_, h.nodup_importPaths hd hm⟩
    obtain ⟨way, hw, -, hpath⟩ := (h.placed p hpm).directory
    rw [h.importPath p hpm, hpath, importPathOf_below hm h.root h.isPart hw]
    simp [hne]

end Workspace

namespace Load

open Files GoAtlas.Path Workspace

variable {s : Store} {ns : List String}

theorem withImportPaths_packages {ws : Workspace} (hnone : ∀ p ∈ ws.packages, p.importPath = "") :
    ∀ p ∈ (withImportPaths ws).packages, ∃ p₀ ∈ ws.packages,
      p = { p₀ with importPath := ws.importPathOf p₀.path } := by
  intro p hp
  by_cases hm : ws.module?.isSome
  · rw [withImportPaths, if_pos hm] at hp
    obtain ⟨p₀, hp₀, rfl⟩ := List.mem_map.mp hp
    exact ⟨p₀, hp₀, rfl⟩
  · rw [withImportPaths, if_neg hm] at hp
    have himport : p.importPath = ws.importPathOf p.path := by
      rw [importPathOf, Option.not_isSome_iff_eq_none.mp hm]
      exact hnone p hp
    exact ⟨p, hp, by rw [← himport]⟩

theorem withImportPaths_eq (ws : Workspace) :
    (withImportPaths ws).root = ws.root ∧ (withImportPaths ws).module? = ws.module? ∧
      (withImportPaths ws).registry = ws.registry ∧
      (withImportPaths ws).packages.map (·.path) = ws.packages.map (·.path) := by
  unfold withImportPaths
  split
  · exact ⟨rfl, rfl, rfl, by simp⟩
  · exact ⟨rfl, rfl, rfl, rfl⟩

theorem assemble_eq (s : Store) (root : String) (module? : Option ModuleFile)
    (dirs : List String) :
    let ws := (assemble s root module? dirs).1
    ws.root = root ∧ ws.module? = module? ∧ ws.registry = (packages s dirs {}).2 ∧
      ws.packages.map (·.path) =
        ((packages s dirs {}).1.filterMap fun (_, r) => r.toOption).map (·.path) :=
  withImportPaths_eq _

theorem sublist_of_ok {results : List (String × Except Failure Package)}
    (h : ∀ d p, (d, .ok p) ∈ results → p.path = d) :
    ((results.filterMap fun (_, r) => r.toOption).map (·.path)).Sublist (results.map (·.1)) := by
  induction results with
  | nil => exact .slnil
  | cons x results ih =>
    obtain ⟨d, r⟩ := x
    have ih := ih fun d p hp => h d p (List.mem_cons_of_mem _ hp)
    cases r with
    | error e => exact ih.cons d
    | ok p =>
      have hp : p.path = d := h d p List.mem_cons_self
      exact hp ▸ ih.cons_cons p.path

theorem assemble_rooted (hs : s.Proper) (hn : ∀ m ∈ ns, IsPart m) (module? : Option ModuleFile)
    {dirs : List String} (hd : Discovery.Below ns dirs) :
    (assemble s (ofParts ns) module? dirs).1.Rooted ns ∧
      (assemble s (ofParts ns) module? dirs).1.Loaded := by
  obtain ⟨hdirs, hext, hok⟩ := packages_spec (s := s) dirs {}
  let ws₀ : Workspace :=
    { root := ofParts ns, module?, registry := (packages s dirs {}).2
      packages := (packages s dirs {}).1.filterMap fun (_, r) => r.toOption }
  have hmem : ∀ p ∈ ws₀.packages, (p.path, .ok p) ∈ (packages s dirs {}).1 := by
    intro p hp
    obtain ⟨⟨d, r⟩, hr, he⟩ := List.mem_filterMap.mp hp
    cases r with
    | error e => cases he
    | ok p' =>
      obtain rfl := Option.some.inj he
      rwa [(hok d p' hr).1]
  have hnone : ∀ p ∈ ws₀.packages, p.importPath = "" := fun p hp => (hok _ _ (hmem p hp)).2.1
  have hnodup : (ws₀.packages.map (·.path)).Nodup := by
    refine (sublist_of_ok fun d p hp => (hok d p hp).1).nodup ?_
    rw [hdirs]
    exact hd.nodup
  obtain ⟨hroot, hmodule, hregistry, hpaths⟩ := withImportPaths_eq ws₀
  have hrooted : (withImportPaths ws₀).Rooted ns := by
    refine ⟨hn, hroot, fun p hp => ?_, fun p hp => ?_⟩
    · obtain ⟨p₀, hp₀, rfl⟩ := withImportPaths_packages hnone p hp
      obtain ⟨_, _, paths, hsources, hh⟩ := hok _ _ (hmem p₀ hp₀)
      obtain ⟨names, hnd, hparts, hup, rfl⟩ := Discovery.sources_eq hs hsources
      refine ⟨?_, names, hnd, hparts, hup, hh.paths⟩
      exact hd.leads _ (hdirs ▸ List.mem_map_of_mem (f := (·.1)) (hmem p₀ hp₀))
    · obtain ⟨p₀, _, rfl⟩ := withImportPaths_packages hnone p hp
      simp only [importPathOf, hroot, hmodule]
  refine ⟨hrooted, hrooted.loaded (hpaths ▸ hnodup) (hregistry ▸ hext) fun p hp => ?_⟩
  obtain ⟨p₀, hp₀, rfl⟩ := withImportPaths_packages hnone p hp
  obtain ⟨_, _, paths, _, hh⟩ := hok _ _ (hmem p₀ hp₀)
  rw [hregistry]
  exact ⟨paths, hh.paths, hh.registered, hh.tests, hh.others⟩

/-- A workspace that can be loaded is put together from the directories below its root. -/
theorem workspace_ok {root : String} {respectIgnore : Bool} {ws : Workspace} {log : List LogRecord}
    (h : workspace s root respectIgnore = (.ok ws, log)) : ∃ module? dirs,
      moduleOf s (s.realPath root) = .ok module? ∧
      Discovery.packageDirs s (s.realPath root) respectIgnore = .ok dirs ∧
      ws = (assemble s (s.realPath root) module? dirs).1 := by
  unfold workspace at h
  split at h
  · cases h
  · next found hresolve =>
    obtain rfl := Store.realPath_of_resolve hresolve
    unfold workspaceAt at h
    dsimp only at h
    split at h
    · cases h
    · next module? hm =>
      split at h
      · cases h
      · next dirs hd =>
        cases h
        exact ⟨module?, dirs, hm, hd, rfl⟩

theorem workspace_of_toOption {root : String} {respectIgnore : Bool} {ws : Workspace}
    (h : (workspace s root respectIgnore).1.toOption = some ws) :
    workspace s root respectIgnore = (.ok ws, (workspace s root respectIgnore).2) := by
  refine Prod.ext ?_ rfl
  cases he : (workspace s root respectIgnore).1 with
  | error e => simp [he, Except.toOption] at h
  | ok found => rw [he] at h; exact congrArg Except.ok (Option.some.inj h)

section

variable (hs : s.Proper) {root : String} {respectIgnore : Bool} {ws : Workspace}
  {log : List LogRecord} (h : workspace s root respectIgnore = (.ok ws, log))
include hs h

theorem rooted_loaded : ∃ ns, s.realPath root = ofParts ns ∧ ws.Rooted ns ∧ ws.Loaded := by
  obtain ⟨ns, hn, hroot⟩ := s.realPath_eq root
  obtain ⟨module?, dirs, -, hdirs, rfl⟩ := workspace_ok h
  rw [hroot] at hdirs ⊢
  exact ⟨ns, rfl, assemble_rooted hs hn module? (Discovery.packageDirs_below hs hn hdirs)⟩

/-- Whatever the files, a workspace that can be loaded is in order. -/
theorem loaded : ws.Loaded := by
  obtain ⟨ns, -, -, hws⟩ := rooted_loaded hs h
  exact hws

end

theorem workspace_ignore {root : String} (hrules : Discovery.rulesOf s (s.realPath root) = .ok [])
    (respectIgnore : Bool) : workspace s root respectIgnore = workspace s root true := by
  have hdirs : Discovery.packageDirs s (s.realPath root) respectIgnore =
      Discovery.packageDirs s (s.realPath root) true := by
    cases respectIgnore with
    | true => rfl
    | false => simp only [Discovery.packageDirs, if_true, hrules, Bool.false_eq_true, if_false]
  rw [workspace, workspace]
  cases hresolve : s.resolve root with
  | error e => rfl
  | ok found =>
    obtain rfl := Store.realPath_of_resolve hresolve
    simp only [workspaceAt, hdirs]

theorem addFiles_of_failing {paths : List String} {path : String} (hpath : path ∈ paths)
    (hfile : ∀ r, ∃ e, file s path r = .error e) (p : Package) (r : Source.Registry) :
    ∃ e r', addFiles s paths p r = (.error e, r') := by
  induction paths generalizing p r with
  | nil => cases hpath
  | cons first paths ih =>
    rw [addFiles]
    rcases List.mem_cons.mp hpath with rfl | hpath
    · obtain ⟨e, he⟩ := hfile r
      rw [he]
      exact ⟨e, r, rfl⟩
    · cases file s first r with
      | error e => exact ⟨e, r, rfl⟩
      | ok found => exact ih hpath _ _

theorem package_of_failing {directory path : String} {paths : List String}
    (hsources : Discovery.sources s directory = .ok paths) (hpath : path ∈ paths)
    (hfile : ∀ r, ∃ e, file s path r = .error e) (r : Source.Registry) :
    ∃ e r', package s directory r = (.error e, r') := by
  obtain ⟨e, r', h⟩ := addFiles_of_failing hpath hfile { path := directory } r
  rw [package, hsources]
  simp only [h]
  exact ⟨e, r', rfl⟩

theorem sources_eq {directory : String} {names : List String}
    (hsorted : names.Pairwise fun a b => decide (a ≤ b) = true)
    (h : ((s.list directory).bind
      (·.filterM fun (n, e) => Discovery.isSource s directory n e)).toOption.map (·.map (·.1)) =
        some names) :
    Discovery.sources s directory = .ok (names.map (join directory)) := by
  obtain ⟨l, hl, hn⟩ := Option.map_eq_some_iff.mp h
  cases hf : (s.list directory).bind
      (·.filterM fun (n, e) => Discovery.isSource s directory n e) with
  | error e => simp [hf, Except.toOption] at hl
  | ok kept =>
    obtain rfl : kept = l := by simpa [hf, Except.toOption] using hl
    have hnames := List.mergeSort_of_pairwise hsorted
    simp [Discovery.sources, bind, hf, hn, hnames]

theorem sources_single {directory name : String}
    (h : ((s.list directory).bind
      (·.filterM fun (n, e) => Discovery.isSource s directory n e)).toOption.map (·.map (·.1)) =
        some [name]) :
    Discovery.sources s directory = .ok [join directory name] :=
  sources_eq (List.pairwise_singleton _ _) h

/-- The source of a directory that has no other. -/
def soleFile (path : String) (content : ByteArray) (tree : Syntax.Tree) (r : Source.Registry) :
    SourceFile :=
  { path, content, tree, slot := r.slotFor path content }

theorem file_eq {path : String} {content : ByteArray} {tree : Syntax.Tree} (r : Source.Registry)
    (hr : s.read path = .ok content) (hp : Syntax.parse? content = some tree) :
    file s path r = .ok (soleFile path content tree r, (r.add path content).2) := by
  simp only [file, hr, hp]
  rfl

theorem package_single {directory path : String} {content : ByteArray} {tree : Syntax.Tree}
    (r : Source.Registry) (hs : Discovery.sources s directory = .ok [path])
    (hr : s.read path = .ok content) (hp : Syntax.parse? content = some tree)
    (ht : SourceFile.isTestPath path = false) :
    package s directory r =
      (.ok (addFile { path := directory } (soleFile path content tree r)),
        (r.add path content).2) := by
  have hfile := file_eq r hr hp
  have hfiles := addFile_of_not_test { path := directory } (f := soleFile path content tree r) ht
  simp [package, hs, addFiles, hfile, hfiles]

end Load

end GoAtlas
