import GoAtlas.Proofs.Workspace.Loading

namespace GoAtlas.Load

open Files GoAtlas.Path

variable {s : Store} {entries : List (String × Entry)} {content : ByteArray}

def isPlainSource (x : String × Entry) : Bool :=
  Discovery.isSourceName x.1 && !x.2.isDir

theorem isSource_of_not_isLink (directory : String) {x : String × Entry} (h : x.2.isLink = false) :
    Discovery.isSource s directory x.1 x.2 = .ok (isPlainSource x) := by
  obtain ⟨name, e⟩ := x
  unfold Discovery.isSource isPlainSource
  split
  · next hname =>
    cases e with
    | file content => simp [Discovery.leadsToDir, Entry.isDir, Except.map, hname]
    | dir entries => simp [Discovery.leadsToDir, Entry.isDir, Except.map]
    | link target => cases h
  · next hname => simp [hname]

theorem filterM_isSource (directory : String) {l : List (String × Entry)}
    (hlinks : ∀ x ∈ l, x.2.isLink = false) :
    l.filterM (fun (n, e) => Discovery.isSource s directory n e) = .ok (l.filter isPlainSource) := by
  induction l with
  | nil => rfl
  | cons x l ih =>
    obtain ⟨name, e⟩ := x
    obtain ⟨hx, hlinks⟩ := List.forall_mem_cons.mp hlinks
    have hsource := isSource_of_not_isLink (s := s) directory hx
    rw [filterM_cons_eq, ih hlinks, List.filter_cons]
    simp only [hsource]
    rfl

theorem anySource_eq (directory : String) {l : List (String × Entry)}
    (hlinks : ∀ x ∈ l, x.2.isLink = false) :
    Discovery.anySource s directory l = .ok (l.any isPlainSource) := by
  induction l with
  | nil => rfl
  | cons x l ih =>
    obtain ⟨hx, hlinks⟩ := List.forall_mem_cons.mp hlinks
    rw [Discovery.anySource, isSource_of_not_isLink directory hx, ih hlinks, List.any_cons]
    cases isPlainSource x <;> rfl

section

variable {place : List String} (hs : s.Sound)
  (hat : s.root.at? place = some (.dir entries))
include hs hat

theorem sources_place {names : List String} (hlinks : ∀ x ∈ entries, x.2.isLink = false)
    (hnames : (entries.reverse.filter isPlainSource).map (·.1) = names)
    (hsorted : names.Pairwise fun a b => decide (a ≤ b) = true) :
    Discovery.sources s (ofParts place) = .ok (names.map (join (ofParts place))) := by
  refine sources_eq hsorted ?_
  have hsources := filterM_isSource (s := s) (ofParts place)
    (fun x hx => hlinks x (List.mem_reverse.mp hx))
  rw [hs.list hat, ← hnames]
  simp only [Except.bind, hsources]
  rfl

theorem hasSources_place (hlinks : ∀ x ∈ entries, x.2.isLink = false)
    (hany : entries.any isPlainSource = true) :
    Discovery.hasSources s (ofParts place) = .ok true := by
  have hsource := anySource_eq (s := s) (ofParts place)
    (fun x hx => hlinks x (List.mem_reverse.mp hx))
  rw [List.any_reverse, hany] at hsource
  simp only [Discovery.hasSources, hs.list hat, Except.bind, hsource]

theorem moduleOf_place (hfile : entries.lookup "go.mod" = some (.file "module m\n".toUTF8)) :
    moduleOf s (ofParts place) = .ok (some { path := "m" }) := by
  have hpart : IsPart "go.mod" := by decide
  have hjoin := join_ofParts hpart (hs.bare hat).isPart
  have hread := hs.read_concat hat hpart (by decide) (Entry.at?_concat hat _ ▸ hfile)
  have htext : (Text.Utf8.decode? "module m\n".toUTF8).map ModuleFile.read =
      some { path := "m" } := by
    decide +kernel
  obtain ⟨text, htext, hmodule⟩ := Option.map_eq_some_iff.mp htext
  rw [← hjoin] at hread
  rw [moduleOf, if_pos (Store.isFile_of_read hread), hread]
  simp only [Except.toOption, Option.bind_some, htext, hmodule]

theorem rulesOf_place (hnone : entries.lookup ".gitignore" = none) :
    Discovery.rulesOf s (ofParts place) = .ok [] := by
  have hpart : IsPart ".gitignore" := by decide
  have hfile := hs.not_isFile hat hpart (by decide) fun e he => by
    rw [Entry.at?_concat hat, hnone] at he
    cases he
  rw [Discovery.rulesOf, join_ofParts hpart (hs.bare hat).isPart]
  simp only [hfile, Bool.false_and, Bool.false_eq_true, if_false]

theorem packageDirs_place {dirs : List String} (hnone : entries.lookup ".gitignore" = none)
    (hdirs : Discovery.directories (fun _ => false) (ofParts place) [] (.dir entries) = dirs)
    (hfilter : dirs.filterM (Discovery.hasSources s) = .ok dirs) :
    Discovery.packageDirs s (ofParts place) true = .ok dirs := by
  have hentry : s.entry? (ofParts place) = some (.dir entries) := by
    rw [Store.entry?, hs.locate hat]
    rfl
  have hignored : (fun way => isIgnored [] ("/".intercalate way)) = fun _ => false := rfl
  simp only [Discovery.packageDirs, if_true, rulesOf_place hs hat hnone, Except.bind,
    Discovery.packageDirsBy, hentry, hignored, hdirs, hfilter]

end

theorem directoriesIn_of_files {ignored : List String → Bool} {root : String} {way : List String}
    (h : ∀ x ∈ entries, x.2.isDir = false) :
    Discovery.directoriesIn ignored root way entries = [] := by
  induction entries with
  | nil => rfl
  | cons x entries ih =>
    obtain ⟨name, e⟩ := x
    obtain ⟨hx, hentries⟩ := List.forall_mem_cons.mp h
    rw [Discovery.directoriesIn, ih hentries]
    simp [hx]

theorem module_flat (hs : s.Sound) (hat : s.root.at? ["ws"] = some (.dir entries))
    (hfiles : ∀ x ∈ entries, x.2.isDir = false) (hlinks : ∀ x ∈ entries, x.2.isLink = false)
    (hmodule : entries.lookup "go.mod" = some (.file "module m\n".toUTF8))
    (hnone : entries.lookup ".gitignore" = none) (hany : entries.any isPlainSource = true) :
    s.resolve "/ws" = .ok "/ws" ∧ moduleOf s "/ws" = .ok (some { path := "m" }) ∧
      Discovery.packageDirs s "/ws" true = .ok ["/ws"] := by
  have hpath : ofParts ["ws"] = "/ws" := by decide
  have hdirs : Discovery.directories (fun _ => false) (ofParts ["ws"]) [] (.dir entries) =
      [ofParts ["ws"]] := by
    simp [Discovery.directories, directoriesIn_of_files hfiles]
  have hfilter : [ofParts ["ws"]].filterM (Discovery.hasSources s) = .ok [ofParts ["ws"]] := by
    rw [filterM_cons_eq, hasSources_place hs hat hlinks hany]
    rfl
  rw [← hpath]
  exact ⟨hs.resolve hat (hs.bare hat).realPath, moduleOf_place hs hat hmodule,
    packageDirs_place hs hat hnone hdirs hfilter⟩

/-- A store whose packages are the module itself and one below it, with one file each. -/
structure Nested (s : Store) (outer inner : ByteArray) : Prop where
  root : s.resolve "/ws" = .ok "/ws"
  module? : moduleOf s "/ws" = .ok (some { path := "m" })
  directories : Discovery.packageDirs s "/ws" true = .ok ["/ws", "/ws/b"]
  sources : Discovery.sources s "/ws" = .ok ["/ws/a.go"]
  sourcesInner : Discovery.sources s "/ws/b" = .ok ["/ws/b/b.go"]
  read : s.read "/ws/a.go" = .ok outer
  readInner : s.read "/ws/b/b.go" = .ok inner

def nestedFiles (outer inner : ByteArray) : List (String × Entry) :=
  [("go.mod", .file "module m\n".toUTF8), ("a.go", .file outer), ("b", .dir [("b.go", .file inner)])]

def nested (outer inner : ByteArray) : Store :=
  { root := .dir [("ws", .dir (nestedFiles outer inner))] }

theorem sound_nested (outer inner : ByteArray) : (nested outer inner).Sound :=
  Store.sound_of_isNeat (by simp [nested, nestedFiles, Entry.isNeat, Entry.areNeat])

theorem packageDirs_nested (outer inner : ByteArray) :
    Discovery.packageDirs (nested outer inner) (ofParts ["ws"]) true =
      .ok [ofParts ["ws"], ofParts ["ws", "b"]] := by
  have hs := sound_nested outer inner
  have hat : (nested outer inner).root.at? ["ws"] = some (.dir (nestedFiles outer inner)) := rfl
  have hbelow : (nested outer inner).root.at? ["ws", "b"] = some (.dir [("b.go", .file inner)]) := rfl
  have ha : Discovery.isSourceName "a.go" = true := by decide
  have hb : Discovery.isSourceName "b.go" = true := by decide
  have hskip : Discovery.isSkipped "b" = false := by decide
  have hdirs : Discovery.directories (fun _ => false) (ofParts ["ws"]) []
      (.dir (nestedFiles outer inner)) = [ofParts ["ws"], ofParts ["ws", "b"]] := by
    have hsub : join (ofParts ["ws"]) "b" = ofParts ["ws", "b"] := by decide
    simp [nestedFiles, Discovery.directories, Discovery.directoriesIn, Entry.isDir, hskip, hsub]
  have hsources := hasSources_place hs hat (by simp [nestedFiles, Entry.isLink])
    (by simp [nestedFiles, isPlainSource, Entry.isDir, ha])
  have hsourcesBelow := hasSources_place hs hbelow (by simp [Entry.isLink])
    (by simp [isPlainSource, Entry.isDir, hb])
  refine packageDirs_place hs hat rfl hdirs ?_
  rw [filterM_cons_eq, filterM_cons_eq, hsources, hsourcesBelow]
  rfl

theorem nested_nested (outer inner : ByteArray) : Nested (nested outer inner) outer inner := by
  have hs := sound_nested outer inner
  have hat : (nested outer inner).root.at? ["ws"] = some (.dir (nestedFiles outer inner)) := rfl
  have hbelow : (nested outer inner).root.at? ["ws", "b"] = some (.dir [("b.go", .file inner)]) := rfl
  have hmod : Discovery.isSourceName "go.mod" = false := by decide
  have ha : Discovery.isSourceName "a.go" = true := by decide
  have hb : Discovery.isSourceName "b.go" = true := by decide
  have hsources : Discovery.sources (nested outer inner) (ofParts ["ws"]) =
      .ok (["a.go"].map (join (ofParts ["ws"]))) :=
    sources_place hs hat (by simp [nestedFiles, Entry.isLink])
      (by simp [nestedFiles, isPlainSource, Entry.isDir, hmod, ha]) (List.pairwise_singleton _ _)
  have hsourcesBelow : Discovery.sources (nested outer inner) (ofParts ["ws", "b"]) =
      .ok (["b.go"].map (join (ofParts ["ws", "b"]))) :=
    sources_place hs hbelow (by simp [Entry.isLink]) (by simp [isPlainSource, Entry.isDir, hb])
      (List.pairwise_singleton _ _)
  have hroot := hs.resolve hat (hs.bare hat).realPath
  have hmodule := moduleOf_place hs hat rfl
  have hdirectories := packageDirs_nested outer inner
  have hread : (nested outer inner).read (ofParts (["ws"] ++ ["a.go"])) = .ok outer :=
    hs.read_concat hat (by decide) (by decide) rfl
  have hreadBelow : (nested outer inner).read (ofParts (["ws", "b"] ++ ["b.go"])) = .ok inner :=
    hs.read_concat hbelow (by decide) (by decide) rfl
  have hpath : ofParts ["ws"] = "/ws" := by decide
  have hpathBelow : ofParts ["ws", "b"] = "/ws/b" := by decide
  have hjoin : ["a.go"].map (join "/ws") = ["/ws/a.go"] := by decide
  have hjoinBelow : ["b.go"].map (join "/ws/b") = ["/ws/b/b.go"] := by decide
  have hfile : ofParts (["ws"] ++ ["a.go"]) = "/ws/a.go" := by decide
  have hfileBelow : ofParts (["ws", "b"] ++ ["b.go"]) = "/ws/b/b.go" := by decide
  rw [hpath] at hroot hmodule hdirectories hsources
  rw [hpathBelow] at hdirectories hsourcesBelow
  rw [hjoin] at hsources
  rw [hjoinBelow] at hsourcesBelow
  rw [hfile] at hread
  rw [hfileBelow] at hreadBelow
  exact ⟨hroot, hmodule, hdirectories, hsources, hsourcesBelow, hread, hreadBelow⟩

def nestedOuter (outer : ByteArray) (tree : Syntax.Tree) : Package :=
  { addFile { path := "/ws" } (soleFile "/ws/a.go" outer tree {}) with importPath := "m" }

def nestedInner (outer inner : ByteArray) (tree : Syntax.Tree) : Package :=
  { addFile { path := "/ws/b" } (soleFile "/ws/b/b.go" inner tree
      (Source.Registry.add {} "/ws/a.go" outer).2) with importPath := "m/b" }

def nestedWorkspace (outer inner : ByteArray) (tree tree' : Syntax.Tree) : Workspace :=
  { root := "/ws", module? := some { path := "m" }
    packages := [nestedOuter outer tree, nestedInner outer inner tree']
    registry := ((Source.Registry.add {} "/ws/a.go" outer).2.add "/ws/b/b.go" inner).2 }

theorem path_nested (outer inner : ByteArray) (tree tree' : Syntax.Tree) :
    (nestedOuter outer tree).path = "/ws" ∧ (nestedInner outer inner tree').path = "/ws/b" :=
  ⟨(addFile_path _ _).1, (addFile_path _ _).1⟩

theorem files_nestedOuter (outer : ByteArray) (tree : Syntax.Tree) :
    (nestedOuter outer tree).files = [soleFile "/ws/a.go" outer tree {}] := by
  have htest : SourceFile.isTestPath "/ws/a.go" = false := by decide
  exact (addFile_of_not_test { path := "/ws" } (f := soleFile "/ws/a.go" outer tree {}) htest).1

theorem files_nestedInner (outer inner : ByteArray) (tree : Syntax.Tree) :
    (nestedInner outer inner tree).files =
      [soleFile "/ws/b/b.go" inner tree (Source.Registry.add {} "/ws/a.go" outer).2] := by
  have htest : SourceFile.isTestPath "/ws/b/b.go" = false := by decide
  exact (addFile_of_not_test { path := "/ws/b" } (f := soleFile "/ws/b/b.go" inner tree _) htest).1

theorem Nested.workspace {outer inner : ByteArray} (h : Nested s outer inner)
    {tree tree' : Syntax.Tree} (htree : Syntax.parse? outer = some tree)
    (htree' : Syntax.parse? inner = some tree') :
    ∃ log, Load.workspace s "/ws" true = (.ok (nestedWorkspace outer inner tree tree'), log) := by
  have hp := fun r => package_single r h.sources h.read htree (by decide)
  have hq := fun r => package_single r h.sourcesInner h.readInner htree' (by decide)
  have hway : below? "/ws" "/ws" = some [] := by decide
  have hway' : below? "/ws" "/ws/b" = some ["b"] := by decide
  refine ⟨_, Prod.ext ?_ rfl⟩
  simp only [Load.workspace, h.root, workspaceAt, h.module?, h.directories, assemble, packages, hp, hq]
  simp [withImportPaths, Workspace.importPathOf, Except.toOption, addFile_path, hway, hway',
    nestedWorkspace, nestedOuter, nestedInner]

/-- A store whose only package is the module itself, with one file of a given content. -/
structure Single (s : Store) (content : ByteArray) : Prop where
  root : s.resolve "/ws" = .ok "/ws"
  module? : moduleOf s "/ws" = .ok (some { path := "m" })
  directories : Discovery.packageDirs s "/ws" true = .ok ["/ws"]
  sources : Discovery.sources s "/ws" = .ok ["/ws/main.go"]
  read : s.read "/ws/main.go" = .ok content

/-- The package as it is loaded, given the tree of its file. -/
def solePackage (content : ByteArray) (tree : Syntax.Tree) : Package :=
  { path := "/ws", name := "p", importPath := "m"
    files := [soleFile "/ws/main.go" content tree {}] }

def soleWorkspace (content : ByteArray) (tree : Syntax.Tree) : Workspace :=
  { root := "/ws", module? := some { path := "m" }, packages := [solePackage content tree]
    registry := (Source.Registry.add {} "/ws/main.go" content).2 }

theorem isTestPath_main : SourceFile.isTestPath "/ws/main.go" = false := by
  decide

theorem addFile_main {tree : Syntax.Tree}
    (hname : tree.packageName content = "p") (himports : tree.imports content = []) :
    addFile { path := "/ws" } (soleFile "/ws/main.go" content tree {}) =
      { solePackage content tree with importPath := "" } := by
  have himports : (soleFile "/ws/main.go" content tree {}).imports = [] := himports
  rw [addFile, if_neg (by simp [SourceFile.isTest, soleFile, isTestPath_main]), himports]
  simp only [solePackage, soleFile, hname, if_true, List.nil_append, List.foldl_nil]

theorem Single.workspace (h : Single s content) {tree : Syntax.Tree}
    (htree : Syntax.parse? content = some tree) (hname : tree.packageName content = "p")
    (himports : tree.imports content = []) :
    ∃ log, Load.workspace s "/ws" true = (.ok (soleWorkspace content tree), log) := by
  have hpackage := fun r => package_single r h.sources h.read htree isTestPath_main
  have hadd := addFile_main hname himports
  refine ⟨_, Prod.ext ?_ rfl⟩
  simp only [Load.workspace, h.root, workspaceAt, h.module?, h.directories, assemble, packages, hpackage, hadd]
  have hbelow : below? "/ws" "/ws" = some [] := by decide
  simp [withImportPaths, Workspace.importPathOf, hbelow, Except.toOption, soleWorkspace,
    solePackage]

def soleFiles (content : ByteArray) : List (String × Entry) :=
  [("go.mod", .file "module m\n".toUTF8), ("main.go", .file content)]

def sole (content : ByteArray) : Store :=
  { root := .dir [("ws", .dir (soleFiles content))] }

theorem sound_sole (content : ByteArray) : (sole content).Sound :=
  Store.sound_of_isNeat (by simp [sole, soleFiles, Entry.isNeat, Entry.areNeat])

theorem proper_sole (content : ByteArray) : (sole content).Proper :=
  (sound_sole content).proper

theorem single_sole (content : ByteArray) : Single (sole content) content := by
  have hs := sound_sole content
  have hat : (sole content).root.at? ["ws"] = some (.dir (soleFiles content)) := rfl
  have hmod : Discovery.isSourceName "go.mod" = false := by decide
  have hmain : Discovery.isSourceName "main.go" = true := by decide
  have hlinks : ∀ x ∈ soleFiles content, x.2.isLink = false := by simp [soleFiles, Entry.isLink]
  have hsources : Discovery.sources (sole content) (ofParts ["ws"]) =
      .ok (["main.go"].map (join (ofParts ["ws"]))) :=
    sources_place hs hat hlinks (by simp [soleFiles, isPlainSource, Entry.isDir, hmod, hmain])
      (List.pairwise_singleton _ _)
  have hread : (sole content).read (ofParts (["ws"] ++ ["main.go"])) = .ok content :=
    hs.read_concat hat (by decide) (by decide) rfl
  obtain ⟨hroot, hmodule, hdirectories⟩ := module_flat hs hat (by simp [soleFiles, Entry.isDir]) hlinks
    rfl rfl (by simp [soleFiles, isPlainSource, Entry.isDir, hmain])
  have hpath : ofParts ["ws"] = "/ws" := by decide
  have hjoin : ["main.go"].map (join "/ws") = ["/ws/main.go"] := by decide
  have hfile : ofParts (["ws"] ++ ["main.go"]) = "/ws/main.go" := by decide
  rw [hpath, hjoin] at hsources
  rw [hfile] at hread
  exact ⟨hroot, hmodule, hdirectories, hsources, hread⟩

/-- A store whose only package is the module itself, with a file and a test file of given
contents. -/
structure Paired (s : Store) (main test : ByteArray) : Prop where
  root : s.resolve "/ws" = .ok "/ws"
  module? : moduleOf s "/ws" = .ok (some { path := "m" })
  directories : Discovery.packageDirs s "/ws" true = .ok ["/ws"]
  sources : Discovery.sources s "/ws" = .ok ["/ws/main.go", "/ws/main_test.go"]
  read : s.read "/ws/main.go" = .ok main
  readTest : s.read "/ws/main_test.go" = .ok test

def pairedFiles (main test : ByteArray) : List (String × Entry) :=
  [("go.mod", .file "module m\n".toUTF8), ("main_test.go", .file test), ("main.go", .file main)]

def paired (main test : ByteArray) : Store :=
  { root := .dir [("ws", .dir (pairedFiles main test))] }

theorem sound_paired (main test : ByteArray) : (paired main test).Sound :=
  Store.sound_of_isNeat (by simp [paired, pairedFiles, Entry.isNeat, Entry.areNeat])

theorem paired_paired (main test : ByteArray) : Paired (paired main test) main test := by
  have hs := sound_paired main test
  have hat : (paired main test).root.at? ["ws"] = some (.dir (pairedFiles main test)) := rfl
  have hmod : Discovery.isSourceName "go.mod" = false := by decide
  have hmain : Discovery.isSourceName "main.go" = true := by decide
  have htest : Discovery.isSourceName "main_test.go" = true := by decide
  have hlinks : ∀ x ∈ pairedFiles main test, x.2.isLink = false := by simp [pairedFiles, Entry.isLink]
  have hsources : Discovery.sources (paired main test) (ofParts ["ws"]) =
      .ok (["main.go", "main_test.go"].map (join (ofParts ["ws"]))) :=
    sources_place hs hat hlinks
      (by simp [pairedFiles, isPlainSource, Entry.isDir, hmod, hmain, htest]) (by decide)
  have hread : (paired main test).read (ofParts (["ws"] ++ ["main.go"])) = .ok main :=
    hs.read_concat hat (by decide) (by decide) rfl
  have hreadTest : (paired main test).read (ofParts (["ws"] ++ ["main_test.go"])) = .ok test :=
    hs.read_concat hat (by decide) (by decide) rfl
  obtain ⟨hroot, hmodule, hdirectories⟩ := module_flat hs hat (by simp [pairedFiles, Entry.isDir]) hlinks
    rfl rfl (by simp [pairedFiles, isPlainSource, Entry.isDir, hmain])
  have hpath : ofParts ["ws"] = "/ws" := by decide
  have hjoin : ["main.go", "main_test.go"].map (join "/ws") = ["/ws/main.go", "/ws/main_test.go"] := by
    decide
  have hfile : ofParts (["ws"] ++ ["main.go"]) = "/ws/main.go" := by decide
  have hfileTest : ofParts (["ws"] ++ ["main_test.go"]) = "/ws/main_test.go" := by decide
  rw [hpath, hjoin] at hsources
  rw [hfile] at hread
  rw [hfileTest] at hreadTest
  exact ⟨hroot, hmodule, hdirectories, hsources, hread, hreadTest⟩

/-- The registry once the first file has been read. -/
def pairedRegistry (main : ByteArray) : Source.Registry :=
  (Source.Registry.add {} "/ws/main.go" main).2

/-- The package as it is loaded, given the trees of its files. -/
def pairedPackage (main test : ByteArray) (tree tree' : Syntax.Tree) : Package :=
  { solePackage main tree with
    testFiles := [soleFile "/ws/main_test.go" test tree' (pairedRegistry main)] }

def pairedWorkspace (main test : ByteArray) (tree tree' : Syntax.Tree) : Workspace :=
  { root := "/ws", module? := some { path := "m" }
    packages := [pairedPackage main test tree tree']
    registry := ((pairedRegistry main).add "/ws/main_test.go" test).2 }

theorem Paired.workspace {main test : ByteArray} (h : Paired s main test)
    {tree tree' : Syntax.Tree} (htree : Syntax.parse? main = some tree)
    (hname : tree.packageName main = "p") (himports : tree.imports main = [])
    (htree' : Syntax.parse? test = some tree') :
    ∃ log, Load.workspace s "/ws" true = (.ok (pairedWorkspace main test tree tree'), log) := by
  have hsecond : addFile { solePackage main tree with importPath := "" }
      (soleFile "/ws/main_test.go" test tree' (pairedRegistry main)) =
        { pairedPackage main test tree tree' with importPath := "" } := by
    have his : SourceFile.isTestPath "/ws/main_test.go" = true := by decide
    rw [addFile, if_pos (by simp [SourceFile.isTest, soleFile, his])]
    rfl
  have hpackage : package s "/ws" {} =
      (.ok { pairedPackage main test tree tree' with importPath := "" },
        ((pairedRegistry main).add "/ws/main_test.go" test).2) := by
    simp only [package, h.sources, addFiles, file_eq {} h.read htree, addFile_main hname himports]
    rw [show (Source.Registry.add {} "/ws/main.go" main).2 = pairedRegistry main from rfl,
      file_eq (pairedRegistry main) h.readTest htree']
    simp only [hsecond]
    rfl
  refine ⟨_, Prod.ext ?_ rfl⟩
  simp only [Load.workspace, h.root, workspaceAt, h.module?, h.directories, assemble, packages, hpackage]
  have hbelow : below? "/ws" "/ws" = some [] := by decide
  simp [withImportPaths, Workspace.importPathOf, hbelow, Except.toOption, pairedWorkspace,
    pairedPackage, solePackage]

end GoAtlas.Load
