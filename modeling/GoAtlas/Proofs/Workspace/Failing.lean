import GoAtlas.Proofs.Files.Passing
import GoAtlas.Proofs.Workspace.Relocation
import GoAtlas.Proofs.Workspace.Unseen

namespace GoAtlas

section

variable {α ε : Type} {test test' : α → Except ε Bool} {l kept : List α} {a : α}

theorem mem_filterM_iff (h : l.filterM test = .ok kept) :
    a ∈ kept ↔ a ∈ l ∧ test a = .ok true := by
  refine ⟨of_mem_filterM h, ?_⟩
  rintro ⟨hmem, htest⟩
  induction l generalizing kept with
  | nil => cases hmem
  | cons b l ih =>
    rw [filterM_cons_eq] at h
    cases hb : test b with
    | error e => simp [hb, Except.bind] at h
    | ok keep =>
      cases hl : l.filterM test with
      | error e => simp [hb, hl, Except.bind, Except.map] at h
      | ok rest =>
        simp only [hb, hl, Except.bind, Except.map, Except.ok.injEq] at h
        subst h
        rcases List.mem_cons.mp hmem with rfl | hmem
        · obtain rfl : keep = true := by simpa [hb] using htest
          simp
        · have hrest := ih hl hmem
          split <;> simp [hrest]

theorem filterM_dropping [DecidableEq α] (hother : ∀ b ∈ l, b ≠ a → test' b = test b)
    (hpass : test a = .ok true) (hfail : test' a = .ok false) :
    l.filterM test' = (l.filterM test).map (·.filter (· ≠ a)) := by
  induction l with
  | nil => rfl
  | cons b l ih =>
    rw [filterM_cons_eq, filterM_cons_eq, ih fun c hc => hother c (List.mem_cons_of_mem b hc)]
    by_cases hb : b = a
    · subst hb
      rw [hpass, hfail]
      cases l.filterM test <;> simp [Except.bind, Except.map]
    · rw [hother b List.mem_cons_self hb]
      cases test b with
      | error e => rfl
      | ok keep =>
        cases l.filterM test with
        | error e => rfl
        | ok rest => cases keep <;> simp [Except.bind, Except.map, hb]

end

namespace Files

open GoAtlas.Path

/-- Whether a place is that of one of some entries of a directory, or below. -/
def within (place : List String) (chosen : String → Bool) (way : List String) : Bool :=
  match afterPrefix? place way with
  | some (name :: _) => chosen name
  | _ => false

variable {place way : List String} {chosen : String → Bool} {name : String}

theorem within_iff : within place chosen way = true ↔
    ∃ name rest, way = place ++ name :: rest ∧ chosen name = true := by
  constructor
  · intro h
    unfold within at h
    split at h
    · next name rest hafter => exact ⟨name, rest, eq_append_of_afterPrefix? hafter, h⟩
    · cases h
  · rintro ⟨name, rest, rfl, hname⟩
    rw [within, afterPrefix?_append]
    exact hname

theorem closed_within (place : List String) (chosen : String → Bool) :
    Closed (within place chosen) := by
  intro way more h
  obtain ⟨name, rest, rfl, hname⟩ := within_iff.mp h
  exact within_iff.mpr ⟨name, rest ++ more, by simp, hname⟩

theorem within_concat_iff : within place chosen (way ++ [name]) = true ↔
    (way = place ∧ chosen name = true) ∨ within place chosen way = true := by
  constructor
  · intro h
    obtain ⟨first, rest, heq, hfirst⟩ := within_iff.mp h
    rcases List.eq_nil_or_concat rest with rfl | ⟨before, last, rfl⟩
    · obtain ⟨rfl, hname⟩ := List.append_inj' heq rfl
      cases hname
      exact .inl ⟨rfl, hfirst⟩
    · rw [List.concat_eq_append, ← List.cons_append, ← List.append_assoc] at heq
      exact .inr (within_iff.mpr ⟨first, before, (List.append_inj' heq rfl).1, hfirst⟩)
  · rintro (⟨rfl, hname⟩ | h)
    · exact within_iff.mpr ⟨name, [], rfl, hname⟩
    · exact closed_within place chosen way [name] h

end Files

namespace Discovery

open Files GoAtlas.Path

/-- The sources of a directory are removed, and of what else is named like a source links at most. -/
structure Strips (s : Store) (place : List String) (removed : String → Bool) : Prop where
  only : ∀ {name}, removed name = true → isSourceName name = true ∧
    ∀ entries, s.root.at? (place ++ [name]) ≠ some (.dir entries)
  all : ∀ {name e}, s.root.at? (place ++ [name]) = some e → isSourceName name = true →
    leadsToDir s (ofParts (place ++ [name])) e ≠ .ok true → removed name = true

variable {s : Store} {place ns way : List String} {removed : String → Bool}
  {entries found : List (String × Entry)} {respectIgnore : Bool} {dirs : List String}

/-- Whether a name is that of an entry named like a source and no directory itself. -/
def isStripped (entries : List (String × Entry)) (name : String) : Bool :=
  isSourceName name && (entries.lookup name).any (!·.isDir)

theorem strips_isStripped (hat : s.root.at? place = some (.dir entries)) :
    Strips s place (isStripped entries) where
  only {name} h := by
    rw [isStripped, Bool.and_eq_true] at h
    refine ⟨h.1, fun below hdir => ?_⟩
    rw [Entry.at?_concat hat] at hdir
    rw [hdir] at h
    cases h.2
  all {name e} he hname hdir := by
    rw [Entry.at?_concat hat] at he
    rw [isStripped, hname, he]
    cases e with
    | dir below => exact (hdir rfl).elim
    | file content => rfl
    | link target => rfl

/-- The directories with sources are directories of the store that hold them. -/
theorem dir_of_packageDirs (hs : s.Sound) (hat : s.root.at? ns = some (.dir entries))
    (h : packageDirs s (ofParts ns) respectIgnore = .ok dirs) {path : String} (hpath : path ∈ dirs) :
    ∃ place found, path = ofParts place ∧ s.root.at? place = some (.dir found) ∧
      hasSources s path = .ok true := by
  rw [packageDirs] at h
  cases hrules : (if respectIgnore then rulesOf s (ofParts ns) else .ok []) with
  | error o =>
    rw [hrules] at h
    cases h
  | ok rules =>
    rw [hrules, Except.bind, packageDirsBy_eq hs hat] at h
    cases hall : (directories (fun way => isIgnored rules ("/".intercalate way)) (ofParts ns) []
        (.dir entries)).filterM (hasSources s) with
    | error f =>
      rw [hall] at h
      cases h
    | ok kept =>
      rw [hall] at h
      cases h
      obtain ⟨hmem, hsources⟩ := of_mem_filterM hall hpath
      obtain ⟨place, found, rfl, hdir⟩ := dir_of_mem_directories hs hat hmem
      exact ⟨place, found, rfl, hdir, hsources⟩

/-- No directory is removed. -/
theorem Strips.unhidden (h : Strips s place removed) (hat : s.root.at? way = some (.dir entries)) :
    within place removed way = false := by
  cases hway : within place removed way with
  | false => rfl
  | true =>
    obtain ⟨name, rest, rfl, hname⟩ := within_iff.mp hway
    obtain ⟨entries', hdir⟩ := Entry.isDir_of_prefix hat rfl ⟨rest, (List.append_cons ..).symm⟩
    exact ((h.only hname).2 entries' hdir).elim

theorem Strips.unhidden_entry (h : Strips s place removed)
    (hat : s.root.at? way = some (.dir entries)) {name : String}
    (hother : way ≠ place ∨ isSourceName name = false) :
    within place removed (way ++ [name]) = false := by
  cases hname : within place removed (way ++ [name]) with
  | false => rfl
  | true =>
    rcases within_concat_iff.mp hname with ⟨rfl, hremoved⟩ | hway
    · have hsource := (h.only hremoved).1
      simp [hsource] at hother
    · rw [h.unhidden hat] at hway
      cases hway

theorem Strips.quiet (h : Strips s place removed) (hat : s.root.at? way = some (.dir entries))
    (hother : way ≠ place) : Quiet s (within place removed) way := by
  intro name e hhidden
  rw [h.unhidden_entry hat (.inl hother)] at hhidden
  cases hhidden

theorem Strips.quietRoot (h : Strips s place removed) (hat : s.root.at? ns = some (.dir entries)) :
    QuietRoot s (within place removed) ns := by
  intro name hname e hhidden
  have hother : isSourceName name = false := by
    simp only [List.mem_cons, List.not_mem_nil, or_false] at hname
    obtain rfl | rfl | rfl := hname <;> decide
  rw [h.unhidden_entry hat (.inr hother)] at hhidden
  cases hhidden

section

variable (hs : s.Sound) (h : Strips s place removed) (hlinks : s.LinksAvoid (within place removed))
include hs h hlinks

theorem hasSources_stripped (hat : s.root.at? place = some (.dir entries)) :
    hasSources (s.without (within place removed)) (ofParts place) = .ok false := by
  have hc := closed_within place removed
  have hnone : ∀ l : List (String × Entry), l ⊆ entries →
      anySource (s.without (within place removed)) (ofParts place)
        ((l.filter fun x => !within place removed (place ++ [x.1])).map fun x =>
          (x.1, x.2.without (within place removed) (place ++ [x.1]))) = .ok false := by
    intro l hl
    induction l with
    | nil => rfl
    | cons x l ih =>
      obtain ⟨hx, hl⟩ := List.cons_subset.mp hl
      cases hhidden : within place removed (place ++ [x.1]) with
      | true => rw [List.filter_cons_of_neg (by simp [hhidden]), ih hl]
      | false =>
        have hkept : isSource s (ofParts place) x.1 x.2 = .ok false := by
          rw [isSource, join_eq hs hat hx]
          split
          · next hname =>
            have hleads : leadsToDir s (ofParts (place ++ [x.1])) x.2 = .ok true := by
              by_contra hne
              have hremoved := h.all (at?_of_mem hs hat hx) hname hne
              rw [within_concat_iff.mpr (.inl ⟨rfl, hremoved⟩)] at hhidden
              cases hhidden
            rw [hleads]
            rfl
          · rfl
        rw [List.filter_cons_of_pos (by simp [hhidden]), List.map_cons, anySource,
          isSource_without hs hc hlinks hat hx hhidden, hkept]
        exact ih hl
  rw [hasSources, list_without hs hc hat (h.unhidden hat), Except.bind,
    hnone _ (List.reverse_subset.mpr (List.Subset.refl _))]

theorem packageDirs_stripped (hat : s.root.at? ns = some (.dir entries))
    (hplace : s.root.at? place = some (.dir found))
    (hsources : hasSources s (ofParts place) = .ok true) (respectIgnore : Bool) :
    packageDirs (s.without (within place removed)) (ofParts ns) respectIgnore =
      (packageDirs s (ofParts ns) respectIgnore).map (·.filter (· ≠ ofParts place)) := by
  have hc := closed_within place removed
  have hhere := h.unhidden hat
  rw [packageDirs, packageDirs, rulesOf_without hs hc hlinks hat hhere (h.quietRoot hat)]
  cases if respectIgnore then rulesOf s (ofParts ns) else .ok [] with
  | error o => rfl
  | ok rules =>
    rw [Except.bind, Except.bind, packageDirsBy_without hs hc hat hhere, packageDirsBy_eq hs hat]
    have hkept : (directories (fun way => isIgnored rules ("/".intercalate way)) (ofParts ns) []
        (.dir entries)).filter (fun p => !within place removed (parts p)) =
        directories (fun way => isIgnored rules ("/".intercalate way)) (ofParts ns) []
          (.dir entries) := by
      refine List.filter_eq_self.mpr fun path hpath => ?_
      obtain ⟨way, found, rfl, hdir⟩ := dir_of_mem_directories hs hat hpath
      rw [parts_ofParts (hs.bare hdir).isPart, h.unhidden hdir]
      rfl
    rw [hkept, filterM_dropping _ hsources (hasSources_stripped hs h hlinks hplace)]
    · cases (directories (fun way => isIgnored rules ("/".intercalate way)) (ofParts ns) []
        (.dir entries)).filterM (hasSources s) <;> rfl
    · intro path hpath hne
      obtain ⟨way, found, rfl, hdir⟩ := dir_of_mem_directories hs hat hpath
      have hother : way ≠ place := fun he => hne (by rw [he])
      exact hasSources_without hs hc hlinks hdir (h.quiet hdir hother) (h.unhidden hdir)

end

end Discovery

namespace Load

open Files GoAtlas.Path Discovery Source

section

variable (s : Store) (r r' : Registry)

theorem file_unplaced (path : String) :
    (file s path r).map (·.1.unplaced) = (file s path r').map (·.1.unplaced) := by
  rw [file, file]
  cases s.read path with
  | error e => rfl
  | ok content =>
    dsimp only
    cases Syntax.parse? content <;> rfl

theorem addFile_unplaced (p : Package) (f : SourceFile) :
    (addFile p f).unplaced = addFile p.unplaced f.unplaced := by
  have htest : f.unplaced.isTest = f.isTest := rfl
  rw [addFile, addFile, htest]
  split
  · simp [Package.unplaced]
  · simp [Package.unplaced]
    exact ⟨rfl, rfl⟩

variable {r r'}

theorem addFiles_unplaced {p q : Package} (paths : List String) (h : p.unplaced = q.unplaced) :
    (addFiles s paths p r).1.map (·.unplaced) = (addFiles s paths q r').1.map (·.unplaced) := by
  induction paths generalizing p q r r' with
  | nil => exact congrArg Except.ok h
  | cons path paths ih =>
    have hfile := file_unplaced s r r' path
    rw [addFiles, addFiles]
    cases hf : file s path r with
    | error e =>
      cases hg : file s path r' with
      | error e' =>
        rw [hf, hg] at hfile
        cases hfile
        rfl
      | ok found =>
        rw [hf, hg] at hfile
        cases hfile
    | ok found =>
      cases hg : file s path r' with
      | error e' =>
        rw [hf, hg] at hfile
        cases hfile
      | ok found' =>
        rw [hf, hg] at hfile
        have hunplaced : found.1.unplaced = found'.1.unplaced := Except.ok.inj hfile
        apply ih
        rw [addFile_unplaced, addFile_unplaced, h, hunplaced]

variable (r r')

theorem package_unplaced (directory : String) :
    (package s directory r).1.map (·.unplaced) = (package s directory r').1.map (·.unplaced) := by
  rw [package, package]
  cases sources s directory with
  | error e => rfl
  | ok paths =>
    have hfiles : (addFiles s paths { path := directory } r).1.map (·.unplaced) =
        (addFiles s paths { path := directory } r').1.map (·.unplaced) :=
      addFiles_unplaced s paths rfl
    dsimp only
    generalize addFiles s paths { path := directory } r = x at hfiles ⊢
    generalize addFiles s paths { path := directory } r' = y at hfiles ⊢
    obtain ⟨e | p, r₁⟩ := x <;> obtain ⟨e' | p', r₂⟩ := y
    · cases hfiles
      rfl
    · cases hfiles
    · cases hfiles
    · have hp : p.unplaced = p'.unplaced := Except.ok.inj hfiles
      have hempty : p.files.isEmpty = p'.files.isEmpty := by
        have hmap := congrArg (fun q : Package => q.files.isEmpty) hp
        simpa [Package.unplaced] using hmap
      simp only [hempty]
      split
      · rfl
      · exact hfiles

variable {r} in
/-- A package that fails does so whatever was registered before. -/
theorem package_of_error {directory : String} {e : Failure}
    (h : (package s directory r).1 = .error e) : (package s directory r').1 = .error e := by
  have hmap := package_unplaced s r r' directory
  rw [h] at hmap
  cases hx : (package s directory r').1 with
  | error e' =>
    rw [hx] at hmap
    cases hmap
    rfl
  | ok p =>
    rw [hx] at hmap
    cases hmap

theorem packages_unplaced (dirs : List String) :
    ((packages s dirs r).1.filterMap fun (_, x) => x.toOption).map (·.unplaced) =
      dirs.filterMap fun d => ((package s d r').1.map (·.unplaced)).toOption := by
  induction dirs generalizing r with
  | nil => rfl
  | cons d dirs ih =>
    rw [packages, List.filterMap_cons, List.filterMap_cons, ← package_unplaced s r r' d]
    cases (package s d r).1 with
    | error e => exact ih _
    | ok p => exact congrArg (p.unplaced :: ·) (ih _)

end

variable {s : Store} {place ns : List String} {removed : String → Bool} {root : String}
  {entries found : List (String × Entry)}

theorem withImportPaths_unplaced (ws : Workspace) :
    (withImportPaths ws).unplaced = withImportPaths ws.unplaced := by
  unfold withImportPaths
  have hmodule : ws.unplaced.module? = ws.module? := rfl
  rw [hmodule]
  split
  · simp only [Workspace.unplaced, List.map_map]
    congr 1
  · rfl

theorem assemble_unplaced (s : Store) (root : String) (module? : Option ModuleFile)
    (dirs : List String) :
    (assemble s root module? dirs).1.unplaced = withImportPaths
      { root, module?, packages :=
          dirs.filterMap fun d => ((package s d {}).1.map (·.unplaced)).toOption } := by
  rw [assemble, withImportPaths_unplaced, Workspace.unplaced, packages_unplaced s {} {} dirs]

section

variable (hs : s.Sound) (h : Strips s place removed) (hlinks : s.LinksAvoid (within place removed))
  (hat : s.root.at? ns = some (.dir entries)) (hplace : s.root.at? place = some (.dir found))
  (hsources : hasSources s (ofParts place) = .ok true)
  {r : Registry} {e : Failure} (hfail : (package s (ofParts place) r).1 = .error e)
include hs h hlinks hat hplace hsources hfail

/-- The workspace is the same, positions apart, without the sources of a package that fails. -/
theorem workspace_stripped (hroot : s.realPath root = ofParts ns)
    (hskirts : s.Skirts (within place removed) root) (respectIgnore : Bool) :
    (workspace (s.without (within place removed)) root respectIgnore).1.map (·.unplaced) =
      (workspace s root respectIgnore).1.map (·.unplaced) := by
  have hc := closed_within place removed
  have hhere := h.unhidden hat
  have hroot' : (s.without (within place removed)).realPath root = ofParts ns := by
    rw [Store.realPath_skirting hc (hc.root hhere) hs hskirts, hroot]
  have hresolve := (hs.without hc (hc.root hhere)).resolve (Store.dir_without hc hhere hat) hroot'
  rw [workspace, workspace, hs.resolve hat hroot, hresolve]
  dsimp only
  rw [workspaceAt, workspaceAt, moduleOf_without hs hc hlinks hat hhere (h.quietRoot hat)]
  cases moduleOf s (ofParts ns) with
  | error o => rfl
  | ok module? =>
    dsimp only
    rw [packageDirs_stripped hs h hlinks hat hplace hsources]
    cases hdirs : packageDirs s (ofParts ns) respectIgnore with
    | error o => rfl
    | ok dirs =>
      have hfailing : ((package s (ofParts place) {}).1.map (·.unplaced)).toOption = none := by
        rw [package_of_error s {} hfail]
        rfl
      have hothers : ∀ d ∈ dirs, d ≠ ofParts place →
          package (s.without (within place removed)) d {} = package s d {} := by
        intro d hd hne
        obtain ⟨way, found, rfl, hdir, -⟩ := dir_of_packageDirs hs hat hdirs hd
        have hother : way ≠ place := fun he => hne (by rw [he])
        exact package_without hs hc hlinks hdir (h.unhidden hdir) (h.quiet hdir hother) {}
      have hpackages : (dirs.filter (· ≠ ofParts place)).filterMap (fun d =>
          ((package (s.without (within place removed)) d {}).1.map (·.unplaced)).toOption) =
          dirs.filterMap fun d => ((package s d {}).1.map (·.unplaced)).toOption := by
        rw [List.filterMap_filter]
        refine List.filterMap_congr fun d hd => ?_
        by_cases hne : d = ofParts place
        · simp [hne, hfailing]
        · simp [hne, hothers d hd hne]
      have hunplaced := assemble_unplaced (s.without (within place removed)) (ofParts ns) module?
        (dirs.filter (· ≠ ofParts place))
      rw [hpackages, ← assemble_unplaced] at hunplaced
      exact congrArg Except.ok hunplaced

end

/-- A package holds the sources of a directory as they are read, tests and others apart. -/
structure Holding (s : Store) (place : List String) (p : Package) : Prop where
  path : p.path = ofParts place
  files : ∀ path, path ∈ (p.allFiles true).map (·.path) ↔ ∃ name e,
    path = ofParts (place ++ [name]) ∧ s.root.at? (place ++ [name]) = some e ∧
      isSource s (ofParts place) name e = .ok true
  read : ∀ f ∈ p.allFiles true, s.read f.path = .ok f.content ∧
    Syntax.parse? f.content = some f.tree
  tests : ∀ f ∈ p.testFiles, f.isTest
  others : ∀ f ∈ p.files, f.isTest = false

theorem mem_sources_iff (hs : s.Sound) (hat : s.root.at? place = some (.dir entries))
    {paths : List String} (h : sources s (ofParts place) = .ok paths) {path : String} :
    path ∈ paths ↔ ∃ name e, path = ofParts (place ++ [name]) ∧
      s.root.at? (place ++ [name]) = some e ∧ isSource s (ofParts place) name e = .ok true := by
  constructor
  · intro hpath
    obtain ⟨x, hx, hpath, hsource⟩ := mem_of_sources hs hat h hpath
    exact ⟨x.1, x.2, hpath, at?_of_mem hs hat hx, hsource⟩
  · rintro ⟨name, e, rfl, hentry, hsource⟩
    have hmem : (name, e) ∈ entries := by
      rw [Entry.at?_concat hat] at hentry
      exact Dict.mem_of_lookup hentry
    rw [sources, hs.list hat] at h
    simp only [bind, Except.bind] at h
    split at h
    · next kept hkept =>
      cases h
      have hkept := (mem_filterM_iff hkept).mpr ⟨List.mem_reverse.mpr hmem, hsource⟩
      rw [← join_eq hs hat hmem]
      exact List.mem_map_of_mem (List.mem_mergeSort.mpr (List.mem_map_of_mem hkept))
    · cases h

variable {r r' : Registry} {p p' : Package}

theorem read_of_file {path : String} {f : SourceFile} (h : file s path r = .ok (f, r')) :
    s.read f.path = .ok f.content := by
  unfold file at h
  split at h
  · cases h
  · next content hread =>
    split at h
    · cases h
    · cases h
      exact hread

theorem read_of_addFiles {paths : List String} (hp : ∀ f ∈ p.allFiles true, s.read f.path = .ok f.content)
    (h : addFiles s paths p r = (.ok p', r')) :
    ∀ f ∈ p'.allFiles true, s.read f.path = .ok f.content := by
  induction paths generalizing p r with
  | nil =>
    cases h
    exact hp
  | cons path paths ih =>
    rw [addFiles] at h
    split at h
    · next f r₁ hf =>
      refine ih (fun g hg => ?_) h
      rcases List.mem_append.mp ((allFiles_addFile p f).mem_iff.mp hg) with hg | hg
      · exact hp g hg
      · rw [List.mem_singleton.mp hg]
        exact read_of_file hf
    · cases h

theorem holding_of_package (hs : s.Sound) (hat : s.root.at? place = some (.dir entries))
    (h : package s (ofParts place) r = (.ok p, r')) : Holding s place p := by
  obtain ⟨hpath, -, paths, hsources, hholds⟩ := package_ok h
  refine ⟨hpath, fun path => ?_, fun f hf => ⟨?_, (hholds.registered f hf).parsed⟩, hholds.tests,
    hholds.others⟩
  · rw [hholds.paths.mem_iff]
    exact mem_sources_iff hs hat hsources
  · rw [package, hsources] at h
    dsimp only at h
    split at h
    · next p₁ r₁ hadd =>
      split at h
      · cases h
      · cases h
        exact read_of_addFiles (by simp [Package.allFiles]) hadd f hf
    · cases h

theorem result_of_mem_packages {dirs : List String} {d : String} {x : Except Failure Package}
    (h : (d, x) ∈ (packages s dirs r).1) : ∃ r', (package s d r').1 = x := by
  induction dirs generalizing r with
  | nil => cases h
  | cons d' dirs ih =>
    rw [packages] at h
    rcases List.mem_cons.mp h with heq | h
    · cases heq
      exact ⟨r, rfl⟩
    · exact ih h

section

variable {module? : Option ModuleFile} {dirs : List String}

/-- The packages that are put together are those that do not fail. -/
theorem package_of_assemble (h : p ∈ (assemble s root module? dirs).1.packages) :
    ∃ r q, (package s p.path r).1 = .ok q := by
  have hpath := List.mem_map_of_mem (f := (·.path)) h
  rw [(assemble_eq s root module? dirs).2.2.2] at hpath
  obtain ⟨q, hq, hpath⟩ := List.mem_map.mp hpath
  obtain ⟨⟨d, x⟩, hx, hq⟩ := List.mem_filterMap.mp hq
  cases x with
  | error e => cases hq
  | ok q' =>
    cases hq
    obtain ⟨r, hpackage⟩ := result_of_mem_packages hx
    have hd := ((packages_spec dirs {}).2.2 d q hx).1
    exact ⟨r, q, by rw [← hpath, hd, hpackage]⟩

theorem mem_assemble {d : String} (h : (d, .ok p) ∈ (packages s dirs {}).1) :
    ∃ importPath, { p with importPath } ∈ (assemble s root module? dirs).1.packages := by
  have hp : p ∈ (packages s dirs {}).1.filterMap fun (_, x) => x.toOption :=
    List.mem_filterMap.mpr ⟨_, h, rfl⟩
  simp only [assemble]
  unfold withImportPaths
  split
  · exact ⟨_, List.mem_map_of_mem hp⟩
  · exact ⟨p.importPath, hp⟩

theorem holding_of_assemble (hs : s.Sound) (hat : s.root.at? place = some (.dir entries))
    (hmem : ofParts place ∈ dirs) (h : (package s (ofParts place) r).1 = .ok p) :
    ∃ q ∈ (assemble s root module? dirs).1.packages, Holding s place q := by
  have hd := hmem
  rw [← (packages_spec (s := s) dirs {}).1] at hd
  obtain ⟨⟨d, x⟩, hx, hd⟩ := List.mem_map.mp hd
  subst hd
  obtain ⟨r', hpackage⟩ := result_of_mem_packages hx
  cases x with
  | error e =>
    rw [package_of_error s r hpackage] at h
    cases h
  | ok q =>
    have hassembled : ∃ importPath,
        { q with importPath } ∈ (assemble s root module? dirs).1.packages := mem_assemble hx
    obtain ⟨importPath, hq⟩ := hassembled
    have hholding := holding_of_package hs hat (Prod.ext hpackage rfl)
    exact ⟨_, hq, { hholding with }⟩

end

end Load

end GoAtlas
