import Mathlib.Data.List.Lex
import Mathlib.Data.String.Basic
import GoAtlas.Proofs.Files.Located
import GoAtlas.Proofs.Workspace.Failing

namespace GoAtlas

section

variable {α ε : Type} {test : α → Except ε Bool} {l kept : List α}

theorem ok_of_filterM (h : l.filterM test = .ok kept) : ∀ a ∈ l, ∃ b, test a = .ok b := by
  induction l generalizing kept with
  | nil => simp
  | cons a l ih =>
    rw [filterM_cons_eq] at h
    cases ha : test a with
    | error e =>
      rw [ha] at h
      cases h
    | ok b =>
      cases hl : l.filterM test with
      | error e =>
        rw [ha, hl] at h
        cases h
      | ok r => exact List.forall_mem_cons.mpr ⟨⟨b, ha⟩, ih hl⟩

theorem error_of_filterM {err : ε} (h : l.filterM test = .error err) :
    ∃ a ∈ l, test a = .error err := by
  induction l with
  | nil => cases h
  | cons a l ih =>
    rw [filterM_cons_eq] at h
    cases ha : test a with
    | error e =>
      rw [ha] at h
      cases h
      exact ⟨a, List.mem_cons_self, ha⟩
    | ok b =>
      cases hl : l.filterM test with
      | ok r =>
        rw [ha, hl] at h
        cases h
      | error e =>
        rw [ha, hl] at h
        cases h
        obtain ⟨c, hc, htest⟩ := ih hl
        exact ⟨c, List.mem_cons_of_mem a hc, htest⟩

end

theorem Path.parts_foldl {way : List String} (root : String) (h : ∀ n ∈ way, IsPart n) :
    parts (way.foldl join root) = parts root ++ way := by
  induction way generalizing root with
  | nil => rw [List.foldl_nil, List.append_nil]
  | cons name way ih =>
    have hname := h name List.mem_cons_self
    rw [List.foldl_cons, ih _ fun n hn => h n (List.mem_cons_of_mem name hn),
      parts_join (not_isAbsolute_of_isPart hname), parts_of_isPart hname, List.append_assoc,
      List.singleton_append]

namespace Files

mutual
theorem Entry.by_entries {motive : Entry → Prop} (file : ∀ content, motive (.file content))
    (link : ∀ target, motive (.link target))
    (dir : ∀ entries, (∀ x ∈ entries, motive x.2) → motive (.dir entries)) : ∀ e, motive e
  | .file content => file content
  | .link target => link target
  | .dir entries => dir entries (Entry.by_entries_all file link dir entries)

theorem Entry.by_entries_all {motive : Entry → Prop} (file : ∀ content, motive (.file content))
    (link : ∀ target, motive (.link target))
    (dir : ∀ entries, (∀ x ∈ entries, motive x.2) → motive (.dir entries)) :
    ∀ entries : List (String × Entry), ∀ x ∈ entries, motive x.2
  | [], x, hx => by cases hx
  | (name, e) :: more, x, hx => by
    rcases List.mem_cons.mp hx with rfl | hx
    · exact Entry.by_entries file link dir e
    · exact Entry.by_entries_all file link dir more x hx
end

end Files

namespace Discovery

open Files GoAtlas.Path

variable {s : Store} {root d : String} {place way : List String} {e : Entry}
  {entries es : List (String × Entry)} {ignored : List String → Bool}

theorem isSkipped_eq_false_iff {name : String} :
    isSkipped name = false ↔ ¬".".toList <+: name.toList ∧ name ≠ "vendor" := by
  rw [isSkipped, Bool.or_eq_false_iff, Text.beginsWith, Bool.eq_false_iff, Ne,
    List.isPrefixOf_iff_prefix, decide_eq_false_iff_not]

/-- Names that lead down an entry to a directory by directories that are entered. -/
structure Enters (e : Entry) (way : List String) (entries : List (String × Entry)) : Prop where
  dir : e.at? way = some (.dir entries)
  entered : ∀ name ∈ way, ¬".".toList <+: name.toList ∧ name ≠ "vendor"

theorem Enters.isDir (h : Enters e way es) : e.isDir := by
  have hdir := h.dir
  cases e with
  | dir entries => rfl
  | file content => cases way <;> cases hdir
  | link target => cases way <;> cases hdir

theorem enters_dir_iff (h : (Entry.dir entries).Proper) : Enters (.dir entries) way es ↔
    (way = [] ∧ es = entries) ∨ ∃ x ∈ entries, ∃ more, way = x.1 :: more ∧
      isSkipped x.1 = false ∧ Enters x.2 more es := by
  constructor
  · rintro ⟨hdir, hentered⟩
    cases way with
    | nil =>
      cases hdir
      exact .inl ⟨rfl, rfl⟩
    | cons name more =>
      obtain ⟨f, hf, hmore⟩ := Option.bind_eq_some_iff.mp hdir
      obtain ⟨hname, hentered⟩ := List.forall_mem_cons.mp hentered
      exact .inr ⟨(name, f), Dict.mem_of_lookup hf, more, rfl, isSkipped_eq_false_iff.mpr hname,
        hmore, hentered⟩
  · rintro (⟨rfl, rfl⟩ | ⟨x, hx, more, rfl, hname, hdir, hentered⟩)
    · exact ⟨rfl, by simp⟩
    · refine ⟨?_, List.forall_mem_cons.mpr ⟨isSkipped_eq_false_iff.mp hname, hentered⟩⟩
      rw [Entry.at?, Entry.child?, h.lookup_of_mem hx, Option.bind_some, hdir]

theorem mem_directoriesIn_iff {x : String × List String} :
    x ∈ directoriesIn (fun _ => false) root way entries ↔ ∃ y ∈ entries, y.2.isDir ∧
      isSkipped y.1 = false ∧ x = (y.1, directories (fun _ => false) root (way ++ [y.1]) y.2) := by
  induction entries with
  | nil => simp [directoriesIn]
  | cons y entries ih =>
    obtain ⟨name, e⟩ := y
    rw [directoriesIn, List.mem_append, ih, List.exists_mem_cons_iff]
    apply or_congr_left
    split
    · next h =>
      simp only [Bool.and_eq_true, Bool.not_eq_true'] at h
      simp [h]
    · next h =>
      simp only [Bool.not_false, Bool.and_true, Bool.and_eq_true, Bool.not_eq_true'] at h
      simp [← and_assoc, h]

theorem mem_directories_iff (root : String) (h : e.Proper) (way : List String) :
    d ∈ directories (fun _ => false) root way e ↔
      ∃ more es, Enters e more es ∧ d = (way ++ more).foldl join root := by
  induction e using Entry.by_entries generalizing way with
  | file content =>
    simp only [directories, List.not_mem_nil, false_iff]
    rintro ⟨more, es, henters, -⟩
    cases henters.isDir
  | link target =>
    simp only [directories, List.not_mem_nil, false_iff]
    rintro ⟨more, es, henters, -⟩
    cases henters.isDir
  | dir entries ih =>
    have ih {x : String × Entry} (hx : x ∈ entries) := ih x hx (h.2.of_mem hx).2
    rw [directories, List.mem_cons, List.mem_flatMap]
    constructor
    · rintro (rfl | ⟨x, hx, hd⟩)
      · exact ⟨[], entries, (enters_dir_iff h).mpr (.inl ⟨rfl, rfl⟩), by rw [List.append_nil]⟩
      · obtain ⟨y, hy, -, hname, rfl⟩ := mem_directoriesIn_iff.mp (List.mem_mergeSort.mp hx)
        obtain ⟨more, es, henters, rfl⟩ := (ih hy _).mp hd
        exact ⟨y.1 :: more, es, (enters_dir_iff h).mpr (.inr ⟨y, hy, more, rfl, hname, henters⟩),
          by rw [List.append_assoc, List.singleton_append]⟩
    · rintro ⟨way', es, henters, rfl⟩
      rcases (enters_dir_iff h).mp henters with ⟨rfl, -⟩ | ⟨y, hy, more, rfl, hname, henters⟩
      · left
        rw [List.append_nil]
      · right
        refine ⟨_, List.mem_mergeSort.mpr (mem_directoriesIn_iff.mpr
          ⟨y, hy, henters.isDir, hname, rfl⟩), (ih hy _).mpr ⟨more, es, henters, ?_⟩⟩
        rw [List.append_assoc, List.singleton_append]

theorem names_directoriesIn (root : String) (way : List String) (entries : List (String × Entry)) :
    ((directoriesIn ignored root way entries).map (·.1)).Sublist (entries.map (·.1)) := by
  induction entries with
  | nil => exact .slnil
  | cons x entries ih =>
    rw [directoriesIn, List.map_append, List.map_cons]
    split
    · exact ih.cons_cons x.1
    · exact ih.cons x.1

theorem pairwise_directoriesIn (h : (Entry.dir entries).Proper) :
    ((directoriesIn ignored root way entries).mergeSort fun a b =>
      decide (a.1 ≤ b.1)).Pairwise fun a b => a.1 < b.1 := by
  have hsorted : ((directoriesIn ignored root way entries).mergeSort fun a b =>
      decide (a.1 ≤ b.1)).Pairwise fun a b => decide (a.1 ≤ b.1) = true := by
    apply List.pairwise_mergeSort
    · intro a b c hab hbc
      exact decide_eq_true (le_trans (of_decide_eq_true hab) (of_decide_eq_true hbc))
    · intro a b
      simpa using le_total a.1 b.1
  have hnodup := ((List.mergeSort_perm (directoriesIn ignored root way entries)
    fun a b => decide (a.1 ≤ b.1)).map (·.1)).nodup_iff.mpr
      ((names_directoriesIn root way entries).nodup h.1)
  apply hsorted.imp₂ _ (List.pairwise_map.mp hnodup)
  intro a b hle hne
  exact lt_of_le_of_ne (of_decide_eq_true hle) hne

theorem pairwise_directories (root : String) (h : e.Proper) (hway : ∀ n ∈ way, IsPart n) :
    (directories (fun _ => false) root way e).Pairwise fun a b => parts a < parts b := by
  induction e using Entry.by_entries generalizing way with
  | file content => simp [directories]
  | link target => simp [directories]
  | dir entries ih =>
    -- what is below an entry has the parts of the directory, then the name of the entry
    have hbelow : ∀ x ∈ (directoriesIn (fun _ => false) root way entries).mergeSort
        (fun a b => decide (a.1 ≤ b.1)), ∀ d ∈ x.2, ∃ more,
        parts d = parts root ++ way ++ x.1 :: more := by
      intro x hx d hd
      obtain ⟨y, hy, -, -, rfl⟩ := mem_directoriesIn_iff.mp (List.mem_mergeSort.mp hx)
      obtain ⟨hname, hproper⟩ := h.2.of_mem hy
      obtain ⟨more, es, henters, rfl⟩ := (mem_directories_iff root hproper _).mp hd
      have hmore := Entry.Proper.isPart hproper henters.dir
      refine ⟨more, ?_⟩
      rw [parts_foldl root (by simpa [or_imp, forall_and] using ⟨hway, hname, hmore⟩)]
      simp
    rw [directories, List.pairwise_cons, List.pairwise_flatMap]
    refine ⟨fun d hd => ?_, fun x hx => ?_, ?_⟩
    · obtain ⟨x, hx, hd⟩ := List.mem_flatMap.mp hd
      obtain ⟨more, hparts⟩ := hbelow x hx d hd
      have hlt : parts root ++ way ++ [] < parts root ++ way ++ x.1 :: more :=
        List.append_left_lt (List.nil_lt_cons x.1 more)
      rw [hparts, parts_foldl root hway]
      rwa [List.append_nil] at hlt
    · obtain ⟨y, hy, -, -, rfl⟩ := mem_directoriesIn_iff.mp (List.mem_mergeSort.mp hx)
      obtain ⟨hname, hproper⟩ := h.2.of_mem hy
      exact ih y hy hproper (by simpa [or_imp, forall_and] using ⟨hway, hname⟩)
    · apply (pairwise_directoriesIn h).imp_of_mem
      intro x y hx hy hlt a ha b hb
      obtain ⟨more, hparts⟩ := hbelow x hx a ha
      obtain ⟨more', hparts'⟩ := hbelow y hy b hb
      rw [hparts, hparts']
      exact List.append_left_lt (List.cons_lt_cons_iff.mpr (.inl hlt))

/-- A directory holds a source: an entry that is named like one and is no directory, a link being
followed. -/
def HoldsSource (s : Store) (directory : String) (entries : List (String × Entry)) : Prop :=
  ∃ x ∈ entries, ".go".toList <:+ x.1.toList ∧ s.isDir (join directory x.1) = false

/-- A directory holds a link that is named like a source and cannot be followed, other than one to
nothing: it leads in a circle, by too many links or through what is no directory. -/
def Tangled (s : Store) (directory : String) (entries : List (String × Entry))
    (err : AccessError) : Prop :=
  ∃ name target, (name, Entry.link target) ∈ entries ∧ ".go".toList <:+ name.toList ∧
    s.locate (join directory name) = .error err ∧ err.fault ≠ .missing

theorem isSourceName_iff {name : String} :
    isSourceName name = true ↔ ".go".toList <:+ name.toList := by
  rw [isSourceName, Text.finishesWith, List.isSuffixOf_iff_suffix]

theorem anySource_of_ok {l : List (String × Entry)} {b : Bool} (h : anySource s d l = .ok b) :
    (b = true ∧ ∃ x ∈ l, isSource s d x.1 x.2 = .ok true) ∨
      (b = false ∧ ∀ x ∈ l, isSource s d x.1 x.2 = .ok false) := by
  induction l with
  | nil =>
    cases h
    exact .inr ⟨rfl, by simp⟩
  | cons x l ih =>
    rw [anySource] at h
    cases hx : isSource s d x.1 x.2 with
    | error err =>
      rw [hx] at h
      cases h
    | ok found =>
      rw [hx] at h
      cases found with
      | true =>
        cases h
        exact .inl ⟨rfl, x, List.mem_cons_self, hx⟩
      | false =>
        rcases ih h with ⟨hb, y, hy, hsource⟩ | ⟨hb, hnone⟩
        · exact .inl ⟨hb, y, List.mem_cons_of_mem x hy, hsource⟩
        · exact .inr ⟨hb, List.forall_mem_cons.mpr ⟨hx, hnone⟩⟩

theorem error_of_anySource {l : List (String × Entry)} {err : AccessError}
    (h : anySource s d l = .error err) : ∃ x ∈ l, isSource s d x.1 x.2 = .error err := by
  induction l with
  | nil => cases h
  | cons x l ih =>
    rw [anySource] at h
    cases hx : isSource s d x.1 x.2 with
    | error err' =>
      rw [hx] at h
      cases h
      exact ⟨x, List.mem_cons_self, hx⟩
    | ok found =>
      rw [hx] at h
      cases found with
      | true => cases h
      | false =>
        obtain ⟨y, hy, hsource⟩ := ih h
        exact ⟨y, List.mem_cons_of_mem x hy, hsource⟩

theorem tangled_of_isSource {x : String × Entry} (hx : x ∈ es) {err : AccessError}
    (h : isSource s d x.1 x.2 = .error err) : Tangled s d es err := by
  obtain ⟨name, e⟩ := x
  rw [isSource] at h
  split at h
  · next hname =>
    cases e with
    | file content => cases h
    | dir entries => cases h
    | link target =>
      rw [leadsToDir] at h
      cases hlocate : s.locate (join d name) with
      | ok found =>
        rw [hlocate] at h
        cases h
      | error err' =>
        simp only [hlocate] at h
        split at h
        · cases h
        · next hfault =>
          cases h
          exact ⟨name, target, hx, isSourceName_iff.mp hname, hlocate, hfault⟩
  · cases h

section

variable (hs : s.Sound) (hroot : s.locate root = .ok (place, .dir entries))
  (hway : Enters (.dir entries) way es)
include hs hroot hway

omit hs in
theorem at?_of_enters : s.root.at? (place ++ way) = some (.dir es) := by
  rw [Entry.at?_append, Store.at?_of_locate hroot, Option.bind_some, hway.dir]

theorem list_of_enters : s.list (way.foldl join root) = .ok es.reverse := by
  rw [Store.list, hs.locate_foldl hroot (at?_of_enters hroot hway) rfl]

theorem isDir_of_leadsToDir {x : String × Entry} (hx : x ∈ es) {b : Bool}
    (h : leadsToDir s (join (way.foldl join root) x.1) x.2 = .ok b) :
    s.isDir (join (way.foldl join root) x.1) = b := by
  have hlocate : x.2.isLink = false →
      s.locate (join (way.foldl join root) x.1) = .ok (place ++ (way ++ [x.1]), x.2) := by
    intro hlink
    have hat := at?_of_mem hs (at?_of_enters hroot hway) hx
    rw [List.append_assoc] at hat
    rw [← hs.locate_foldl hroot hat hlink, List.foldl_concat]
  rw [Store.isDir, Store.entry?]
  cases hentry : x.2 with
  | file content =>
    rw [hentry] at h hlocate
    rw [hlocate rfl]
    cases h
    rfl
  | dir below =>
    rw [hentry] at h hlocate
    rw [hlocate rfl]
    cases h
    rfl
  | link target =>
    rw [hentry, leadsToDir] at h
    cases hfound : s.locate (join (way.foldl join root) x.1) with
    | ok found =>
      rw [hfound] at h
      cases h
      rfl
    | error err =>
      simp only [hfound] at h
      split at h
      · cases h
        rfl
      · cases h

theorem isSource_of_ok {x : String × Entry} (hx : x ∈ es) {b : Bool}
    (h : isSource s (way.foldl join root) x.1 x.2 = .ok b) :
    b = true ↔ ".go".toList <:+ x.1.toList ∧ s.isDir (join (way.foldl join root) x.1) = false := by
  rw [← isSourceName_iff]
  rw [isSource] at h
  split at h
  · next hname =>
    cases hleads : leadsToDir s (join (way.foldl join root) x.1) x.2 with
    | error err =>
      rw [hleads] at h
      cases h
    | ok leads =>
      rw [hleads] at h
      cases h
      rw [isDir_of_leadsToDir hs hroot hway hx hleads]
      simp [hname]
  · next hname =>
    cases h
    simp [hname]

theorem hasSources_of_ok {b : Bool} (h : hasSources s (way.foldl join root) = .ok b) :
    b = true ↔ HoldsSource s (way.foldl join root) es := by
  rw [hasSources, list_of_enters hs hroot hway, Except.bind] at h
  split at h
  · next found hfound =>
    cases h
    rcases anySource_of_ok hfound with ⟨rfl, x, hx, hsource⟩ | ⟨rfl, hnone⟩
    · have hx := List.mem_reverse.mp hx
      simpa using ⟨x, hx, (isSource_of_ok hs hroot hway hx hsource).mp rfl⟩
    · simp only [Bool.false_eq_true, false_iff]
      rintro ⟨x, hx, hsource⟩
      have hfalse := hnone x (List.mem_reverse.mpr hx)
      cases (isSource_of_ok hs hroot hway hx hfalse).mpr hsource
  · cases h

theorem tangled_of_hasSources {f : Failure} (h : hasSources s (way.foldl join root) = .error f) :
    ∃ err, Tangled s (way.foldl join root) es err ∧ f = readFailure (way.foldl join root) err := by
  rw [hasSources, list_of_enters hs hroot hway, Except.bind] at h
  split at h
  · cases h
  · next err herr =>
    cases h
    obtain ⟨x, hx, hsource⟩ := error_of_anySource herr
    exact ⟨err, tangled_of_isSource (List.mem_reverse.mp hx) hsource, rfl⟩

theorem holdsSource_iff (hlinks : ∀ err, ¬Tangled s (way.foldl join root) es err) :
    HoldsSource s (way.foldl join root) es ↔
      ∃ paths, sources s (way.foldl join root) = .ok paths ∧ paths ≠ [] := by
  have htest : ∀ x ∈ es, ∃ b, isSource s (way.foldl join root) x.1 x.2 = .ok b := by
    intro x hx
    cases hsource : isSource s (way.foldl join root) x.1 x.2 with
    | ok b => exact ⟨b, rfl⟩
    | error err => exact (hlinks err (tangled_of_isSource hx hsource)).elim
  rw [sources, list_of_enters hs hroot hway]
  simp only [bind, Except.bind]
  cases hkept : es.reverse.filterM fun x => isSource s (way.foldl join root) x.1 x.2 with
  | error err =>
    obtain ⟨x, hx, hsource⟩ := error_of_filterM hkept
    exact (hlinks err (tangled_of_isSource (List.mem_reverse.mp hx) hsource)).elim
  | ok kept =>
    have hmem : HoldsSource s (way.foldl join root) es ↔ ∃ x, x ∈ kept := by
      simp only [mem_filterM_iff hkept, List.mem_reverse]
      apply exists_congr
      intro x
      apply and_congr_right
      intro hx
      obtain ⟨b, hb⟩ := htest x hx
      rw [← isSource_of_ok hs hroot hway hx hb, hb, Except.ok.injEq]
    simp [hmem, List.eq_nil_iff_forall_not_mem]

end

/-- The directories below a root with the given entries that are entered and hold a source, in the
order of the parts of their paths. -/
structure IsFound (s : Store) (root : String) (entries : List (String × Entry))
    (dirs : List String) : Prop where
  mem_iff : ∀ d, d ∈ dirs ↔
    ∃ way es, Enters (.dir entries) way es ∧ d = way.foldl join root ∧ HoldsSource s d es
  increasing : dirs.Pairwise fun a b => parts a < parts b

section

variable (hs : s.Sound) (hroot : s.locate root = .ok (place, .dir entries))
include hs hroot

theorem proper_of_locate : (Entry.dir entries).Proper :=
  Entry.Proper.at? hs.proper (Store.at?_of_locate hroot)

omit hs in
theorem packageDirs_eq : packageDirs s root false =
    ((directories (fun _ => false) root [] (.dir entries)).filterM (hasSources s)).mapError
      .failure := by
  have hrules : (fun way => isIgnored [] ("/".intercalate way)) = fun _ => false := rfl
  rw [packageDirs, if_neg Bool.false_ne_true, Except.bind, packageDirsBy, Store.entry?, hroot]
  simp only [Except.toOption, Option.map_some, hrules]
  cases (directories (fun _ => false) root [] (.dir entries)).filterM (hasSources s) <;> rfl

omit hs in
theorem filterM_of_packageDirs {dirs : List String} (h : packageDirs s root false = .ok dirs) :
    (directories (fun _ => false) root [] (.dir entries)).filterM (hasSources s) = .ok dirs := by
  rw [packageDirs_eq hroot] at h
  cases hfilter : (directories (fun _ => false) root [] (.dir entries)).filterM (hasSources s) with
  | error f =>
    rw [hfilter] at h
    cases h
  | ok kept =>
    rw [hfilter] at h
    cases h
    rfl

theorem mem_directories_root_iff : d ∈ directories (fun _ => false) root [] (.dir entries) ↔
    ∃ way es, Enters (.dir entries) way es ∧ d = way.foldl join root :=
  mem_directories_iff root (proper_of_locate hs hroot) []

theorem isFound_of_packageDirs {dirs : List String} (h : packageDirs s root false = .ok dirs) :
    IsFound s root entries dirs := by
  have hfilter := filterM_of_packageDirs hroot h
  constructor
  · intro d
    rw [mem_filterM_iff hfilter, mem_directories_root_iff hs hroot]
    constructor
    · rintro ⟨⟨way, es, hway, rfl⟩, hd⟩
      exact ⟨way, es, hway, rfl, (hasSources_of_ok hs hroot hway hd).mp rfl⟩
    · rintro ⟨way, es, hway, rfl, hholds⟩
      have hmem := (mem_directories_root_iff hs hroot).mpr ⟨way, es, hway, rfl⟩
      obtain ⟨b, hb⟩ := ok_of_filterM hfilter _ hmem
      obtain rfl := (hasSources_of_ok hs hroot hway hb).mpr hholds
      exact ⟨⟨way, es, hway, rfl⟩, hb⟩
  · have hall := pairwise_directories root (proper_of_locate hs hroot) (List.forall_mem_nil _)
    exact hall.sublist (sublist_of_filterM hfilter)

theorem tangled_of_packageDirs {o : Obstacle} (h : packageDirs s root false = .error o) :
    ∃ way es err, Enters (.dir entries) way es ∧ Tangled s (way.foldl join root) es err ∧
      o = .failure (readFailure (way.foldl join root) err) := by
  rw [packageDirs_eq hroot] at h
  cases hfilter : (directories (fun _ => false) root [] (.dir entries)).filterM (hasSources s) with
  | ok kept =>
    rw [hfilter] at h
    cases h
  | error f =>
    rw [hfilter] at h
    cases h
    obtain ⟨d, hd, hfails⟩ := error_of_filterM hfilter
    obtain ⟨way, es, hway, rfl⟩ := (mem_directories_root_iff hs hroot).mp hd
    obtain ⟨err, htangled, rfl⟩ := tangled_of_hasSources hs hroot hway hfails
    exact ⟨way, es, err, hway, htangled, rfl⟩

theorem not_tangled_of_sources
    (h : ∀ d ∈ directories (fun _ => false) root [] (.dir entries), (sources s d).isOk) :
    ∀ way es err, Enters (.dir entries) way es → ¬Tangled s (way.foldl join root) es err := by
  rintro way es err hway ⟨name, target, hmem, hname, hlocate, hfault⟩
  have hsource : isSource s (way.foldl join root) name (.link target) = .error err := by
    rw [isSource, if_pos (isSourceName_iff.mpr hname), leadsToDir, hlocate]
    simp only [if_neg hfault]
    rfl
  have hok := h _ ((mem_directories_root_iff hs hroot).mpr ⟨way, es, hway, rfl⟩)
  rw [sources, list_of_enters hs hroot hway] at hok
  simp only [bind, Except.bind] at hok
  cases hkept : es.reverse.filterM fun x => isSource s (way.foldl join root) x.1 x.2 with
  | error err' =>
    rw [hkept] at hok
    cases hok
  | ok kept =>
    obtain ⟨b, hb⟩ := ok_of_filterM hkept _ (List.mem_reverse.mpr hmem)
    rw [hsource] at hb
    cases hb

end

/-- Where no link is in the way, exactly the directories that are entered and hold a source are found,
which are those with source files. Otherwise they are found as well, or the failure is that to read a
directory with such a link. -/
theorem packageDirs_exact (hs : s.Sound) (hroot : s.locate root = .ok (place, .dir entries)) :
    ((∀ way es err, Enters (.dir entries) way es → ¬Tangled s (way.foldl join root) es err) →
      ∃ dirs, packageDirs s root false = .ok dirs ∧ IsFound s root entries dirs ∧
        ∀ d, d ∈ dirs ↔ ∃ way es, Enters (.dir entries) way es ∧ d = way.foldl join root ∧
          ∃ paths, sources s d = .ok paths ∧ paths ≠ []) ∧
    (∀ dirs, packageDirs s root false = .ok dirs → IsFound s root entries dirs) ∧
    ∀ o, packageDirs s root false = .error o → ∃ way es err, Enters (.dir entries) way es ∧
      Tangled s (way.foldl join root) es err ∧
      o = .failure (readFailure (way.foldl join root) err) := by
  refine ⟨fun hlinks => ?_, fun dirs => isFound_of_packageDirs hs hroot,
    fun o => tangled_of_packageDirs hs hroot⟩
  cases h : packageDirs s root false with
  | error o =>
    obtain ⟨way, es, err, hway, htangled, -⟩ := tangled_of_packageDirs hs hroot h
    exact (hlinks way es err hway htangled).elim
  | ok dirs =>
    have hfound := isFound_of_packageDirs hs hroot h
    refine ⟨dirs, rfl, hfound, fun d => ?_⟩
    rw [hfound.mem_iff]
    apply exists_congr
    intro way
    apply exists_congr
    intro es
    apply and_congr_right
    intro hway
    apply and_congr_right
    rintro rfl
    exact holdsSource_iff hs hroot hway fun err => hlinks way es err hway

/-- Directories beside links to a directory and to nothing, one of them named like a source, and others
that are not entered. -/
def thicketEntries : List (String × Entry) :=
  [("a-b", .dir [("x.go", .file .empty)]),
    ("a", .dir [("b", .dir [("y.go", .link "gone")]), ("b.go", .link "b")]),
    ("vendor", .dir [("v.go", .file .empty)]),
    (".a", .dir [("h.go", .file .empty)]),
    ("d.go", .dir [("vendor.go", .file .empty)]),
    ("l", .link "a-b")]

def thicket : Store where
  root := .dir [("ws", .dir thicketEntries)]

theorem directories_thicket : directories (fun _ => false) "/ws" [] (.dir thicketEntries) =
    ["/ws", "/ws/a", "/ws/a/b", "/ws/a-b", "/ws/d.go"] := by
  have hentered : isSkipped "a" = false ∧ isSkipped "b" = false ∧ isSkipped "a-b" = false ∧
      isSkipped "d.go" = false ∧ isSkipped "vendor" = true ∧ isSkipped ".a" = true := by
    decide
  have horder : ¬"a-b" ≤ "a" ∧ "a-b" ≤ "d.go" ∧ "a" ≤ "d.go" := by decide
  have hpaths : join "/ws" "a" = "/ws/a" ∧ join "/ws/a" "b" = "/ws/a/b" ∧
      join "/ws" "a-b" = "/ws/a-b" ∧ join "/ws" "d.go" = "/ws/d.go" := by
    decide
  simp [thicketEntries, directories, directoriesIn, Entry.isDir, List.mergeSort,
    List.MergeSort.Internal.splitInTwo, hentered, horder, hpaths]

theorem packageDirs_thicket :
    thicket.Sound ∧ thicket.locate "/ws" = .ok (["ws"], .dir thicketEntries) ∧
      (∀ way es err, Enters (.dir thicketEntries) way es →
        ¬Tangled thicket (way.foldl join "/ws") es err) ∧
      packageDirs thicket "/ws" false = .ok ["/ws/a/b", "/ws/a-b", "/ws/d.go"] ∧
      IsFound thicket "/ws" thicketEntries ["/ws/a/b", "/ws/a-b", "/ws/d.go"] := by
  have hs : thicket.Sound := Store.sound_of_isNeat (by decide +kernel)
  have hpath : ofParts ["ws"] = "/ws" := by decide
  have hroot : thicket.locate "/ws" = .ok (["ws"], .dir thicketEntries) := by
    rw [← hpath, hs.locate rfl]
  have hlinks := not_tangled_of_sources hs hroot (by rw [directories_thicket]; decide +kernel)
  obtain ⟨dirs, hdirs, hfound, -⟩ := (packageDirs_exact hs hroot).1 hlinks
  have hfilter : ["/ws", "/ws/a", "/ws/a/b", "/ws/a-b", "/ws/d.go"].filterM (hasSources thicket) =
      .ok ["/ws/a/b", "/ws/a-b", "/ws/d.go"] := by
    decide +kernel
  have hall := filterM_of_packageDirs hroot hdirs
  rw [directories_thicket, hfilter] at hall
  cases hall
  exact ⟨hs, hroot, hlinks, hdirs, hfound⟩

/-- A link named like a source that leads to itself. -/
def knotEntries : List (String × Entry) :=
  [("a.go", .link "a.go")]

def knot : Store where
  root := .dir [("ws", .dir knotEntries)]

/-- Such a link is no directory, and still the directory that holds it is not found. -/
theorem packageDirs_knot :
    knot.Sound ∧ knot.locate "/ws" = .ok (["ws"], .dir knotEntries) ∧
      Enters (.dir knotEntries) [] knotEntries ∧ HoldsSource knot "/ws" knotEntries ∧
      ∀ dirs, packageDirs knot "/ws" false ≠ .ok dirs := by
  have hs : knot.Sound := Store.sound_of_isNeat (by decide +kernel)
  have herror : packageDirs knot "/ws" false =
      .error (.failure (readFailure "/ws" ⟨.tooManyLinks, "/ws/a.go"⟩)) := by
    decide +kernel
  have hpath : ofParts ["ws"] = "/ws" := by decide
  have hroot : knot.locate "/ws" = .ok (["ws"], .dir knotEntries) := by
    rw [← hpath, hs.locate rfl]
  refine ⟨hs, hroot, ⟨rfl, by simp⟩, ⟨_, List.mem_singleton_self _, ?_, ?_⟩, ?_⟩
  · exact isSourceName_iff.mp (by decide)
  · decide +kernel
  · intro dirs h
    rw [herror] at h
    cases h

end Discovery

end GoAtlas
