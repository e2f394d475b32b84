import GoAtlas.Proofs.Files.Hiding
import GoAtlas.Proofs.Workspace.Loading
import GoAtlas.Config.Settings

namespace GoAtlas

section

variable {α β ε : Type} {test : α → Except ε Bool} {test' : β → Except ε Bool} {g : α → β}
  {keep : α → Bool} {l kept : List α}

theorem filterM_filter_map (hdrop : ∀ a ∈ l, keep a = false → test a = .ok false)
    (hkeep : ∀ a ∈ l, keep a = true → test' (g a) = test a) :
    ((l.filter keep).map g).filterM test' = (l.filterM test).map (·.map g) := by
  induction l with
  | nil => rfl
  | cons a l ih =>
    have ih := ih (fun b hb => hdrop b (List.mem_cons_of_mem a hb))
      fun b hb => hkeep b (List.mem_cons_of_mem a hb)
    rw [filterM_cons_eq]
    cases ha : keep a with
    | false =>
      rw [List.filter_cons_of_neg (by simp [ha]), ih, hdrop a List.mem_cons_self ha]
      cases l.filterM test <;> rfl
    | true =>
      rw [List.filter_cons_of_pos ha, List.map_cons, filterM_cons_eq, ih,
        hkeep a List.mem_cons_self ha]
      cases test a with
      | error e => rfl
      | ok b =>
        cases l.filterM test with
        | error e => rfl
        | ok r => cases b <;> rfl

theorem filterM_filter {test' : α → Except ε Bool}
    (hdrop : ∀ a ∈ l, keep a = false → test a = .ok false)
    (hkeep : ∀ a ∈ l, keep a = true → test' a = test a) :
    (l.filter keep).filterM test' = l.filterM test := by
  have h := filterM_filter_map (g := id) hdrop hkeep
  rw [List.map_id] at h
  rw [h]
  cases l.filterM test <;> simp [Except.map]

end

namespace Discovery

open Files GoAtlas.Path

variable {s : Store} {hidden : List String → Bool} {place ns : List String}
  {entries : List (String × Entry)} {name : String} {e : Entry} {ignored : List String → Bool}

def Quiet (s : Store) (hidden : List String → Bool) (place : List String) : Prop :=
  ∀ name e, hidden (place ++ [name]) = true → isSourceName name →
    s.root.at? (place ++ [name]) = some e → e.isDir

section

variable (hs : s.Sound) (hc : Closed hidden) (hlinks : s.LinksAvoid hidden)
  (hat : s.root.at? place = some (.dir entries))
include hs hat

theorem at?_of_mem {x : String × Entry} (hx : x ∈ entries) :
    s.root.at? (place ++ [x.1]) = some x.2 :=
  (Entry.at?_concat hat x.1).trans (Entry.Proper.lookup_of_mem (Entry.Proper.at? hs.proper hat) hx)

theorem join_eq {x : String × Entry} (hx : x ∈ entries) :
    join (ofParts place) x.1 = ofParts (place ++ [x.1]) := by
  have hparts := Entry.Proper.isPart hs.proper (at?_of_mem hs hat hx)
  rw [List.forall_mem_append] at hparts
  exact join_ofParts (hparts.2 x.1 (List.mem_singleton_self _)) hparts.1

include hc

/-- The entries of a directory without those that are hidden. -/
theorem list_without (hhere : hidden place = false) :
    (s.without hidden).list (ofParts place) =
      .ok ((entries.reverse.filter fun x => !hidden (place ++ [x.1])).map fun x =>
        (x.1, x.2.without hidden (place ++ [x.1]))) := by
  have hbare := (hs.bare hat).without hc hhere
  rw [Store.list, hbare.locate (Store.dir_without hc hhere hat), Entry.withoutIn_eq]
  simp only [List.filter_reverse, List.map_reverse]

include hlinks

theorem leadsToDir_without {x : String × Entry} (hx : x ∈ entries)
    (hhere : hidden (place ++ [x.1]) = false) :
    leadsToDir (s.without hidden) (ofParts (place ++ [x.1])) (x.2.without hidden (place ++ [x.1])) =
      leadsToDir s (ofParts (place ++ [x.1])) x.2 := by
  obtain ⟨name, e⟩ := x
  have hentry := at?_of_mem hs hat hx
  cases e with
  | file content => rfl
  | dir entries => rfl
  | link target =>
    rw [Entry.without, leadsToDir, leadsToDir, Store.locate_without hc hlinks
      (Entry.Proper.isPart hs.proper hentry) (hs.down hentry) hat hhere]
    cases s.locate (ofParts (place ++ [name])) with
    | error e => rfl
    | ok found =>
      obtain ⟨way, e⟩ := found
      exact congrArg Except.ok (Entry.isDir_without e)

theorem isSource_without {x : String × Entry} (hx : x ∈ entries)
    (hhere : hidden (place ++ [x.1]) = false) :
    isSource (s.without hidden) (ofParts place) x.1 (x.2.without hidden (place ++ [x.1])) =
      isSource s (ofParts place) x.1 x.2 := by
  rw [isSource, isSource, join_eq hs hat hx, leadsToDir_without hs hc hlinks hat hx hhere]

variable (hquiet : Quiet s hidden place)
include hquiet

omit hlinks hc in
theorem isSource_of_hidden {x : String × Entry} (hx : x ∈ entries)
    (hhidden : hidden (place ++ [x.1]) = true) :
    isSource s (ofParts place) x.1 x.2 = .ok false := by
  rw [isSource]
  split
  · next hname =>
    have hdir := hquiet x.1 x.2 hhidden hname (at?_of_mem hs hat hx)
    cases he : x.2 with
    | dir entries => rfl
    | file content =>
      rw [he] at hdir
      cases hdir
    | link target =>
      rw [he] at hdir
      cases hdir
  · rfl

theorem anySource_without {l : List (String × Entry)} (hl : l ⊆ entries) :
    anySource (s.without hidden) (ofParts place)
        ((l.filter fun x => !hidden (place ++ [x.1])).map fun x =>
          (x.1, x.2.without hidden (place ++ [x.1]))) =
      anySource s (ofParts place) l := by
  induction l with
  | nil => rfl
  | cons x l ih =>
    obtain ⟨hx, hl⟩ := List.cons_subset.mp hl
    have ih := ih hl
    rw [anySource]
    cases hh : hidden (place ++ [x.1]) with
    | true =>
      rw [List.filter_cons_of_neg (by simp [hh]), ih, isSource_of_hidden hs hat hquiet hx hh]
      rfl
    | false =>
      rw [List.filter_cons_of_pos (by simp [hh]), List.map_cons, anySource, ih,
        isSource_without hs hc hlinks hat hx hh]

variable (hhere : hidden place = false)
include hhere

theorem hasSources_without :
    hasSources (s.without hidden) (ofParts place) = hasSources s (ofParts place) := by
  rw [hasSources, hasSources, list_without hs hc hat hhere, hs.list hat, Except.bind, Except.bind,
    anySource_without hs hc hlinks hat hquiet (List.reverse_subset.mpr (List.Subset.refl _))]

theorem sources_without :
    sources (s.without hidden) (ofParts place) = sources s (ofParts place) := by
  have hfilter :
      ((entries.reverse.filter fun x => !hidden (place ++ [x.1])).map
        fun x => (x.1, x.2.without hidden (place ++ [x.1]))).filterM
          (fun x => isSource (s.without hidden) (ofParts place) x.1 x.2) =
        (entries.reverse.filterM fun x => isSource s (ofParts place) x.1 x.2).map
          (·.map fun x => (x.1, x.2.without hidden (place ++ [x.1]))) := by
    apply filterM_filter_map
    · intro x hx hh
      exact isSource_of_hidden hs hat hquiet (List.mem_reverse.mp hx) (by simpa using hh)
    · intro x hx hh
      exact isSource_without hs hc hlinks hat (List.mem_reverse.mp hx) (by simpa using hh)
  simp only [sources, list_without hs hc hat hhere, hs.list hat, bind, Except.bind]
  rw [hfilter]
  cases entries.reverse.filterM fun x => isSource s (ofParts place) x.1 x.2 with
  | error e => rfl
  | ok l => simp only [Except.map, List.map_map, Function.comp_def]

omit hlinks hc hhere hquiet in
theorem mem_of_sources {paths : List String} (h : sources s (ofParts place) = .ok paths)
    {path : String} (hpath : path ∈ paths) : ∃ x ∈ entries, path = ofParts (place ++ [x.1]) ∧
      isSource s (ofParts place) x.1 x.2 = .ok true := by
  rw [sources, hs.list hat] at h
  simp only [bind, Except.bind] at h
  split at h
  · next l hl =>
    cases h
    obtain ⟨name, hname, rfl⟩ := List.mem_map.mp hpath
    rw [List.mem_mergeSort] at hname
    obtain ⟨x, hx, rfl⟩ := List.mem_map.mp hname
    obtain ⟨hmem, hsource⟩ := of_mem_filterM hl hx
    have hmem := List.mem_reverse.mp hmem
    exact ⟨x, hmem, join_eq hs hat hmem, hsource⟩
  · cases h

omit hhere in
theorem read_source_without {paths : List String} (h : sources s (ofParts place) = .ok paths)
    {path : String} (hpath : path ∈ paths) : (s.without hidden).read path = s.read path := by
  obtain ⟨x, hx, rfl, hsource⟩ := mem_of_sources hs hat h hpath
  have hentry := at?_of_mem hs hat hx
  apply Store.read_without hc hlinks (Entry.Proper.isPart hs.proper hentry) (hs.down hentry) hat
  cases hh : hidden (place ++ [x.1]) with
  | false => rfl
  | true =>
    rw [isSource_of_hidden hs hat hquiet hx hh] at hsource
    cases hsource

end

mutual
theorem at?_of_mem_directories (root : String) : (way : List String) → (e : Entry) → e.Proper →
    ∀ path ∈ directories ignored root way e, ∃ more entries,
      path = (way ++ more).foldl join root ∧ e.at? more = some (.dir entries)
  | _, .file _, _ => by simp [directories]
  | _, .link _, _ => by simp [directories]
  | way, .dir entries, h => by
    intro path hpath
    rw [directories] at hpath
    rcases List.mem_cons.mp hpath with rfl | hpath
    · exact ⟨[], entries, by rw [List.append_nil], rfl⟩
    · obtain ⟨x, hx, hpath⟩ := List.mem_flatMap.mp hpath
      obtain ⟨e, more, found, hmem, rfl, hat⟩ :=
        at?_of_mem_directoriesIn root way entries h.2 x (List.mem_mergeSort.mp hx) path hpath
      have hl : entries.lookup x.1 = some e := h.lookup_of_mem hmem
      exact ⟨x.1 :: more, found, by simp, by simp [Entry.at?, Entry.child?, hl, hat]⟩

theorem at?_of_mem_directoriesIn (root : String) : (way : List String) →
    (entries : List (String × Entry)) → Entry.ProperAll entries →
    ∀ x ∈ directoriesIn ignored root way entries, ∀ path ∈ x.2, ∃ e more found,
      (x.1, e) ∈ entries ∧ path = (way ++ [x.1] ++ more).foldl join root ∧
        e.at? more = some (.dir found)
  | _, [], _ => by simp [directoriesIn]
  | way, (name, e) :: rest, h => by
    intro x hx path hpath
    rw [directoriesIn] at hx
    rcases List.mem_append.mp hx with hx | hx
    · split at hx
      · rw [List.mem_singleton.mp hx] at hpath ⊢
        obtain ⟨more, found, rfl, hat⟩ := at?_of_mem_directories root (way ++ [name]) e h.2.1 path hpath
        exact ⟨e, more, found, List.mem_cons_self, rfl, hat⟩
      · cases hx
    · obtain ⟨f, more, found, hmem, hp, hat⟩ :=
        at?_of_mem_directoriesIn root way rest h.2.2 x hx path hpath
      exact ⟨f, more, found, List.mem_cons_of_mem _ hmem, hp, hat⟩
end

/-- The directories below a root are those of the store. -/
theorem dir_of_mem_directories (hs : s.Sound) (hat : s.root.at? ns = some (.dir entries))
    {path : String} (hpath : path ∈ directories ignored (ofParts ns) [] (.dir entries)) :
    ∃ place found, path = ofParts place ∧ s.root.at? place = some (.dir found) := by
  have hproper := Entry.Proper.at? hs.proper hat
  obtain ⟨more, found, rfl, hmore⟩ := at?_of_mem_directories _ [] _ hproper path hpath
  refine ⟨ns ++ more, found, ?_, by rw [Entry.at?_append, hat, Option.bind_some, hmore]⟩
  exact foldl_join_ofParts (Entry.Proper.isPart hs.proper hat) (Entry.Proper.isPart hproper hmore)

theorem mergeSort_filter {l : List (String × List String)} (hnodup : (l.map (·.1)).Nodup)
    (keep : String × List String → Bool) :
    (l.filter keep).mergeSort (fun a b => decide (a.1 ≤ b.1)) =
      (l.mergeSort fun a b => decide (a.1 ≤ b.1)).filter keep := by
  have htrans : ∀ a b c : String × List String, decide (a.1 ≤ b.1) = true →
      decide (b.1 ≤ c.1) = true → decide (a.1 ≤ c.1) = true := by
    simp only [decide_eq_true_eq]
    exact fun a b c => String.le_trans
  have htotal : ∀ a b : String × List String,
      (decide (a.1 ≤ b.1) || decide (b.1 ≤ a.1)) = true := by
    simp only [Bool.or_eq_true, decide_eq_true_eq]
    exact fun a b => String.le_total a.1 b.1
  have hperm := List.mergeSort_perm (l.filter keep) fun a b => decide (a.1 ≤ b.1)
  have hperm' := (List.mergeSort_perm l fun a b => decide (a.1 ≤ b.1)).filter keep
  apply (hperm.trans hperm'.symm).eq_of_pairwise _ (List.pairwise_mergeSort htrans htotal _)
    ((List.pairwise_mergeSort htrans htotal _).filter keep)
  intro a b ha hb hab hba
  apply List.inj_on_of_nodup_map hnodup
  · exact (List.mem_filter.mp (hperm.mem_iff.mp ha)).1
  · exact (List.mem_filter.mp (hperm'.mem_iff.mp hb)).1
  · exact String.le_antisymm (of_decide_eq_true hab) (of_decide_eq_true hba)

theorem flatMap_filter_of_nil {α β : Type} {l : List α} {keep : α → Bool} {f : α → List β}
    (h : ∀ a ∈ l, keep a = false → f a = []) : (l.filter keep).flatMap f = l.flatMap f := by
  induction l with
  | nil => rfl
  | cons a l ih =>
    have ih := ih fun b hb => h b (List.mem_cons_of_mem a hb)
    cases ha : keep a with
    | false =>
      rw [List.filter_cons_of_neg (by simp [ha]), ih, List.flatMap_cons, h a List.mem_cons_self ha,
        List.nil_append]
    | true => rw [List.filter_cons_of_pos ha, List.flatMap_cons, ih, List.flatMap_cons]

mutual
theorem directories_without (hc : Closed hidden) (hn : ∀ m ∈ ns, IsPart m) :
    (way : List String) → (∀ m ∈ way, IsPart m) → (e : Entry) → e.Proper →
      hidden (ns ++ way) = false →
      directories ignored (ofParts ns) way (e.without hidden (ns ++ way)) =
        (directories ignored (ofParts ns) way e).filter fun p => !hidden (parts p)
  | _, _, .file _, _, _ => by simp [Entry.without, directories]
  | _, _, .link _, _, _ => by simp [Entry.without, directories]
  | way, hw, .dir entries, h, hhere => by
    have hall : ∀ m ∈ ns ++ way, IsPart m := by simpa [or_imp, forall_and] using ⟨hn, hw⟩
    obtain ⟨hnames, hin⟩ :=
      @below_directoriesIn ns ignored hn way hw entries h.2
    have hkept : ∀ x ∈ directoriesIn ignored (ofParts ns) way entries,
        (!hidden (ns ++ way ++ [x.1])) = false → (x.2.filter fun p => !hidden (parts p)) = [] := by
      intro x hx hhidden
      obtain ⟨hname, -, hbelow⟩ := hin x hx
      rw [List.filter_eq_nil_iff]
      intro p hp
      obtain ⟨more, hmore, -, rfl⟩ := hbelow.leads p hp
      have hparts : ∀ m ∈ ns ++ way ++ [x.1] ++ more, IsPart m := by
        simpa [or_imp, forall_and] using ⟨hn, hw, hname, hmore⟩
      rw [parts_ofParts hparts, hc _ more (by simpa using hhidden)]
      simp
    have hsort : ∀ l : List (String × List String),
        (l.map fun x => (x.1, x.2.filter fun p => !hidden (parts p))).mergeSort
            (fun a b => decide (a.1 ≤ b.1)) =
          (l.mergeSort fun a b => decide (a.1 ≤ b.1)).map fun x =>
            (x.1, x.2.filter fun p => !hidden (parts p)) := by
      intro l
      symm
      apply List.map_mergeSort
      intro a _ b _
      rfl
    rw [Entry.without, directories, directories, directoriesIn_without hc hn way hw entries h.2,
      foldl_join_ofParts hn hw, List.filter_cons_of_pos (by simp [parts_ofParts hall, hhere]),
      List.filter_flatMap, hsort, List.flatMap_map, mergeSort_filter (hnames.nodup h.1),
      flatMap_filter_of_nil]
    intro x hx
    exact hkept x (List.mem_mergeSort.mp hx)

theorem directoriesIn_without (hc : Closed hidden) (hn : ∀ m ∈ ns, IsPart m) :
    (way : List String) → (∀ m ∈ way, IsPart m) →
      (entries : List (String × Entry)) → Entry.ProperAll entries →
      directoriesIn ignored (ofParts ns) way (Entry.withoutIn hidden (ns ++ way) entries) =
        ((directoriesIn ignored (ofParts ns) way entries).filter fun x =>
          !hidden (ns ++ way ++ [x.1])).map fun x => (x.1, x.2.filter fun p => !hidden (parts p))
  | _, _, [], _ => by simp [Entry.withoutIn, directoriesIn]
  | way, hw, (name, e) :: more, h => by
    have ih := directoriesIn_without hc hn way hw more h.2.2
    have hdirs := directories_without hc hn (way ++ [name])
      (by simpa [or_imp, forall_and] using ⟨hw, h.1⟩) e h.2.1
    rw [← List.append_assoc] at hdirs
    rw [directoriesIn, List.filter_append, List.map_append, ← ih, Entry.withoutIn]
    cases hhidden : hidden (ns ++ way ++ [name]) with
    | true =>
      rw [if_pos rfl]
      split <;> simp [-List.append_assoc, hhidden]
    | false =>
      rw [if_neg (by simp), directoriesIn, Entry.isDir_without, hdirs hhidden]
      split <;> simp [-List.append_assoc, hhidden]
end

theorem packageDirsBy_eq (hs : s.Sound) (hat : s.root.at? ns = some (.dir entries))
    (rules : List IgnoreRule) :
    packageDirsBy s (ofParts ns) rules =
      ((directories (fun way => isIgnored rules ("/".intercalate way)) (ofParts ns) []
        (.dir entries)).filterM (hasSources s)).mapError .failure := by
  rw [packageDirsBy, Store.entry?, hs.locate hat]
  simp only [Except.toOption, Option.map_some]
  cases (directories (fun way => isIgnored rules ("/".intercalate way)) (ofParts ns) []
    (.dir entries)).filterM (hasSources s) <;> rfl

theorem packageDirsBy_without (hs : s.Sound) (hc : Closed hidden)
    (hat : s.root.at? ns = some (.dir entries)) (hhere : hidden ns = false)
    (rules : List IgnoreRule) :
    packageDirsBy (s.without hidden) (ofParts ns) rules =
      (((directories (fun way => isIgnored rules ("/".intercalate way)) (ofParts ns) []
        (.dir entries)).filter fun p => !hidden (parts p)).filterM
          (hasSources (s.without hidden))).mapError .failure := by
  have hdirs := fun ignored =>
    @directories_without hidden ns ignored hc (Entry.Proper.isPart hs.proper hat) [] (by simp)
      (.dir entries) (Entry.Proper.at? hs.proper hat) (by rwa [List.append_nil])
  simp only [List.append_nil] at hdirs
  have hroot : hidden [] = false := hc.root hhere
  rw [packageDirsBy_eq (hs.without hc hroot) (Store.dir_without hc hhere hat), ← hdirs, Entry.without]

section

variable (hs : s.Sound) (hc : Closed hidden) (hlinks : s.LinksAvoid hidden)
  (hat : s.root.at? ns = some (.dir entries)) (hhere : hidden ns = false)
  (hname : IsPart name) (hdown : name ≠ "..")
  (hquiet : ∀ e, hidden (ns ++ [name]) = true → s.root.at? (ns ++ [name]) = some e → e.isDir)
include hs hc hlinks hat hhere hname hdown hquiet

theorem rootFile_without :
    (s.without hidden).isFile (join (ofParts ns) name) = s.isFile (join (ofParts ns) name) ∧
    (s.isFile (join (ofParts ns) name) = true →
      (s.without hidden).read (join (ofParts ns) name) = s.read (join (ofParts ns) name) ∧
      (s.without hidden).isLink (join (ofParts ns) name) =
        s.isLink (join (ofParts ns) name)) := by
  have hbare := hs.bare hat
  have hpart : ∀ n ∈ ns ++ [name], IsPart n := by
    simpa [or_imp, forall_and] using ⟨hbare.isPart, hname⟩
  have hup : ".." ∉ ns ++ [name] := by simpa using ⟨hbare.down, hdown.symm⟩
  have hroot : hidden [] = false := hc.root hhere
  have hat' := Store.dir_without hc hhere hat
  rw [join_ofParts hname hbare.isPart]
  cases hhidden : hidden (ns ++ [name]) with
  | false =>
    refine ⟨Store.isFile_without hc hlinks hpart hup hat hhidden, fun _ =>
      ⟨Store.read_without hc hlinks hpart hup hat hhidden, ?_⟩⟩
    rw [hs.isLink_concat hat hname, (hs.without hc hroot).isLink_concat hat' hname,
      Entry.lookup_withoutIn, if_neg (by simp [hhidden])]
    cases entries.lookup name with
    | none => rfl
    | some e => exact Entry.isLink_without e
  | true =>
    have hnone : (s.without hidden).root.at? (ns ++ [name]) = none :=
      Entry.at?_without_of_hidden hroot hhidden
    rw [hs.not_isFile hat hname hdown fun e => hquiet e hhidden,
      (hs.without hc hroot).not_isFile hat' hname hdown (by simp [hnone])]
    simp

end

def QuietRoot (s : Store) (hidden : List String → Bool) (ns : List String) : Prop :=
  ∀ name ∈ [".gitignore", "go.mod", Settings.fileName], ∀ e, hidden (ns ++ [name]) = true →
    s.root.at? (ns ++ [name]) = some e → e.isDir

section

variable (hs : s.Sound) (hc : Closed hidden) (hlinks : s.LinksAvoid hidden)
  (hat : s.root.at? ns = some (.dir entries)) (hhere : hidden ns = false)
  (hquiet : QuietRoot s hidden ns)
include hs hc hlinks hat hhere hquiet

theorem rulesOf_without : rulesOf (s.without hidden) (ofParts ns) = rulesOf s (ofParts ns) := by
  have hname : IsPart ".gitignore" := ⟨by decide, by decide, by decide⟩
  obtain ⟨hfile, hread⟩ :=
    rootFile_without hs hc hlinks hat hhere hname (by decide) (hquiet _ (by simp))
  rw [rulesOf, rulesOf, hfile]
  cases hf : s.isFile (join (ofParts ns) ".gitignore") with
  | false => rfl
  | true =>
    obtain ⟨hread, hlink⟩ := hread hf
    rw [hread, hlink]

theorem moduleOf_without :
    Load.moduleOf (s.without hidden) (ofParts ns) = Load.moduleOf s (ofParts ns) := by
  have hname : IsPart "go.mod" := ⟨by decide, by decide, by decide⟩
  obtain ⟨hfile, hread⟩ :=
    rootFile_without hs hc hlinks hat hhere hname (by decide) (hquiet _ (by simp))
  rw [Load.moduleOf, Load.moduleOf, hfile]
  cases hf : s.isFile (join (ofParts ns) "go.mod") with
  | false => rfl
  | true => rw [(hread hf).1]

theorem settings_without :
    Settings.load (s.without hidden) (ofParts ns) = Settings.load s (ofParts ns) := by
  have hname : IsPart Settings.fileName := ⟨by decide, by decide, by decide⟩
  obtain ⟨hfile, hread⟩ :=
    rootFile_without hs hc hlinks hat hhere hname (by decide) (hquiet _ (by simp))
  rw [Settings.load, Settings.load, hfile]
  cases hf : s.isFile (join (ofParts ns) Settings.fileName) with
  | false => rfl
  | true => rw [(hread hf).1]

omit hlinks hat hhere hquiet in
theorem hasSources_of_hidden {place : List String} (hplace : s.root.at? place = some (.dir entries))
    (hhidden : hidden place = true) (hquiet : Quiet s hidden place) :
    hasSources s (ofParts place) = .ok false := by
  have hany : ∀ l, l ⊆ entries → anySource s (ofParts place) l = .ok false := by
    intro l hl
    induction l with
    | nil => rfl
    | cons x l ih =>
      obtain ⟨hx, hl⟩ := List.cons_subset.mp hl
      rw [anySource, isSource_of_hidden hs hplace hquiet hx (hc place [x.1] hhidden)]
      exact ih hl
  rw [hasSources, hs.list hplace, Except.bind, hany _ (by simp)]

theorem packageDirs_without (hsources : ∀ place, Quiet s hidden place) (respectIgnore : Bool) :
    packageDirs (s.without hidden) (ofParts ns) respectIgnore =
      packageDirs s (ofParts ns) respectIgnore := by
  rw [packageDirs, packageDirs, rulesOf_without hs hc hlinks hat hhere hquiet]
  cases if respectIgnore then rulesOf s (ofParts ns) else .ok [] with
  | error o => rfl
  | ok rules =>
    rw [Except.bind, Except.bind, packageDirsBy_without hs hc hat hhere, packageDirsBy_eq hs hat]
    congr 1
    apply filterM_filter
    · intro path hpath hkeep
      obtain ⟨place, found, rfl, hdir⟩ := dir_of_mem_directories hs hat hpath
      rw [parts_ofParts (hs.bare hdir).isPart] at hkeep
      exact hasSources_of_hidden hs hc hdir (by simpa using hkeep) (hsources place)
    · intro path hpath hkeep
      obtain ⟨place, found, rfl, hdir⟩ := dir_of_mem_directories hs hat hpath
      rw [parts_ofParts (hs.bare hdir).isPart] at hkeep
      exact hasSources_without hs hc hlinks hdir (hsources place) (by simpa using hkeep)

omit hlinks hquiet in
theorem unhidden_of_packageDirs {respectIgnore : Bool} {dirs : List String}
    (h : packageDirs (s.without hidden) (ofParts ns) respectIgnore = .ok dirs) {path : String}
    (hpath : path ∈ dirs) : ∃ place found, path = ofParts place ∧
      s.root.at? place = some (.dir found) ∧ hidden place = false := by
  rw [packageDirs] at h
  cases hrules : (if respectIgnore then rulesOf (s.without hidden) (ofParts ns) else .ok []) with
  | error o =>
    rw [hrules] at h
    cases h
  | ok rules =>
    rw [hrules, Except.bind, packageDirsBy_without hs hc hat hhere] at h
    cases hall : ((directories (fun way => isIgnored rules ("/".intercalate way)) (ofParts ns) []
        (.dir entries)).filter fun p => !hidden (parts p)).filterM
          (hasSources (s.without hidden)) with
    | error f =>
      rw [hall] at h
      cases h
    | ok found =>
      rw [hall] at h
      cases h
      obtain ⟨hmem, hkeep⟩ := List.mem_filter.mp ((sublist_of_filterM hall).subset hpath)
      obtain ⟨place, found, rfl, hdir⟩ := dir_of_mem_directories hs hat hmem
      rw [parts_ofParts (hs.bare hdir).isPart] at hkeep
      exact ⟨place, found, rfl, hdir, by simpa using hkeep⟩

end

end Discovery

namespace Settings

open Files GoAtlas.Path

variable {s : Store} {root dir output : String} {ns : List String}
  {entries : List (String × Entry)} (hs : s.Sound) (hbase : s.realPath root = ofParts ns)
  (hat : s.root.at? ns = some (.dir entries))
include hs hbase hat

theorem resolveOutput_eq :
    resolveOutput s root dir =
      if dir = "" then .error (.config "output_dir must be a non-empty relative path" none)
      else if Text.beginsWith dir "~" || isAbsolute dir then
        .error (.config "output_dir must be a relative path within the workspace root" none)
      else
        ((s.resolve (join (ofParts ns) dir)).mapError .unwritable).bind fun output =>
          if (below? (ofParts ns) output).isSome then .ok output
          else .error (.config ("output_dir '" ++ dir ++ "' escapes the workspace root") none) := by
  rw [resolveOutput, hs.resolve hat hbase]
  rfl

theorem resolveOutput_ok_iff : resolveOutput s root dir = .ok output ↔
    dir ≠ "" ∧ (Text.beginsWith dir "~" || isAbsolute dir) = false ∧
      s.resolve (join (ofParts ns) dir) = .ok output ∧ (below? (ofParts ns) output).isSome := by
  rw [resolveOutput_eq hs hbase hat]
  by_cases hempty : dir = ""
  · simp [hempty]
  cases habsolute : Text.beginsWith dir "~" || isAbsolute dir with
  | true => simp [hempty]
  | false =>
    cases hresolve : s.resolve (join (ofParts ns) dir) with
    | error e => simp [hempty, Except.mapError, Except.bind]
    | ok found =>
      simp only [hempty, Except.mapError, Except.bind, if_false, Bool.false_eq_true, ne_eq,
        not_false_eq_true, true_and, Except.ok.injEq]
      split
      · next hbelow => simp only [Except.ok.injEq]; grind
      · next hbelow => simp only [reduceCtorEq, false_iff]; grind

end Settings

namespace Load

open Files GoAtlas.Path Discovery

variable {s t : Store} {hidden : List String → Bool} {place ns : List String}
  {entries : List (String × Entry)}

theorem addFiles_congr {paths : List String} (h : ∀ path ∈ paths, t.read path = s.read path)
    (p : Package) (r : Source.Registry) : addFiles t paths p r = addFiles s paths p r := by
  induction paths generalizing p r with
  | nil => rfl
  | cons path paths ih =>
    have hfile : file t path r = file s path r := by rw [file, file, h path List.mem_cons_self]
    rw [addFiles, addFiles, hfile]
    cases file s path r with
    | error e => rfl
    | ok found => exact ih (fun q hq => h q (List.mem_cons_of_mem path hq)) _ _

theorem packages_congr {dirs : List String}
    (h : ∀ d ∈ dirs, ∀ r, package t d r = package s d r) (r : Source.Registry) :
    packages t dirs r = packages s dirs r := by
  induction dirs generalizing r with
  | nil => rfl
  | cons d dirs ih =>
    rw [packages, packages, h d List.mem_cons_self]
    simp only [ih fun d hd => h d (List.mem_cons_of_mem _ hd)]

variable (hs : s.Sound) (hc : Closed hidden) (hlinks : s.LinksAvoid hidden)
include hs hc hlinks

/-- The package in a directory is the same if nothing that is hidden there is a source. -/
theorem package_without (hat : s.root.at? place = some (.dir entries))
    (hhere : hidden place = false) (hquiet : Quiet s hidden place) (r : Source.Registry) :
    package (s.without hidden) (ofParts place) r = package s (ofParts place) r := by
  rw [package, package, sources_without hs hc hlinks hat hquiet hhere]
  cases hsources : sources s (ofParts place) with
  | error e => rfl
  | ok paths =>
    simp only [addFiles_congr fun _ => read_source_without hs hc hlinks hat hquiet hsources]

/-- The workspace is the same if nothing hidden is a source or a file of the root that is read. -/
theorem workspace_without (hat : s.root.at? ns = some (.dir entries)) (hhere : hidden ns = false)
    (hroot : QuietRoot s hidden ns) (hquiet : ∀ place, Quiet s hidden place)
    (respectIgnore : Bool) :
    workspace (s.without hidden) (ofParts ns) respectIgnore =
      workspace s (ofParts ns) respectIgnore := by
  have hbare := hs.bare hat
  have hresolve := (hs.without hc (hc.root hhere)).resolve (Store.dir_without hc hhere hat)
    (hbare.without hc hhere).realPath
  rw [workspace, workspace, hs.resolve hat hbare.realPath, hresolve]
  dsimp only
  rw [workspaceAt, workspaceAt, moduleOf_without hs hc hlinks hat hhere hroot,
    packageDirs_without hs hc hlinks hat hhere hroot hquiet]
  cases moduleOf s (ofParts ns) with
  | error o => rfl
  | ok module? =>
    dsimp only
    cases hdirs : packageDirs s (ofParts ns) respectIgnore with
    | error o => rfl
    | ok dirs =>
      have hpackages : ∀ d ∈ dirs, ∀ r, package (s.without hidden) d r = package s d r := by
        intro d hd r
        rw [← packageDirs_without hs hc hlinks hat hhere hroot hquiet] at hdirs
        obtain ⟨place, found, rfl, hdir, hplace⟩ := unhidden_of_packageDirs hs hc hat hhere hdirs hd
        exact package_without hs hc hlinks hdir hplace (hquiet place) r
      simp only [assemble, packages_congr hpackages]

end Load

end GoAtlas
