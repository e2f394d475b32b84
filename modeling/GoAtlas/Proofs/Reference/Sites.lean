import GoAtlas.Proofs.Reference.Search
import Mathlib.Data.List.Nodup

namespace GoAtlas.Reference

open Syntax

variable {p gp : Option Tree} {t c root : Tree} {ts : List Tree} {s : Site}

theorem mem_walk_of_mem_sites (h : s ∈ sites p gp t) : s.node ∈ t.walk :=
  map_node_sites t p gp ▸ List.mem_map_of_mem h

theorem self_mem_sites (t : Tree) (p gp : Option Tree) : ⟨t, p, gp⟩ ∈ sites p gp t := by
  cases t
  exact List.mem_cons_self

theorem sites_subset_sitesOf (h : c ∈ ts) : sites p gp c ⊆ sitesOf p gp ts := by
  induction ts with
  | nil => cases h
  | cons t ts ih =>
    rw [sitesOf]
    rcases List.mem_cons.mp h with rfl | h
    · exact List.subset_append_left _ _
    · exact List.Subset.trans (ih h) (List.subset_append_right _ _)

theorem sites_child_subset (h : c ∈ t.children) : sites (some t) p c ⊆ sites p gp t := by
  rw [sites_eq_cons t]
  exact List.Subset.trans (sites_subset_sitesOf h) (List.subset_cons_self _ _)

mutual
theorem parent_isSome : (t : Tree) → ∀ p gp, p.isSome → ∀ s ∈ sites p gp t, s.parent.isSome
  | .node k f sp cs, p, gp, hp, s, hs => by
    rcases List.mem_cons.mp hs with rfl | hs
    · exact hp
    · exact parentOf_isSome cs _ _ rfl s hs

theorem parentOf_isSome : (ts : List Tree) → ∀ p gp, p.isSome → ∀ s ∈ sitesOf p gp ts, s.parent.isSome
  | [], _, _, _, _, hs => by cases hs
  | t :: ts, p, gp, hp, s, hs => by
    rcases List.mem_append.mp hs with hs | hs
    · exact parent_isSome t p gp hp s hs
    · exact parentOf_isSome ts p gp hp s hs
end

theorem Site.filter_ofTree (root : Tree) :
    (Site.ofTree root).filter (fun s => s.isIdentifier && s.parent.isSome) =
      (sitesOf (some root) none root.children).filter Site.isIdentifier := by
  rw [Site.ofTree_eq, sites_eq_cons, List.filter_cons_of_neg (by simp)]
  refine List.filter_congr fun s hs => ?_
  rw [parentOf_isSome _ _ _ rfl s hs, Bool.and_true]

theorem Site.identifiers_ofTree {size : Nat} (h : Parsed size root) :
    (Site.ofTree root).filter Site.isIdentifier =
      (sitesOf (some root) none root.children).filter Site.isIdentifier := by
  have hkind : root.kind.isIdentifier = false := by
    rw [h.kind]
    rfl
  rw [Site.ofTree_eq, sites_eq_cons, List.filter_cons_of_neg (by simp [Site.isIdentifier, hkind])]

/-- Identifiers follow one another without overlap. -/
theorem Site.apart {size : Nat} (h : Parsed size root) :
    ((sitesOf (some root) none root.children).filter Site.isIdentifier).Pairwise
      fun s u => s.node.stop ≤ u.node.start := by
  have hsub : ((Tree.walkAll root.children).filter (·.kind.isIdentifier)).Sublist
      ((Tree.walkAll root.children).filter (·.kind.isMark)) :=
    List.monotone_filter_right _ fun t ht => Kind.isMark_of_isIdentifier ht
  have hids := (Tree.marksAll_ordered root.children .sourceFile 0 size h.row).sublist hsub
  rw [← map_node_sitesOf root.children (some root) none, List.filter_map, List.pairwise_map] at hids
  exact hids

theorem Site.start_lt_stop {size : Nat} (h : Parsed size root)
    (hs : s ∈ sitesOf (some root) none root.children) (hi : s.isIdentifier) :
    s.node.start < s.node.stop :=
  ((Tree.walkAll_within _ _ _ _ h.row _ (mem_walkAll_of_mem_sitesOf hs)).2.2.mark
    (Kind.isMark_of_isIdentifier hi)).2.1

/-- The identifiers below the root that cover an offset. -/
def Site.covering (root : Tree) (offset : Int) : List Site :=
  ((sitesOf (some root) none root.children).filter Site.isIdentifier).filter fun s =>
    decide ((s.node.start : Int) ≤ offset) && decide (offset < s.node.stop)

theorem Site.mem_covering {offset : Int} : s ∈ covering root offset ↔
    s ∈ sitesOf (some root) none root.children ∧ s.isIdentifier ∧
      (s.node.start : Int) ≤ offset ∧ offset < s.node.stop := by
  simp only [covering, List.mem_filter, Bool.and_eq_true, decide_eq_true_eq, and_assoc]

theorem Site.covering_eq {size : Nat} (h : Parsed size root) {offset : Int}
    (hs : s ∈ covering root offset) : covering root offset = [s] := by
  have hpairs : (covering root offset).Pairwise fun _ _ => False := by
    refine ((Site.apart h).sublist List.filter_sublist).imp_of_mem fun {u v} hu hv hle => ?_
    have hu := mem_covering.mp hu
    have hv := mem_covering.mp hv
    omega
  match covering root offset, hs, hpairs with
  | [u], hs, _ => rw [List.mem_singleton.mp hs]
  | u :: v :: l, _, hpairs => exact ((List.pairwise_cons.mp hpairs).1 v List.mem_cons_self).elim

/-- Identifiers that start at the same byte are the same site. -/
theorem Site.eq_of_start {size : Nat} (h : Parsed size root) {u : Site}
    (hs : s ∈ sitesOf (some root) none root.children) (hi : s.isIdentifier)
    (hu : u ∈ sitesOf (some root) none root.children) (hui : u.isIdentifier)
    (he : s.node.start = u.node.start) : s = u := by
  have hlt := Site.start_lt_stop h hs hi
  have hlt' := Site.start_lt_stop h hu hui
  have hmem : s ∈ Site.covering root s.node.start := mem_covering.mpr ⟨hs, hi, by omega, by omega⟩
  have hmem' : u ∈ Site.covering root s.node.start :=
    mem_covering.mpr ⟨hu, hui, by omega, by omega⟩
  rw [covering_eq h hmem] at hmem'
  exact (List.mem_singleton.mp hmem').symm

/-- An offset inside an identifier leads to that identifier. -/
theorem identifierAt?_eq {size : Nat} (h : Parsed size root) {offset : Int}
    (hs : s ∈ Site.covering root offset) : identifierAt? root offset = some s := by
  have hfilter : ((Site.ofTree root).filter fun u => u.Covers offset) = Site.covering root offset := by
    rw [Site.covering, ← Site.identifiers_ofTree h, List.filter_filter]
    refine List.filter_congr fun u _ => ?_
    grind [Site.Covers]
  rw [(starts_of_parsed h).identifierAt?, hfilter, Site.covering_eq h hs]
  rfl

namespace Entry

@[simp] theorem file_ofSite (f : SourceFile) (s : Site) : (ofSite f s).file = f.path :=
  rfl

@[simp] theorem offset_ofSite (f : SourceFile) (s : Site) : (ofSite f s).offset = s.node.start :=
  rfl

@[simp] theorem isDeclaration_ofSite (f : SourceFile) (s : Site) :
    (ofSite f s).isDeclaration = s.isDeclaration :=
  rfl

/-- Where an occurrence stands. -/
def place (e : Entry) : String × Int :=
  (e.file, e.offset)

end Entry

namespace Index

variable {f : SourceFile} {fs : List SourceFile} {name : String} {e : Entry}

theorem ofFile_eq (f : SourceFile) :
    ofFile f = ((sitesOf (some f.tree) none f.tree.children).filter Site.isIdentifier).map fun s =>
      (f.text s.node, Entry.ofSite f s) := by
  rw [ofFile, Site.filter_ofTree]

theorem mem_occurrences {i : Index} : e ∈ i.occurrences name ↔ (name, e) ∈ i := by
  simp only [occurrences, List.mem_map, List.mem_filter, beq_iff_eq]
  constructor
  · rintro ⟨⟨name, e⟩, ⟨hmem, rfl⟩, rfl⟩
    exact hmem
  · intro hmem
    exact ⟨(name, e), ⟨hmem, rfl⟩, rfl⟩

theorem mem_ofFiles : (name, e) ∈ ofFiles fs ↔
    ∃ f ∈ fs, ∃ s ∈ sitesOf (some f.tree) none f.tree.children, s.isIdentifier ∧
      f.text s.node = name ∧ Entry.ofSite f s = e := by
  simp only [ofFiles, List.mem_flatMap, ofFile_eq, List.mem_map, List.mem_filter, Prod.mk.injEq,
    and_assoc]

/-- The uses of a name are the identifiers that spell it and do not declare. -/
theorem mem_uses : e ∈ (ofFiles fs).uses name ↔
    ∃ f ∈ fs, ∃ s ∈ sitesOf (some f.tree) none f.tree.children, s.isIdentifier ∧
      s.isDeclaration = false ∧ f.text s.node = name ∧ Entry.ofSite f s = e := by
  rw [uses, List.mem_filter, mem_occurrences, mem_ofFiles]
  constructor
  · rintro ⟨⟨f, hf, s, hs, hi, hname, rfl⟩, hd⟩
    exact ⟨f, hf, s, hs, hi, by simpa using hd, hname, rfl⟩
  · rintro ⟨f, hf, s, hs, hi, hd, hname, rfl⟩
    exact ⟨⟨f, hf, s, hs, hi, hname, rfl⟩, by simp [hd]⟩

theorem ofFile_ordered {size : Nat} (h : Parsed size f.tree) :
    (ofFile f).Pairwise fun e e' => e.2.offset < e'.2.offset := by
  rw [ofFile_eq]
  refine List.pairwise_map.mpr ((Site.apart h).imp_of_mem fun {s u} hs _ hle => ?_)
  have hlt := Site.start_lt_stop h (List.mem_filter.mp hs).1 (List.mem_filter.mp hs).2
  simp only [Entry.offset_ofSite]
  omega

theorem file_of_mem_ofFile {e : String × Entry} (h : e ∈ ofFile f) : e.2.file = f.path := by
  rw [ofFile_eq] at h
  obtain ⟨s, -, rfl⟩ := List.mem_map.mp h
  rfl

/-- Entries of one file are in the order of the source, no two of them at one place. -/
theorem ofFiles_ordered (hpaths : (fs.map (·.path)).Nodup)
    (hr : ∀ f ∈ fs, ∃ size, Parsed size f.tree) :
    (ofFiles fs).Pairwise fun e e' => e.2.file = e'.2.file → e.2.offset < e'.2.offset := by
  refine List.pairwise_flatMap.mpr ⟨fun f hf => ?_, ?_⟩
  · refine (ofFile_ordered (hr f hf).choose_spec).imp ?_
    intro e e' hlt _
    exact hlt
  · refine (List.pairwise_map.mp hpaths).imp fun {f g} hne e he e' he' hfile => (hne ?_).elim
    rw [← file_of_mem_ofFile he, hfile, file_of_mem_ofFile he']

theorem nodup_ofFiles (hpaths : (fs.map (·.path)).Nodup)
    (hr : ∀ f ∈ fs, ∃ size, Parsed size f.tree) : ((ofFiles fs).map (·.2.place)).Nodup := by
  refine List.pairwise_map.mpr ((ofFiles_ordered hpaths hr).imp fun {e e'} hlt hplace => ?_)
  obtain ⟨hfile, hoffset⟩ := Prod.mk.inj hplace
  have := hlt hfile
  omega

theorem nodup_uses (hpaths : (fs.map (·.path)).Nodup)
    (hr : ∀ f ∈ fs, ∃ size, Parsed size f.tree) (name : String) :
    (((ofFiles fs).uses name).map Entry.place).Nodup := by
  have hall : (((ofFiles fs).map (·.2)).map Entry.place).Nodup := by
    rw [List.map_map]
    exact nodup_ofFiles hpaths hr
  exact hall.sublist ((List.filter_sublist.trans (List.filter_sublist.map _)).map _)

end Index

end GoAtlas.Reference
