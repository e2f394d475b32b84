import GoAtlas.Files.Contents
import GoAtlas.Proofs.Files.Hiding

namespace GoAtlas.Files

theorem Entry.mem_singleton_leaf {way before : List String} {leaf e : Entry} (he : e.isDir = false) :
    (way, leaf) ∈ [(before, e)] ↔
      ∃ more, way = before ++ more ∧ e.at? more = some leaf ∧ leaf.isDir = false := by
  rw [List.mem_singleton, Prod.mk.injEq]
  constructor
  · rintro ⟨rfl, rfl⟩
    exact ⟨[], (List.append_nil way).symm, rfl, he⟩
  · rintro ⟨more, rfl, hat, -⟩
    cases more with
    | nil =>
      cases hat
      exact ⟨List.append_nil before, rfl⟩
    | cons name more =>
      cases e with
      | dir entries => cases he
      | _ => cases hat

mutual
theorem Entry.mem_leaves {way : List String} {leaf : Entry} : (before : List String) →
    (e : Entry) → e.Proper → ((way, leaf) ∈ e.leaves before ↔
      ∃ more, way = before ++ more ∧ e.at? more = some leaf ∧ leaf.isDir = false)
  | before, .file content, _ => by
    rw [leaves]
    exact mem_singleton_leaf rfl
  | before, .link target, _ => by
    rw [leaves]
    exact mem_singleton_leaf rfl
  | before, .dir entries, h => by
    rw [leaves, mem_leavesOf before entries h.2]
    constructor
    · rintro ⟨name, e, more, hmem, rfl, hat, hleaf⟩
      have hl : entries.lookup name = some e := h.lookup_of_mem hmem
      exact ⟨name :: more, rfl, by simp [Entry.at?, Entry.child?, hl, hat], hleaf⟩
    · rintro ⟨more, rfl, hat, hleaf⟩
      cases more with
      | nil =>
        cases hat
        cases hleaf
      | cons name more =>
        obtain ⟨e, he, hat⟩ := Option.bind_eq_some_iff.mp hat
        exact ⟨name, e, more, Dict.mem_of_lookup he, rfl, hat, hleaf⟩

theorem Entry.mem_leavesOf {way : List String} {leaf : Entry} : (before : List String) →
    (entries : List (String × Entry)) → ProperAll entries →
    ((way, leaf) ∈ Entry.leavesOf before entries ↔ ∃ name e more, (name, e) ∈ entries ∧
      way = before ++ name :: more ∧ e.at? more = some leaf ∧ leaf.isDir = false)
  | before, [], _ => by simp [Entry.leavesOf]
  | before, (name, e) :: rest, h => by
    rw [Entry.leavesOf, List.mem_append, mem_leaves (before ++ [name]) e h.2.1,
      mem_leavesOf before rest h.2.2]
    constructor
    · rintro (⟨more, rfl, hat, hleaf⟩ | ⟨other, f, more, hmem, rfl, hat, hleaf⟩)
      · exact ⟨name, e, more, List.mem_cons_self, by simp, hat, hleaf⟩
      · exact ⟨other, f, more, List.mem_cons_of_mem _ hmem, rfl, hat, hleaf⟩
    · rintro ⟨other, f, more, hmem, rfl, hat, hleaf⟩
      rcases List.mem_cons.mp hmem with heq | hmem
      · cases heq
        exact .inl ⟨more, by simp, hat, hleaf⟩
      · exact .inr ⟨other, f, more, hmem, rfl, hat, hleaf⟩
end

namespace Store

variable {s : Store} {place : List String} {entries : List (String × Entry)}

/-- The files below a directory are its leaves that can be read, by the way to them. -/
theorem mem_contents_of_locate {directory path : String} {content : ByteArray} (hs : s.Sound)
    (h : s.locate directory = .ok (place, .dir entries)) :
    (path, content) ∈ s.contents directory ↔ ∃ way leaf,
      s.root.at? (place ++ way) = some leaf ∧ leaf.isDir = false ∧ path = "/".intercalate way ∧
        s.read (Path.join directory path) = .ok content := by
  have hat := at?_of_locate h
  have hproper := Entry.Proper.at? hs.proper hat
  have hat' : ∀ way, s.root.at? (place ++ way) = (Entry.dir entries).at? way := by
    intro way
    rw [Entry.at?_append, hat, Option.bind_some]
  simp only [contents, entry?, h, Except.toOption, Option.map_some, List.mem_mergeSort,
    List.mem_filterMap]
  constructor
  · rintro ⟨⟨way, leaf⟩, hmem, hread⟩
    obtain ⟨more, hmore, hway, hleaf⟩ := (Entry.mem_leaves [] _ hproper).mp hmem
    rw [List.nil_append] at hmore
    subst hmore
    dsimp only at hread
    cases hr : s.read (Path.join directory ("/".intercalate way)) with
    | error e =>
      rw [hr] at hread
      cases hread
    | ok found =>
      rw [hr] at hread
      cases hread
      exact ⟨way, leaf, (hat' way).trans hway, hleaf, rfl, hr⟩
  · rintro ⟨way, leaf, hway, hleaf, rfl, hread⟩
    rw [hat'] at hway
    refine ⟨(way, leaf), (Entry.mem_leaves [] _ hproper).mpr ⟨way, rfl, hway, hleaf⟩, ?_⟩
    dsimp only
    rw [hread]
    rfl

theorem mem_contents (hs : s.Sound) (hat : s.root.at? place = some (.dir entries)) {path : String}
    {content : ByteArray} :
    (path, content) ∈ s.contents (Path.ofParts place) ↔ ∃ way leaf,
      s.root.at? (place ++ way) = some leaf ∧ leaf.isDir = false ∧ path = "/".intercalate way ∧
        s.read (Path.ofParts (place ++ way)) = .ok content := by
  have hjoin : ∀ way leaf, s.root.at? (place ++ way) = some leaf → leaf.isDir = false →
      Path.join (Path.ofParts place) ("/".intercalate way) = Path.ofParts (place ++ way) := by
    intro way leaf hway hleaf
    have hpart := Entry.Proper.isPart hs.proper hway
    apply Path.join_intercalate (hs.bare hat).isPart fun n hn => hpart n (List.mem_append_right _ hn)
    rintro rfl
    rw [List.append_nil, hat] at hway
    cases hway
    cases hleaf
  rw [mem_contents_of_locate hs (hs.locate hat)]
  constructor
  · rintro ⟨way, leaf, hway, hleaf, rfl, hread⟩
    exact ⟨way, leaf, hway, hleaf, rfl, hjoin way leaf hway hleaf ▸ hread⟩
  · rintro ⟨way, leaf, hway, hleaf, rfl, hread⟩
    exact ⟨way, leaf, hway, hleaf, rfl, (hjoin way leaf hway hleaf).symm ▸ hread⟩

theorem mem_contents_of_file {name : String} {content : ByteArray} (hs : s.Sound)
    (hat : s.root.at? place = some (.dir entries)) (hname : Path.IsPart name) (hdown : name ≠ "..")
    (hfile : s.root.at? (place ++ [name]) = some (.file content)) :
    (name, content) ∈ s.contents (Path.ofParts place) := by
  rw [mem_contents hs hat]
  exact ⟨[name], _, hfile, rfl, String.intercalate_singleton.symm,
    hs.read_concat hat hname hdown hfile⟩

/-- The links that lead anywhere are leaves of the store. -/
theorem LeadsBy.leaf {x : List String} (hs : s.Sound) (h : s.LeadsBy x) : ∃ way name target,
    (way ++ [name], .link target) ∈ (s.root.leaves []).filter (·.2.isLink) ∧
      s.Visits (if Path.isAbsolute target then [] else way) (Path.parts target) x := by
  obtain ⟨way, name, target, hat, hv⟩ := h
  have hleaf : (way ++ [name], Entry.link target) ∈ s.root.leaves [] :=
    (Entry.mem_leaves [] s.root hs.proper).mpr ⟨way ++ [name], rfl, hat, rfl⟩
  exact ⟨way, name, target, List.mem_filter.mpr ⟨hleaf, rfl⟩, hv⟩

theorem not_leadsBy_of_noLinks (hs : s.Sound) (h : (s.root.leaves []).filter (·.2.isLink) = [])
    (x : List String) : ¬s.LeadsBy x := by
  intro hx
  obtain ⟨way, name, target, hleaf, -⟩ := hx.leaf hs
  rw [h] at hleaf
  cases hleaf

theorem linksAvoid_of_hidden {hidden : List String → Bool} (hs : s.Sound)
    (h : ∀ leaf ∈ (s.root.leaves []).filter (·.2.isLink), hidden leaf.1 = true) :
    s.LinksAvoid hidden := by
  intro way name target hhidden hat
  have hleaf : (way ++ [name], Entry.link target) ∈ s.root.leaves [] :=
    (Entry.mem_leaves [] s.root hs.proper).mpr ⟨way ++ [name], rfl, hat, rfl⟩
  rw [h _ (List.mem_filter.mpr ⟨hleaf, rfl⟩)] at hhidden
  cases hhidden

end Store

end GoAtlas.Files
