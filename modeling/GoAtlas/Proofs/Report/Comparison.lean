import GoAtlas.Proofs.Files.Contents
import GoAtlas.Proofs.Report.Writing
import GoAtlas.Report.Verify

namespace GoAtlas.Report

open Files GoAtlas.Path

theorem Comparison.ofContents_of_mem_iff {written fresh files : List (String × ByteArray)}
    (hnodup : (files.map (·.1)).Nodup) (hwritten : ∀ x, x ∈ written ↔ x ∈ files)
    (hfresh : ∀ x, x ∈ fresh ↔ x ∈ files) : ofContents written fresh = ⟨[], [], []⟩ := by
  have honly : ∀ these others : List (String × ByteArray), (∀ x ∈ these, x ∈ others) →
      pathsOnlyIn these others = [] := by
    intro these others h
    rw [pathsOnlyIn, List.map_eq_nil_iff, List.filter_eq_nil_iff]
    intro x hx hnone
    rw [Option.isNone_iff_eq_none, Dict.lookup_eq_none_iff] at hnone
    exact hnone (List.mem_map_of_mem (h x hx))
  have hsame : ∀ x ∈ written, ∀ content, fresh.lookup x.1 = some content → content = x.2 := by
    intro x hx content hl
    have hmem := (hfresh _).mp (Dict.mem_of_lookup hl)
    have heq := List.inj_on_of_nodup_map hnodup hmem ((hwritten x).mp hx) rfl
    exact congrArg Prod.snd heq
  rw [ofContents, honly written fresh fun x hx => (hfresh x).mpr ((hwritten x).mp hx),
    honly fresh written fun x hx => (hwritten x).mpr ((hfresh x).mp hx), Comparison.mk.injEq,
    List.map_eq_nil_iff, List.filter_eq_nil_iff]
  refine ⟨?_, rfl, rfl⟩
  intro x hx hne
  split at hne
  · next content hl =>
    have heq : (x.2 == x.2) = true := beq_self_eq_true x.2.data
    rw [hsame x hx content hl, bne, heq] at hne
    cases hne
  · cases hne

/-- If nothing differs, what is written is new as well. -/
theorem Comparison.mem_of_ok {written fresh : List (String × ByteArray)}
    (h : (ofContents written fresh).ok = true) {x : String × ByteArray} (hx : x ∈ written) :
    x ∈ fresh := by
  simp only [ok, Bool.and_eq_true, List.isEmpty_iff, ofContents, pathsOnlyIn, List.map_eq_nil_iff,
    List.filter_eq_nil_iff] at h
  obtain ⟨⟨hmismatches, hmissing⟩, -⟩ := h
  cases hl : fresh.lookup x.1 with
  | none => exact (hmissing x hx (by rw [hl]; rfl)).elim
  | some content =>
    have hsame := hmismatches x hx
    simp only [hl, bne, Bool.not_eq_true, Bool.not_eq_false'] at hsame
    have hdata : (content.data == x.2.data) = true := hsame
    obtain rfl : content = x.2 := ByteArray.ext (eq_of_beq hdata)
    exact Dict.mem_of_lookup hl

theorem freshName_toList (taken : List String) :
    ∃ rest, (freshName taken).toList = "tmpdir".toList ++ rest ∧ ∀ c ∈ rest, c = '_' := by
  rw [freshName]
  split
  · refine ⟨_, by rw [String.toList_ofList], ?_⟩
    intro c hc
    obtain ⟨name, -, hc⟩ := List.mem_flatMap.mp hc
    obtain ⟨_, -, rfl⟩ := List.mem_map.mp hc
    rfl
  · exact ⟨[], by simp, by simp⟩

theorem isPart_freshName (taken : List String) :
    IsPart (freshName taken) ∧ freshName taken ≠ ".." := by
  obtain ⟨rest, hlist, hrest⟩ := freshName_toList taken
  have hne : ∀ other : String, other.toList.head? ≠ some 't' → freshName taken ≠ other := by
    intro other ho he
    rw [← he, hlist] at ho
    exact ho rfl
  refine ⟨⟨hne "" (by decide), hne "." (by decide), ?_⟩, hne ".." (by decide)⟩
  rw [hlist]
  intro hmem
  rcases List.mem_append.mp hmem with hmem | hmem
  · revert hmem
    decide
  · cases hrest _ hmem

theorem freshName_not_mem (taken : List String) : freshName taken ∉ taken := by
  rw [freshName]
  split
  · intro hmem
    have hlength : ∀ name ∈ taken,
        name.toList.length ≤ (taken.flatMap (·.toList.map fun _ => '_')).length := by
      intro name hname
      have hsub := (List.sublist_flatten_of_mem (List.mem_map_of_mem
        (f := fun n : String => n.toList.map fun _ => '_') hname)).length_le
      rwa [List.length_map, ← List.flatMap_def] at hsub
    have hle := hlength _ hmem
    rw [String.toList_ofList, List.length_append] at hle
    have hsix : "tmpdir".toList.length = 6 := by decide
    omega
  · next h => simpa using h

variable {s u : Store} {place : List String} {entries : List (String × Entry)}
  {texts : List (String × String)}

/-- A scratch directory can be made where no link leads by what is missing. -/
theorem vacant_scratch {dir : String} (hdir : s.locate dir = .ok (place, .dir entries))
    (hlinks : ∀ x, s.LeadsBy x → ∃ e, s.root.at? x = some e) :
    ∃ name, scratch s dir = join dir name ∧ s.Vacant dir name place := by
  have hlist : s.list dir = .ok entries.reverse := by rw [Store.list, hdir]
  have hnew := freshName_not_mem (entries.reverse.map (·.1))
  obtain ⟨hpart, hdown⟩ := isPart_freshName (entries.reverse.map (·.1))
  have hnone : s.root.at? (place ++ [freshName (entries.reverse.map (·.1))]) = none := by
    rw [Entry.at?_concat (Store.at?_of_locate hdir), Dict.lookup_eq_none_iff]
    simpa using hnew
  refine ⟨_, by rw [scratch, hlist]; rfl, hpart, hdown, ⟨entries, hdir⟩, hnone, fun x hx hplace => ?_⟩
  obtain ⟨e, he⟩ := hlinks x hx
  obtain ⟨rest, rfl⟩ := hplace
  rw [Entry.at?_append, hnone] at he
  cases he

theorem mem_contents_folder {dir : String} {files : List (String × ByteArray)}
    (hs : (s.putAt place (Store.folder files)).Sound)
    (hdir : (s.putAt place (Store.folder files)).locate dir = .ok (place, Store.folder files))
    (x : String × ByteArray) :
    x ∈ (s.putAt place (Store.folder files)).contents dir ↔ x ∈ files := by
  have hat := Store.at?_of_locate hdir
  have hfile : ∀ {name content}, (name, content) ∈ files →
      (s.putAt place (Store.folder files)).root.at? (place ++ [name]) = some (.file content) := by
    intro name content hmem
    rw [Entry.at?_concat hat]
    exact (Entry.Proper.at? hs.proper hat).lookup_of_mem
      (List.mem_map_of_mem (f := fun x => (x.1, Entry.file x.2)) hmem)
  obtain ⟨path, content⟩ := x
  rw [Store.mem_contents_of_locate hs hdir]
  constructor
  · rintro ⟨way, leaf, hway, hleaf, rfl, hcontent⟩
    rw [Store.putAt, Entry.at?_put_append] at hway
    cases way with
    | nil =>
      cases hway
      cases hleaf
    | cons name way =>
      obtain ⟨rfl, found, hmem, rfl⟩ := Store.file_of_folder hway
      rw [String.intercalate_singleton, hs.read_join hdir (hfile hmem)] at hcontent
      cases hcontent
      rwa [String.intercalate_singleton]
  · intro hmem
    exact ⟨[path], .file content, hfile hmem, rfl, String.intercalate_singleton.symm,
      hs.read_join hdir (hfile hmem)⟩

/-- The files of a directory after texts have been written to it, if nothing else there leads to a
file. -/
theorem Written.mem_contents (h : Written s place texts u)
    (hnames : ∀ x ∈ texts, IsPart x.1 ∧ x.1 ≠ "..")
    (hothers : ∀ way leaf, u.root.at? (place ++ way) = some leaf → leaf.isDir = false →
      (∀ x ∈ texts, way ≠ [x.1]) → u.isFile (ofParts (place ++ way)) = false)
    (x : String × ByteArray) : x ∈ u.contents (ofParts place) ↔
      x ∈ contentsOf texts := by
  obtain ⟨path, content⟩ := x
  obtain ⟨entries, hdir⟩ := h.dir
  rw [contentsOf, List.mem_map]
  constructor
  · intro hmem
    obtain ⟨way, leaf, hway, hleaf, rfl, hcontent⟩ := (Store.mem_contents h.sound hdir).mp hmem
    by_cases hreport : ∃ y ∈ texts, way = [y.1]
    · obtain ⟨y, hy, rfl⟩ := hreport
      obtain ⟨hname, hup⟩ := hnames y hy
      rw [h.sound.read_concat hdir hname hup (h.reports y hy)] at hcontent
      cases hcontent
      exact ⟨y, hy, by rw [String.intercalate_singleton]⟩
    · have hno := hothers way leaf hway hleaf fun y hy he => hreport ⟨y, hy, he⟩
      rw [Store.isFile_of_read hcontent] at hno
      cases hno
  · rintro ⟨y, hy, he⟩
    cases he
    obtain ⟨hname, hup⟩ := hnames y hy
    exact Store.mem_contents_of_file h.sound hdir hname hup (h.reports y hy)

end GoAtlas.Report
