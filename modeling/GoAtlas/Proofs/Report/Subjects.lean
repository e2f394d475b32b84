import GoAtlas.Report.Id
import Mathlib.Data.List.DropRight
import Mathlib.Data.List.Basic

namespace GoAtlas

namespace Text

/-- The code points of white space: the characters with the property `White_Space`, and the four
separators from U+001C on. -/
def whiteSpace : List Nat :=
  [0x09, 0x0A, 0x0B, 0x0C, 0x0D, 0x1C, 0x1D, 0x1E, 0x1F, 0x20, 0x85, 0xA0, 0x1680, 0x2000, 0x2001,
    0x2002, 0x2003, 0x2004, 0x2005, 0x2006, 0x2007, 0x2008, 0x2009, 0x200A, 0x2028, 0x2029, 0x202F,
    0x205F, 0x3000]

def IsSpace (c : Char) : Prop :=
  c.toNat ∈ whiteSpace

/-- A text with the longest stretches without white space in it, in their order. -/
inductive Chunks : List Char → List (List Char) → Prop
  | none {gap : List Char} (hgap : ∀ c ∈ gap, IsSpace c) : Chunks gap []
  | next {gap chunk r : List Char} {chunks : List (List Char)} (hgap : ∀ c ∈ gap, IsSpace c)
      (hne : chunk ≠ []) (hchunk : ∀ c ∈ chunk, ¬ IsSpace c) (hend : ∀ c ∈ r.head?, IsSpace c)
      (hrest : Chunks r chunks) : Chunks (gap ++ (chunk ++ r)) (chunk :: chunks)

variable {c : Char} {l r gap chunk : List Char} {chunks : List (List Char)}

theorem isBlank_iff : isBlank c = true ↔ IsSpace c := by
  simp only [isBlank, CharSet.contains, blanks, List.any_cons, List.any_nil, Bool.or_eq_true,
    Bool.false_eq_true, Run.contains_iff, Nat.mod_one, IsSpace, whiteSpace, List.mem_cons,
    List.not_mem_nil, or_false, and_true]
  omega

theorem isBlank_eq_false_iff : isBlank c = false ↔ ¬ IsSpace c := by
  rw [← isBlank_iff, Bool.not_eq_true]

def chunksOf (l : List Char) : List (List Char) :=
  (l.splitOnP isBlank).filter (!·.isEmpty)

theorem chunksOf_append_blank (hc : isBlank c = true) (l r : List Char) :
    chunksOf (l ++ c :: r) = chunksOf l ++ chunksOf r := by
  rw [chunksOf, List.splitOnP_append_cons l r hc, List.filter_append]
  rfl

theorem chunksOf_cons_blank (hc : isBlank c = true) (r : List Char) :
    chunksOf (c :: r) = chunksOf r :=
  chunksOf_append_blank hc [] r

theorem chunksOf_gap_append (hgap : ∀ c ∈ gap, isBlank c = true) (r : List Char) :
    chunksOf (gap ++ r) = chunksOf r := by
  induction gap with
  | nil => rfl
  | cons c gap ih =>
    rw [List.cons_append, chunksOf_cons_blank (hgap c List.mem_cons_self)]
    exact ih fun d hd => hgap d (List.mem_cons_of_mem c hd)

theorem chunksOf_append_gap (hgap : ∀ c ∈ gap, isBlank c = true) (l : List Char) :
    chunksOf (l ++ gap) = chunksOf l := by
  cases gap with
  | nil => rw [List.append_nil]
  | cons c gap =>
    have hrest := chunksOf_gap_append (fun d hd => hgap d (List.mem_cons_of_mem c hd)) []
    rw [List.append_nil] at hrest
    rw [chunksOf_append_blank (hgap c List.mem_cons_self), hrest]
    exact List.append_nil _

theorem chunksOf_chunk (hne : chunk ≠ []) (hchunk : ∀ c ∈ chunk, isBlank c = false) :
    chunksOf chunk = [chunk] := by
  rw [chunksOf, List.splitOnP_eq_singleton hchunk]
  simp [hne]

theorem chunksOf_of_chunks (h : Chunks l chunks) : chunksOf l = chunks := by
  induction h with
  | none hgap => exact chunksOf_append_gap (fun c hc => isBlank_iff.mpr (hgap c hc)) []
  | @next gap chunk r chunks hgap hne hchunk hend _ ih =>
    have hchunk : ∀ c ∈ chunk, isBlank c = false := fun c hc =>
      isBlank_eq_false_iff.mpr (hchunk c hc)
    rw [chunksOf_gap_append fun c hc => isBlank_iff.mpr (hgap c hc), ← ih]
    cases r with
    | nil =>
      rw [List.append_nil, chunksOf_chunk hne hchunk]
      rfl
    | cons c r =>
      have hc : isBlank c = true := isBlank_iff.mpr (hend c rfl)
      rw [chunksOf_append_blank hc, chunksOf_chunk hne hchunk, chunksOf_cons_blank hc]
      rfl

theorem exists_stretch (p : Char → Bool) (l : List Char) : ∃ front rest, l = front ++ rest ∧
    (∀ c ∈ front, p c = true) ∧ ∀ c ∈ rest.head?, p c = false := by
  refine ⟨l.takeWhile p, l.dropWhile p, List.takeWhile_append_dropWhile.symm,
    fun c hc => List.mem_takeWhile_imp hc, fun c hc => ?_⟩
  have hhead := List.head?_dropWhile_not p l
  rwa [Option.mem_def.mp hc] at hhead

theorem exists_chunks (l : List Char) : ∃ chunks, Chunks l chunks := by
  obtain ⟨gap, rest, rfl, hgap, hrest⟩ := exists_stretch isBlank l
  have hgap : ∀ c ∈ gap, IsSpace c := fun c hc => isBlank_iff.mp (hgap c hc)
  cases rest with
  | nil => exact ⟨[], by simpa using Chunks.none hgap⟩
  | cons d rest =>
    obtain ⟨chunk, r, hsplit, hchunk, hend⟩ := exists_stretch (!isBlank ·) (d :: rest)
    have hne : chunk ≠ [] := by
      rintro rfl
      have hblank := hend d (by rw [← List.nil_append r, ← hsplit]; rfl)
      simp [hrest d rfl] at hblank
    rw [hsplit]
    obtain ⟨chunks, hchunks⟩ := exists_chunks r
    refine ⟨chunk :: chunks, .next hgap hne (fun c hc => ?_) (fun c hc => ?_) hchunks⟩
    · exact isBlank_eq_false_iff.mp (by simpa using hchunk c hc)
    · exact isBlank_iff.mp (by simpa using hend c hc)
termination_by l.length
decreasing_by
  have := List.length_pos_of_ne_nil hne
  simp only [*, List.length_append]
  omega

theorem chunks_iff : Chunks l chunks ↔ chunks = chunksOf l := by
  constructor
  · intro h
    exact (chunksOf_of_chunks h).symm
  · rintro rfl
    obtain ⟨chunks, h⟩ := exists_chunks l
    rwa [chunksOf_of_chunks h]

theorem mem_chunksOf (h : chunk ∈ chunksOf l) : chunk ≠ [] ∧ ∀ c ∈ chunk, isBlank c = false := by
  have hchunks : Chunks l (chunksOf l) := chunks_iff.mpr rfl
  generalize chunksOf l = chunks at h hchunks
  induction hchunks with
  | none => cases h
  | next _ hne hchunk _ _ ih =>
    rcases List.mem_cons.mp h with rfl | h
    · exact ⟨hne, fun c hc => isBlank_eq_false_iff.mpr (hchunk c hc)⟩
    · exact ih h

theorem chunksOf_trimBoth (l : List Char) : chunksOf (trimBoth isBlank l) = chunksOf l := by
  have hfront : chunksOf (l.takeWhile isBlank ++ l.dropWhile isBlank) =
      chunksOf (l.dropWhile isBlank) :=
    chunksOf_gap_append (fun c hc => List.mem_takeWhile_imp hc) _
  have hback : chunksOf ((l.dropWhile isBlank).rdropWhile isBlank ++
      (l.dropWhile isBlank).rtakeWhile isBlank) = chunksOf (trimBoth isBlank l) :=
    chunksOf_append_gap (fun c hc => List.mem_rtakeWhile_imp hc) _
  rw [List.takeWhile_append_dropWhile] at hfront
  rw [List.rdropWhile_append_rtakeWhile] at hback
  exact hback.symm.trans hfront.symm

/-- What is trimmed does not begin with a blank and does not end in one. -/
structure Trimmed (l : List Char) : Prop where
  head : ∀ c ∈ l.head?, isBlank c = false
  last : ∀ c ∈ l.getLast?, isBlank c = false

theorem trimmed_trimBoth (l : List Char) : Trimmed (trimBoth isBlank l) where
  head c hc := by
    have hhead := List.head?_dropWhile_not isBlank l
    obtain ⟨rest, hrest⟩ : trimBoth isBlank l <+: l.dropWhile isBlank :=
      List.rdropWhile_prefix isBlank _
    rwa [← hrest, List.head?_append, Option.mem_def.mp hc] at hhead
  last c hc := by
    obtain ⟨hne, rfl⟩ := List.mem_getLast?_eq_getLast hc
    exact Bool.eq_false_iff.mpr (List.rdropWhile_last_not isBlank (l.dropWhile isBlank) hne)

theorem collapse_chunk_append (hne : chunk ≠ []) (hchunk : ∀ c ∈ chunk, isBlank c = false)
    (within : Bool) (r : List Char) : collapse within (chunk ++ r) = chunk ++ collapse false r := by
  induction chunk generalizing within with
  | nil => exact (hne rfl).elim
  | cons c chunk ih =>
    have hc := hchunk c List.mem_cons_self
    rw [List.cons_append, collapse, if_neg (by simp [hc]), List.cons_append]
    by_cases hnil : chunk = []
    · rw [hnil]
      rfl
    · rw [ih hnil fun d hd => hchunk d (List.mem_cons_of_mem c hd)]

theorem collapse_gap_append (hgap : ∀ c ∈ gap, isBlank c = true) (r : List Char) :
    collapse true (gap ++ r) = collapse true r := by
  induction gap with
  | nil => rfl
  | cons c gap ih =>
    rw [List.cons_append, collapse, if_pos (hgap c List.mem_cons_self), if_pos rfl]
    exact ih fun d hd => hgap d (List.mem_cons_of_mem c hd)

theorem eq_nil_of_chunks (h : Chunks l []) (hlast : ∀ c ∈ l.getLast?, isBlank c = false) :
    l = [] := by
  cases h with
  | none hgap =>
    by_contra hne
    have hblank := isBlank_iff.mpr (hgap _ (List.getLast_mem hne))
    rw [hlast _ (List.getLast?_eq_some_getLast hne)] at hblank
    cases hblank

theorem collapse_of_chunks (h : Chunks l chunks) (hlast : ∀ c ∈ l.getLast?, isBlank c = false) :
    collapse true l = [' '].intercalate chunks := by
  induction h with
  | none hgap =>
    rw [eq_nil_of_chunks (.none hgap) hlast]
    rfl
  | @next gap chunk r chunks hgap hne hchunk hend hrest ih =>
    have hchunk : ∀ c ∈ chunk, isBlank c = false := fun c hc =>
      isBlank_eq_false_iff.mpr (hchunk c hc)
    rw [collapse_gap_append fun c hc => isBlank_iff.mpr (hgap c hc), collapse_chunk_append hne hchunk]
    cases r with
    | nil =>
      obtain rfl : [] = chunks := chunksOf_of_chunks hrest
      rw [collapse, List.append_nil, List.intercalate_singleton]
    | cons c r =>
      have hc : isBlank c = true := isBlank_iff.mpr (hend c rfl)
      have hlast : ∀ d ∈ (c :: r).getLast?, isBlank d = false := by
        simpa using hlast
      have hmore : chunks ≠ [] := by
        rintro rfl
        cases eq_nil_of_chunks hrest hlast
      obtain ⟨first, more, rfl⟩ := List.exists_cons_of_ne_nil hmore
      have hbegun : collapse true (c :: r) = collapse true r := by
        rw [collapse, if_pos hc, if_pos rfl]
      rw [collapse, if_pos hc, if_neg Bool.false_ne_true, ← hbegun, ih hlast,
        List.intercalate_cons_cons, List.append_assoc]
      rfl

theorem Trimmed.collapse_eq (h : Trimmed l) : collapse false l = [' '].intercalate (chunksOf l) := by
  rw [← collapse_of_chunks (chunks_iff.mpr rfl) h.last]
  cases l with
  | nil => rfl
  | cons c r =>
    have hc := h.head c rfl
    rw [collapse, collapse, if_neg (by simp [hc]), if_neg (by simp [hc])]

theorem chunksOf_intercalate
    (h : ∀ chunk ∈ chunks, chunk ≠ [] ∧ ∀ c ∈ chunk, isBlank c = false) :
    chunksOf ([' '].intercalate chunks) = chunks := by
  induction chunks with
  | nil => rfl
  | cons chunk chunks ih =>
    obtain ⟨hne, hchunk⟩ := h chunk List.mem_cons_self
    cases chunks with
    | nil => rw [List.intercalate_singleton, chunksOf_chunk hne hchunk]
    | cons next more =>
      rw [List.intercalate_cons_cons, List.append_assoc, List.singleton_append,
        chunksOf_append_blank (by rfl), chunksOf_chunk hne hchunk,
        ih fun d hd => h d (List.mem_cons_of_mem chunk hd)]
      rfl

end Text

namespace Report

open Text

variable {s t : String}

theorem toList_normalizeExpr (s : String) :
    (normalizeExpr s).toList = [' '].intercalate (chunksOf s.toList) := by
  rw [normalizeExpr, strip, stripWith, String.toList_ofList, String.toList_ofList,
    (trimmed_trimBoth s.toList).collapse_eq, chunksOf_trimBoth]

theorem chunksOf_normalizeExpr (s : String) : chunksOf (normalizeExpr s).toList = chunksOf s.toList := by
  rw [toList_normalizeExpr, chunksOf_intercalate fun _ => mem_chunksOf]

theorem normalizeExpr_eq_iff :
    normalizeExpr s = normalizeExpr t ↔ chunksOf s.toList = chunksOf t.toList := by
  constructor
  · intro h
    rw [← chunksOf_normalizeExpr s, h, chunksOf_normalizeExpr]
  · intro h
    rw [← String.toList_inj, toList_normalizeExpr, toList_normalizeExpr, h]

/-- A normalised subject is its chunks, which any text has in one way only, joined by single spaces.
It is left as it is by doing so again, and two subjects come out the same, and give the same
identifier at one place, exactly if they have the same chunks. -/
theorem normalizeExpr_canonical (s : String) :
    (∃ chunks, Chunks s.toList chunks ∧ (∀ chunks', Chunks s.toList chunks' → chunks' = chunks) ∧
      normalizeExpr s = " ".intercalate (chunks.map String.ofList)) ∧
    normalizeExpr (normalizeExpr s) = normalizeExpr s ∧
    (∀ t, normalizeExpr s = normalizeExpr t ↔
      ∃ chunks, Chunks s.toList chunks ∧ Chunks t.toList chunks) ∧
    ∀ kind path line column t,
      diagnosticId kind path line column s = diagnosticId kind path line column t ↔
        ∃ chunks, Chunks s.toList chunks ∧ Chunks t.toList chunks := by
  have hsame (t : String) : normalizeExpr s = normalizeExpr t ↔
      ∃ chunks, Chunks s.toList chunks ∧ Chunks t.toList chunks := by
    rw [normalizeExpr_eq_iff]
    simp only [chunks_iff, exists_eq_left]
  refine ⟨⟨chunksOf s.toList, chunks_iff.mpr rfl, fun _ => chunks_iff.mp, ?_⟩, ?_, hsame, ?_⟩
  · rw [← String.toList_inj, toList_normalizeExpr, String.toList_intercalate, List.map_map]
    simp
  · exact normalizeExpr_eq_iff.mpr (chunksOf_normalizeExpr s)
  · intro kind path line column t
    rw [← hsame, diagnosticId, diagnosticId, String.append_right_inj]

example : normalizeExpr "\u00A0compute(1,\n\t\t2) " = "compute(1, 2)" := by
  decide +kernel

end Report

end GoAtlas
