import GoAtlas.Proofs.Source.Slots
import GoAtlas.Proofs.Syntax.Words
import Mathlib.Data.List.DropRight
import Mathlib.Data.List.Forall2
import Mathlib.Data.Prod.Lex

namespace GoAtlas.Source

def feedsBefore (bytes : List UInt8) (offset : Nat) : Nat :=
  (bytes.take offset).count 0x0A

/-- The bytes before an offset back to the last line feed, or to the start. -/
def sinceFeed (bytes : List UInt8) (offset : Nat) : List UInt8 :=
  (bytes.take offset).rtakeWhile (· != 0x0A)

variable {l : List UInt8} {k n : Nat}

theorem startsFrom_append (k : Nat) (l m : List UInt8) :
    startsFrom k (l ++ m) = startsFrom k l ++ startsFrom (k + l.length) m := by
  induction l generalizing k with
  | nil => rfl
  | cons b l ih =>
    have hlength : k + (b :: l).length = k + 1 + l.length := by
      rw [List.length_cons]
      omega
    rw [List.cons_append, startsFrom, startsFrom, ih, hlength]
    split <;> rfl

theorem length_startsFrom (k : Nat) (l : List UInt8) :
    (startsFrom k l).length = l.count 0x0A := by
  induction l generalizing k with
  | nil => rfl
  | cons b l ih =>
    rw [startsFrom, List.count_cons]
    split
    · next hb => simp [hb, ih]
    · next hb => simp [hb, ih]

theorem mem_startsFrom (h : n ∈ startsFrom k l) : k < n ∧ n ≤ k + l.length := by
  induction l generalizing k with
  | nil => cases h
  | cons b l ih =>
    have hrest : n ∈ startsFrom (k + 1) l → k < n ∧ n ≤ k + (b :: l).length := by
      intro hn
      have := ih hn
      rw [List.length_cons]
      omega
    rw [startsFrom] at h
    split at h
    · rcases List.mem_cons.mp h with rfl | hn
      · rw [List.length_cons]
        omega
      · exact hrest hn
    · exact hrest h

theorem getLast?_startsFrom (k : Nat) (l : List UInt8) :
    ∃ n, (k :: startsFrom k l).getLast? = some n ∧
      n + (l.rtakeWhile (· != 0x0A)).length = k + l.length := by
  induction l using List.reverseRecOn with
  | nil => exact ⟨k, rfl, rfl⟩
  | append_singleton l b ih =>
    obtain ⟨n, hlast, hn⟩ := ih
    rw [startsFrom_append, startsFrom, List.length_append, List.length_singleton]
    by_cases hb : b = 0x0A
    · rw [if_pos hb, List.rtakeWhile_concat_neg _ _ _ (by simp [hb])]
      exact ⟨k + l.length + 1, by rw [← List.cons_append, startsFrom, List.getLast?_concat], rfl⟩
    · rw [if_neg hb, List.rtakeWhile_concat_pos _ _ _ (by simp [hb])]
      have hmore : n + (l.rtakeWhile (· != 0x0A) ++ [b]).length = k + (l.length + 1) := by
        rw [List.length_append, List.length_singleton]
        omega
      exact ⟨n, by rwa [startsFrom, List.append_nil], hmore⟩

theorem lineStarts_eq (content : ByteArray) {offset : Nat} (h : offset ≤ content.size) :
    lineStarts content = (0 :: startsFrom 0 (content.toList.take offset)) ++
      startsFrom offset (content.toList.drop offset) := by
  have hlength : (content.toList.take offset).length = offset := by
    rw [List.length_take, Text.length_toList]
    omega
  have happend := startsFrom_append 0 (content.toList.take offset) (content.toList.drop offset)
  rw [List.take_append_drop, hlength, Nat.zero_add] at happend
  rw [lineStarts, happend, List.cons_append]

theorem le_of_mem_starts {bytes : List UInt8} {offset : Nat}
    (h : n ∈ 0 :: startsFrom 0 (bytes.take offset)) : n ≤ offset := by
  rcases List.mem_cons.mp h with rfl | h
  · exact Nat.zero_le offset
  · have := (mem_startsFrom h).2
    have := List.length_take_le offset bytes
    omega

namespace Slot

variable {s : Slot} {content : ByteArray} {offset : Nat} {a b : Int}

theorem startsUpTo_eq (hs : s.lineStarts = Source.lineStarts content) (h : offset ≤ content.size) :
    s.startsUpTo offset = 0 :: startsFrom 0 (content.toList.take offset) := by
  have hafter : (startsFrom offset (content.toList.drop offset)).takeWhile
      (fun n : Nat => decide ((n : Int) ≤ offset)) = [] := by
    apply List.takeWhile_eq_nil_iff.mpr
    intro hlength
    have := (mem_startsFrom (List.get_mem _ ⟨0, hlength⟩)).1
    simp only [decide_eq_true_eq]
    omega
  rw [startsUpTo, hs, lineStarts_eq content h, List.takeWhile_append_of_pos, hafter, List.append_nil]
  intro n hn
  have := le_of_mem_starts hn
  simp only [decide_eq_true_eq]
  omega

theorem divides_lineStarts (hs : s.lineStarts = Source.lineStarts content)
    (h : offset ≤ content.size) :
    (∀ n ∈ s.lineStarts.take (s.startsUpTo offset).length, n ≤ offset) ∧
      ∀ n ∈ s.lineStarts.drop (s.startsUpTo offset).length, offset < n := by
  rw [startsUpTo_eq hs h, hs, lineStarts_eq content h, List.take_left, List.drop_left]
  constructor
  · intro n hn
    exact le_of_mem_starts hn
  · intro n hn
    exact (mem_startsFrom hn).1

theorem place_eq (hs : s.lineStarts = Source.lineStarts content) (h : offset ≤ content.size) :
    s.place offset = ⟨s.file, offset, 1 + feedsBefore content.toList offset,
      1 + (sinceFeed content.toList offset).length⟩ := by
  obtain ⟨start, hlast, hstart⟩ := getLast?_startsFrom 0 (content.toList.take offset)
  have hlength : (content.toList.take offset).length = offset := by
    rw [List.length_take, Text.length_toList]
    omega
  rw [hlength] at hstart
  rw [place, startsUpTo_eq hs h, List.isEmpty_cons, if_neg Bool.false_ne_true, hlast,
    List.length_cons, length_startsFrom]
  have hline : ((feedsBefore content.toList offset + 1 : Nat) : Int) =
      1 + feedsBefore content.toList offset := by
    omega
  have hcolumn : (offset : Int) - start + 1 = 1 + (sinceFeed content.toList offset).length := by
    rw [sinceFeed]
    omega
  exact congrArg₂ (Place.mk s.file offset) hline hcolumn

theorem startsUpTo_prefix (s : Slot) (h : a ≤ b) : s.startsUpTo a <+: s.startsUpTo b := by
  obtain ⟨rest, hrest⟩ : s.startsUpTo a <+: s.lineStarts := List.takeWhile_prefix _
  have hupTo : s.startsUpTo b = (s.startsUpTo a ++ rest).takeWhile fun n : Nat => (n : Int) ≤ b := by
    rw [hrest]
    rfl
  rw [hupTo, List.takeWhile_append_of_pos]
  · exact List.prefix_append _ _
  · intro n hn
    have := List.mem_takeWhile_imp hn
    simp only [decide_eq_true_eq] at this ⊢
    omega

theorem place_lt (s : Slot) (h : a < b) :
    toLex ((s.place a).line, (s.place a).column) < toLex ((s.place b).line, (s.place b).column) := by
  have hprefix := s.startsUpTo_prefix h.le
  rw [Prod.Lex.toLex_lt_toLex]
  rcases hprefix.length_le.lt_or_eq with hless | hsame
  · left
    exact Int.ofNat_lt.mpr hless
  · have hstarts := hprefix.eq_of_length hsame
    right
    simp only [place, hstarts, true_and]
    omega

end Slot

/-- What a slot and its registry say about the offsets of a file, up to its end. -/
structure Places (r : Registry) (s : Slot) (file : String) (content : ByteArray) : Prop where
  place : ∀ o : Nat, o ≤ content.size → s.place o = ⟨file, o, 1 + feedsBefore content.toList o,
    1 + (sinceFeed content.toList o).length⟩
  /-- The line is found by a search in the line starts: those up to the offset come first. -/
  divides : ∀ o : Nat, o ≤ content.size →
    (∀ n ∈ s.lineStarts.take (s.place o).line.toNat, n ≤ o) ∧
      ∀ n ∈ s.lineStarts.drop (s.place o).line.toNat, o < n
  increasing : ∀ o o' : Nat, o < o' → o' ≤ content.size →
    toLex ((s.place o).line, (s.place o).column) < toLex ((s.place o').line, (s.place o').column)
  determined : ∀ o o' : Nat, o ≤ content.size → o' ≤ content.size →
    (s.place o).line = (s.place o').line → (s.place o).column = (s.place o').column → o = o'
  registered : ∀ o : Nat, o ≤ content.size →
    ∃ p, s.pos o = .ok p ∧ r.place? p = some (s.place o)

namespace Registry

variable {r : Registry}

theorem slots_of_register (r : Registry) (files : List (String × ByteArray)) :
    List.Forall₂ (fun f s => s ∈ (r.register files).2.slots ∧ s.file = f.1 ∧
      s.size = f.2.size ∧ s.lineStarts = lineStarts f.2) files (r.register files).1 := by
  induction files generalizing r with
  | nil => exact .nil
  | cons f files ih =>
    obtain ⟨file, content⟩ := f
    rw [register_cons]
    apply List.Forall₂.cons
    · have hmem : r.slotFor file content ∈ (r.add file content).2.slots := by
        simp [Registry.add]
      rw [slots_register]
      exact ⟨List.mem_append_left _ hmem, rfl, rfl, rfl⟩
    · exact ih (r.add file content).2

theorem Ordered.places (h : r.Ordered) {s : Slot} {file : String} {content : ByteArray}
    (hmem : s ∈ r.slots) (hfile : s.file = file) (hsize : s.size = content.size)
    (hs : s.lineStarts = lineStarts content) : Places r s file content where
  place o ho := hfile ▸ Slot.place_eq hs ho
  divides o ho := Slot.divides_lineStarts hs ho
  increasing o o' hlt _ := s.place_lt (Int.ofNat_lt.mpr hlt)
  determined o o' _ _ hline hcolumn := Int.ofNat.inj (Slot.place_inj hline hcolumn)
  registered o ho := by
    have ho : o ≤ s.size := hsize ▸ ho
    refine ⟨s.base + o, Slot.pos_eq_ok (Int.natCast_nonneg o) (Int.ofNat_le.mpr ho), ?_⟩
    have hback : (s.base + o : Int) - s.base = o := by omega
    rw [place?, h.slot? hmem ho, Option.map_some, hback]

theorem register_places (files : List (String × ByteArray)) :
    List.Forall₂ (fun f s => Places (({} : Registry).register files).2 s f.1 f.2) files
      (({} : Registry).register files).1 := by
  have hordered := ordered_empty.register files
  apply List.Forall₂.imp _ (slots_of_register {} files)
  intro f s h
  exact hordered.places h.1 h.2.1 h.2.2.1 h.2.2.2

end Registry

end GoAtlas.Source
