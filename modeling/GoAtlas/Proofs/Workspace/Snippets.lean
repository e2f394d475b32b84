import GoAtlas.Workspace.Model
import GoAtlas.Proofs.Source.Lines
import Mathlib

namespace GoAtlas

namespace Source

/-- The bytes from an offset on up to the next line feed, or to the end. -/
def untilFeed (bytes : List UInt8) (offset : Nat) : List UInt8 :=
  (bytes.drop offset).takeWhile (· != 0x0A)

end Source

namespace SourceFile

open Source

variable {a b current : List UInt8}

theorem contentLines_append_feed (current a b : List UInt8) :
    contentLines current (a ++ 0x0A :: b) = contentLines current a ++ contentLines [] b := by
  induction a generalizing current with
  | nil => rfl
  | cons x a ih =>
    rw [List.cons_append, contentLines, contentLines]
    split
    · rw [ih, List.cons_append]
    · exact ih (x :: current)

theorem length_contentLines (current l : List UInt8) :
    (contentLines current l).length = l.count 0x0A + 1 := by
  induction l generalizing current with
  | nil => rfl
  | cons x l ih =>
    rw [contentLines, List.count_cons]
    split
    · next hx => simp [hx, ih]
    · next hx => simp [hx, ih]

theorem head?_contentLines (current l : List UInt8) :
    (contentLines current l)[0]? = some (current.reverse ++ l.takeWhile (· != 0x0A)) := by
  induction l generalizing current with
  | nil => simp [contentLines]
  | cons x l ih =>
    rw [contentLines]
    split
    · next hx => simp [hx]
    · next hx =>
      rw [ih, List.takeWhile_cons_of_pos (by simpa using hx)]
      simp

theorem getElem?_contentLines (a b : List UInt8) :
    (contentLines [] (a ++ b))[a.count 0x0A]? =
      some (a.rtakeWhile (· != 0x0A) ++ b.takeWhile (· != 0x0A)) := by
  induction a using List.reverseRecOn generalizing b with
  | nil => exact head?_contentLines [] b
  | append_singleton a x ih =>
    rw [List.append_assoc, List.singleton_append, List.count_append]
    by_cases hx : x = 0x0A
    · -- the line feed ends the lines of the bytes before it, and a new line starts
      subst hx
      have hlength := length_contentLines [] a
      rw [contentLines_append_feed, List.count_singleton_self, ← hlength,
        List.getElem?_append_right le_rfl, Nat.sub_self, head?_contentLines,
        List.rtakeWhile_concat_neg _ _ _ (by decide)]
      rfl
    · rw [List.count_singleton, if_neg (by simpa using hx), Nat.add_zero, ih,
        List.rtakeWhile_concat_pos _ _ _ (by simpa using hx),
        List.takeWhile_cons_of_pos (by simpa using hx), List.append_assoc, List.singleton_append]

theorem getElem?_line (content : ByteArray) (offset : Nat) :
    (contentLines [] content.toList)[feedsBefore content.toList offset]? =
      some (sinceFeed content.toList offset ++ untilFeed content.toList offset) := by
  have hline := getElem?_contentLines (content.toList.take offset) (content.toList.drop offset)
  rwa [List.take_append_drop] at hline

theorem lineText_of_getElem? {f : SourceFile} {n : Nat} {bytes : List UInt8}
    (h : (contentLines [] f.content.toList)[n]? = some bytes) :
    f.lineText (1 + n) = Text.strip (Text.Utf8.decode (ByteArray.mk bytes.toArray)) := by
  have hindex : (1 + n - 1 : Int).toNat = n := by omega
  rw [lineText, if_neg (by omega), hindex, h]

/-- The line of an offset is one of the content's, and its text is that of the bytes around the offset
that no line feed parts from it. -/
theorem lineText_place (r : Registry) (f : SourceFile) (hf : f.slot = (r.add f.path f.content).1)
    (offset : Nat) (h : offset ≤ f.content.size) :
    1 ≤ (f.place offset).line ∧
      (f.place offset).line ≤ (contentLines [] f.content.toList).length ∧
      f.lineText (f.place offset).line = Text.strip (Text.Utf8.decode (ByteArray.mk
        (sinceFeed f.content.toList offset ++ untilFeed f.content.toList offset).toArray)) := by
  have hstarts : f.slot.lineStarts = lineStarts f.content := by
    rw [hf]
    rfl
  have hplace : (f.place offset).line = 1 + feedsBefore f.content.toList offset := by
    rw [place, Slot.place_eq hstarts h]
  have hline := getElem?_line f.content offset
  have hlt := (List.getElem?_eq_some_iff.mp hline).1
  rw [hplace]
  exact ⟨by omega, by omega, lineText_of_getElem? hline⟩

/-- Three lines: a letter, a blank with a byte that is no character, and nothing. -/
def malformed : SourceFile :=
  let content : ByteArray := ⟨#[0x61, 0x0A, 0x20, 0xFF, 0x0A]⟩
  { path := "/ws/a.go", content, tree := default, slot := (({} : Registry).add "/ws/a.go" content).1 }

/-- An offset on a line feed is on the line that it ends, and one at the end on a line of its own. -/
theorem lineText_place_malformed : 5 ≤ malformed.content.size ∧
    malformed.lineText (malformed.place 4).line = "\uFFFD" ∧
    malformed.lineText (malformed.place 5).line = "" := by
  have hend : 5 ≤ malformed.content.size := by decide
  have hfeed := (lineText_place {} malformed rfl 4 (Nat.le_of_lt hend)).2.2
  have hlast := (lineText_place {} malformed rfl 5 hend).2.2
  exact ⟨hend, hfeed.trans (by cbv), hlast.trans (by cbv)⟩

end SourceFile

end GoAtlas
