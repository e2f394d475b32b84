import GoAtlas.Syntax.Lexer
import GoAtlas.Text.Blank
import Mathlib.Data.List.Basic

namespace GoAtlas.Text

theorem toList_loop (bytes : ByteArray) (i : Nat) (r : List UInt8) :
    ByteArray.toList.loop bytes i r = r.reverse ++ bytes.data.toList.drop i := by
  fun_induction ByteArray.toList.loop bytes i r with
  | case1 i r hlt ih =>
    have hlt : i < bytes.data.toList.length := hlt
    have hget : bytes.get! i = bytes.data.toList[i] := by
      simpa [ByteArray.get!] using getElem!_pos bytes.data i hlt
    rw [ih, List.drop_eq_getElem_cons hlt, ← hget]
    simp
  | case2 i r hge => rw [List.drop_eq_nil_of_le (by simpa using hge), List.append_nil]

theorem toList_eq (bytes : ByteArray) : bytes.toList = bytes.data.toList := by
  simp [ByteArray.toList, toList_loop]

theorem length_toList (bytes : ByteArray) : bytes.toList.length = bytes.size := by
  rw [toList_eq]
  rfl

theorem toList_extract (bytes : ByteArray) (a b : Nat) :
    (bytes.extract a b).toList = (bytes.toList.drop a).take (b - a) := by
  rw [toList_eq, toList_eq, ByteArray.data_extract, Array.toList_extract]

namespace Utf8

variable {b s t u : UInt8} {rest used : List UInt8} {c : Char}

/-- A first byte and those after it spell a character, whatever follows them. -/
structure Spells (b : UInt8) (used : List UInt8) (c : Char) : Prop where
  size : used.length + 1 = c.utf8Size
  step : ∀ more, step b (used ++ more) = (some c, more)

/-- Every byte belongs to a piece, so that there is a character for it. -/
theorem decode_ne_empty {bytes : ByteArray} (h : 0 < bytes.size) : decode bytes ≠ "" := by
  intro he
  have hpieces : pieces bytes.toList = [] := by
    simpa [decode, decodeBytes] using congrArg String.toList he
  cases hb : bytes.toList with
  | nil => simp [← length_toList, hb] at h
  | cons b rest =>
    rw [hb, pieces] at hpieces
    cases hpieces

theorem utf8Size_ofNat {n : Nat} (h : n.isValidChar) :
    (Char.ofNat n).utf8Size =
      if n ≤ 0x7F then 1 else if n ≤ 0x7FF then 2 else if n ≤ 0xFFFF then 3 else 4 := by
  have hval : (Char.ofNat n).val.toNat = n := by
    rw [Char.ofNat, dif_pos h]
    rfl
  simp [Char.utf8Size, UInt32.le_iff_toNat_le, hval]

theorem isTail_iff : isTail s = true ↔ 0x80 ≤ s.toNat ∧ s.toNat ≤ 0xBF := by
  simp [isTail, UInt8.le_iff_toNat_le]

theorem isSecond_bounds (h : isSecond b s = true) :
    0x80 ≤ s.toNat ∧ s.toNat ≤ 0xBF ∧ (b.toNat = 0xE0 → 0xA0 ≤ s.toNat) ∧
      (b.toNat = 0xED → s.toNat ≤ 0x9F) ∧ (b.toNat = 0xF0 → 0x90 ≤ s.toNat) ∧
      (b.toNat = 0xF4 → s.toNat ≤ 0x8F) := by
  simp only [isSecond, secondBounds, Bool.and_eq_true, decide_eq_true_eq, UInt8.le_iff_toNat_le,
    ← UInt8.toNat_inj, UInt8.reduceToNat] at h
  repeat' split at h
  all_goals simp only [UInt8.reduceToNat] at h
  all_goals omega

theorem spells_one (hb : b < 0x80) : Spells b [] (Char.ofNat b.toNat) := by
  refine ⟨?_, fun more => by simp [step, hb]⟩
  have hb : b.toNat < 0x80 := by simpa [UInt8.lt_iff_toNat_lt] using hb
  rw [utf8Size_ofNat (.inl (by omega)), if_pos (by omega)]
  rfl

theorem spells_two (hb : ¬ b < 0x80) (hb₂ : (0xC2 ≤ b && b ≤ 0xDF) = true) (hs : isTail s = true) :
    Spells b [s] (Char.ofNat (push (b.toNat % 32) s)) := by
  refine ⟨?_, fun more => by simp [step, hb, hb₂, hs]⟩
  simp only [Bool.and_eq_true, decide_eq_true_eq, UInt8.le_iff_toNat_le, UInt8.reduceToNat] at hb₂
  have hs := isTail_iff.mp hs
  have hvalid : (push (b.toNat % 32) s).isValidChar := by
    unfold Nat.isValidChar push
    omega
  rw [utf8Size_ofNat hvalid]
  unfold push
  rw [if_neg (by omega), if_pos (by omega)]
  rfl

theorem spells_three (hb : ¬ b < 0x80) (hb₂ : ¬ (0xC2 ≤ b && b ≤ 0xDF) = true)
    (hb₃ : (0xE0 ≤ b && b ≤ 0xEF) = true) (hs : isSecond b s = true) (ht : isTail t = true) :
    Spells b [s, t] (Char.ofNat (push (push (b.toNat % 16) s) t)) := by
  refine ⟨?_, fun more => by simp [step, hb, hb₂, hb₃, hs, ht]⟩
  simp only [Bool.and_eq_true, decide_eq_true_eq, UInt8.le_iff_toNat_le, UInt8.reduceToNat] at hb₃
  have hs := isSecond_bounds hs
  have ht := isTail_iff.mp ht
  have hvalid : (push (push (b.toNat % 16) s) t).isValidChar := by
    unfold Nat.isValidChar push
    omega
  rw [utf8Size_ofNat hvalid]
  unfold push
  rw [if_neg (by omega), if_neg (by omega), if_pos (by omega)]
  rfl

theorem spells_four (hb : ¬ b < 0x80) (hb₂ : ¬ (0xC2 ≤ b && b ≤ 0xDF) = true)
    (hb₃ : ¬ (0xE0 ≤ b && b ≤ 0xEF) = true) (hb₄ : (0xF0 ≤ b && b ≤ 0xF4) = true)
    (hs : isSecond b s = true) (ht : isTail t = true) (hu : isTail u = true) :
    Spells b [s, t, u] (Char.ofNat (push (push (push (b.toNat % 8) s) t) u)) := by
  refine ⟨?_, fun more => by simp [step, hb, hb₂, hb₃, hb₄, hs, ht, hu]⟩
  simp only [Bool.and_eq_true, decide_eq_true_eq, UInt8.le_iff_toNat_le, UInt8.reduceToNat] at hb₄
  have hs := isSecond_bounds hs
  have ht := isTail_iff.mp ht
  have hu := isTail_iff.mp hu
  have hvalid : (push (push (push (b.toNat % 8) s) t) u).isValidChar := by
    unfold Nat.isValidChar push
    omega
  rw [utf8Size_ofNat hvalid]
  unfold push
  rw [if_neg (by omega), if_neg (by omega), if_neg (by omega)]
  rfl

theorem exists_spells (h : (step b rest).1 = some c) :
    ∃ used, Spells b used c ∧ rest = used ++ (step b rest).2 := by
  have hused : ∀ {used more : List UInt8}, Spells b used c → rest = used ++ more →
      ∃ used, Spells b used c ∧ rest = used ++ (step b rest).2 := by
    rintro used more hspells rfl
    exact ⟨used, hspells, by rw [hspells.step]⟩
  unfold step at h
  repeat' split at h
  all_goals try cases h
  · next hb => exact hused (spells_one hb) rfl
  · next hb hb₂ _ s r hs => exact hused (spells_two hb hb₂ hs) rfl
  · next hb hb₂ hb₃ _ s t r hs ht =>
    exact hused (spells_three hb hb₂ hb₃ (by simpa using hs) ht) rfl
  · next hb hb₂ hb₃ hb₄ _ s t u r hs ht hu =>
    exact hused (spells_four hb hb₂ hb₃ hb₄ (by simpa using hs) (by simpa using ht) hu) rfl

end Utf8

def isWordChar (c : Char) : Bool :=
  c == '_' || isLetter c || c.isDigit

def IsWord (s : String) : Prop :=
  ∀ c ∈ s.toList, isWordChar c = true

def wordRuns : CharSet :=
  ⟨0x30, 0x39, 1⟩ :: ⟨0x5F, 0x5F, 1⟩ :: letters

theorem wordRuns_apart : ∀ r ∈ wordRuns, ∀ q ∈ blanks, r.last < q.first ∨ q.last < r.first := by
  decide +kernel

theorem exists_wordRun {c : Char} (h : isWordChar c = true) :
    ∃ r ∈ wordRuns, r.first ≤ c.toNat ∧ c.toNat ≤ r.last := by
  have hletter : ∀ r ∈ letters, r ∈ wordRuns :=
    fun r hr => List.mem_cons_of_mem _ (List.mem_cons_of_mem _ hr)
  simp only [isWordChar, isLetter, Bool.or_eq_true, beq_iff_eq, Char.isDigit_iff_toNat] at h
  rcases h with (rfl | h) | h
  · exact ⟨⟨0x5F, 0x5F, 1⟩, by simp [wordRuns], by decide⟩
  · split at h
    · have h : (decide (c.val ≥ 'A'.val ∧ c.val ≤ 'Z'.val) ||
          decide (c.val ≥ 'a'.val) && decide (c.val ≤ 'z'.val)) = true := h
      simp only [Bool.or_eq_true, Bool.and_eq_true, decide_eq_true_eq, ge_iff_le,
        UInt32.le_iff_toNat_le] at h
      rcases h with h | h
      · exact ⟨⟨0x41, 0x5A, 1⟩, hletter _ List.mem_cons_self, h⟩
      · exact ⟨⟨0x61, 0x7A, 1⟩, hletter _ (List.mem_cons_of_mem _ List.mem_cons_self), h⟩
    · obtain ⟨r, hr, hc⟩ := CharSet.contains_iff.mp h
      obtain ⟨hfirst, hlast, -⟩ := Run.contains_iff.mp hc
      exact ⟨r, hletter r hr, hfirst, hlast⟩
  · exact ⟨⟨0x30, 0x39, 1⟩, by simp [wordRuns], h⟩

theorem not_isBlank_of_isWordChar {c : Char} (h : isWordChar c = true) : isBlank c = false := by
  by_contra hblank
  obtain ⟨q, hq, hc⟩ := CharSet.contains_iff.mp (Bool.of_not_eq_false hblank)
  obtain ⟨hfirst, hlast, -⟩ := Run.contains_iff.mp hc
  obtain ⟨r, hr, hfirst', hlast'⟩ := exists_wordRun h
  have := wordRuns_apart r hr q hq
  omega

end GoAtlas.Text

namespace GoAtlas.Syntax.Lexer

open GoAtlas.Text

theorem pieces_wordLength (first : Bool) (bytes : List UInt8) :
    ∀ p ∈ Utf8.pieces (bytes.take (wordLength first bytes)),
      ∃ c, p = some c ∧ isWordChar c = true := by
  fun_induction wordLength first bytes with
  | case1 => simp [Utf8.pieces]
  | case2 first b rest c hc hword ih =>
    obtain ⟨used, hspells, hrest⟩ := Utf8.exists_spells hc
    generalize (Utf8.step b rest).2 = more at *
    have htake : (b :: rest).take (c.utf8Size + wordLength false more) =
        b :: (used ++ more.take (wordLength false more)) := by
      rw [← hspells.size, Nat.add_right_comm, List.take_succ_cons, hrest,
        List.take_length_add_append]
    rw [htake, Utf8.pieces, hspells.step]
    refine List.forall_mem_cons.mpr ⟨⟨c, rfl, ?_⟩, ih⟩
    simp only [Bool.or_eq_true, Bool.and_eq_true] at hword
    simp only [isWordChar, Bool.or_eq_true]
    exact hword.imp_right And.right
  | case3 => simp [Utf8.pieces]
  | case4 => simp [Utf8.pieces]

theorem isWord_wordLength (first : Bool) (bytes : List UInt8) :
    IsWord (Utf8.decodeBytes (bytes.take (wordLength first bytes))) := by
  intro c hc
  rw [Utf8.decodeBytes, String.toList_ofList] at hc
  obtain ⟨p, hp, rfl⟩ := List.mem_map.mp hc
  obtain ⟨c, rfl, hword⟩ := pieces_wordLength first bytes p hp
  exact hword

theorem class_hexLength {r : List UInt8} {x : TokenClass × Nat} (h : hexLength r = some x) :
    x.1 ≠ .name := by
  unfold hexLength at h
  dsimp only at h
  repeat' split at h
  all_goals cases h
  all_goals simp

theorem class_decimalLength {bytes : List UInt8} {x : TokenClass × Nat}
    (h : decimalLength bytes = some x) : x.1 ≠ .name := by
  unfold decimalLength at h
  dsimp only at h
  repeat' split at h
  all_goals cases h
  all_goals simp

theorem class_numberLength {bytes : List UInt8} {x : TokenClass × Nat}
    (h : numberLength bytes = some x) : x.1 ≠ .name := by
  obtain ⟨⟨cls, n⟩, hplain, rfl⟩ := Option.map_eq_some_iff.mp h
  have hcls : cls ≠ .name := by
    repeat' split at hplain
    · obtain ⟨y, hy, he⟩ := Option.map_eq_some_iff.mp hplain
      cases he
      exact class_hexLength hy
    · cases hplain
    · cases hplain
      simp
    · cases hplain
    · cases hplain
      simp
    · exact class_decimalLength hplain
    · exact class_decimalLength hplain
  dsimp only
  split
  · simp
  · exact hcls

theorem isWord_of_item? {bytes : List UInt8} {n : Nat} {ps : List (Kind × Nat)}
    (h : item? bytes = some (.token .name n ps)) : IsWord (Utf8.decodeBytes (bytes.take n)) := by
  unfold item? at h
  repeat' split at h
  all_goals try cases h
  case h_2.refl hn =>
    rw [Nat.succ_eq_add_one] at hn
    rw [← hn]
    exact isWord_wordLength true _
  -- all other items are of classes of their own
  all_goals
    obtain ⟨x, hx, he⟩ := Option.map_eq_some_iff.mp h
    try cases he
  exact (class_numberLength hx (Item.token.inj he).1).elim

end GoAtlas.Syntax.Lexer
