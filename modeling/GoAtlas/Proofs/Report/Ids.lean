import GoAtlas.Report.Id
import Mathlib

namespace GoAtlas.Report

theorem append_cases {a a' x x' : String} (h : a ++ x = a' ++ x') :
    (∃ b, a' = a ++ b ∧ x = b ++ x') ∨ ∃ b, a = a' ++ b ∧ x' = b ++ x := by
  have hcase : ∀ {a a' x x' : String} {b : List Char}, a'.toList = a.toList ++ b →
      x.toList = b ++ x'.toList → ∃ b, a' = a ++ b ∧ x = b ++ x' := by
    intro a a' x x' b ha hx
    refine ⟨String.ofList b, String.toList_inj.mp ?_, String.toList_inj.mp ?_⟩
    · simpa using ha
    · simpa using hx
  have hlist : a.toList ++ x.toList = a'.toList ++ x'.toList := by
    simpa using congrArg String.toList h
  rcases List.append_eq_append_iff.mp hlist with ⟨b, ha, hx⟩ | ⟨b, ha, hx⟩
  · exact .inl (hcase ha hx)
  · exact .inr (hcase ha hx)

def isNumeral (c : Char) : Bool :=
  c.isDigit || c = '-'

theorem isNumeral_of_mem {n : Int} {c : Char} (h : c ∈ (toString n).toList) : isNumeral c = true := by
  rw [Int.toString_eq_repr, Int.repr_eq_if] at h
  have hdigits : ∀ m : Nat, c ∈ m.repr.toList → isNumeral c = true := by
    intro m hc
    rw [Nat.repr_eq_ofList_toDigits, String.toList_ofList] at hc
    simp [isNumeral, Nat.isDigit_of_mem_toDigits (by omega) (by omega) hc]
  split at h
  · exact hdigits _ h
  · rw [String.toList_append, List.mem_append] at h
    rcases h with h | h
    · have hc : c = '-' := by simpa using h
      rw [hc]
      decide
    · exact hdigits _ h

theorem append_cons_inj {x x' d d' : List Char} {m m' : Char} (hd : ∀ c ∈ d, isNumeral c = true)
    (hd' : ∀ c ∈ d', isNumeral c = true) (hm : isNumeral m = false) (hm' : isNumeral m' = false)
    (h : x ++ m :: d = x' ++ m' :: d') : x = x' ∧ m = m' ∧ d = d' := by
  rcases List.append_eq_append_iff.mp h with ⟨a, rfl, ha⟩ | ⟨a, rfl, ha⟩
  · cases a with
    | nil =>
      obtain ⟨rfl, rfl⟩ := List.cons.inj ha
      exact ⟨by simp, rfl, rfl⟩
    | cons b a =>
      obtain ⟨-, rfl⟩ := List.cons.inj ha
      simp [hd m' (by simp)] at hm'
  · cases a with
    | nil =>
      obtain ⟨rfl, rfl⟩ := List.cons.inj ha
      exact ⟨by simp, rfl, rfl⟩
    | cons b a =>
      obtain ⟨-, rfl⟩ := List.cons.inj ha
      simp [hd' m (by simp)] at hm

theorem append_placeText_inj {x x' : String} {line line' column column' : Int}
    (h : x ++ placeText line column = x' ++ placeText line' column') :
    x = x' ∧ line = line' ∧ column = column' := by
  have hlist : (x.toList ++ '@' :: 'L' :: (toString line).toList ++ [':']) ++
        'C' :: (toString column).toList =
      (x'.toList ++ '@' :: 'L' :: (toString line').toList ++ [':']) ++
        'C' :: (toString column').toList := by
    simpa [placeText] using congrArg String.toList h
  obtain ⟨hfirst, -, hcolumn⟩ := append_cons_inj (fun _ => isNumeral_of_mem)
    (fun _ => isNumeral_of_mem) (by decide) (by decide) hlist
  have hlist : (x.toList ++ ['@']) ++ 'L' :: (toString line).toList =
      (x'.toList ++ ['@']) ++ 'L' :: (toString line').toList := by
    simpa using (List.append_inj' hfirst rfl).1
  obtain ⟨hfirst, -, hline⟩ := append_cons_inj (fun _ => isNumeral_of_mem)
    (fun _ => isNumeral_of_mem) (by decide) (by decide) hlist
  refine ⟨String.toList_inj.mp (List.append_inj' hfirst rfl).1, ?_, ?_⟩
  · exact Int.repr_inj.mp (String.toList_inj.mp (by simpa using hline))
  · exact Int.repr_inj.mp (String.toList_inj.mp (by simpa using hcolumn))

/-- A text that ends with a place, and has another place with a colon behind it inside, has the one
behind the other. -/
theorem placeText_after {x x' b : String} {line line' column column' : Int}
    (h : x' ++ placeText line' column' = x ++ placeText line column ++ ":" ++ b) :
    ∃ z, x' = x ++ placeText line column ++ ":" ++ z ∧ b = z ++ placeText line' column' := by
  have hlist : x'.toList ++ (placeText line' column').toList =
      ((x ++ placeText line column).toList ++ [':']) ++ b.toList := by
    simpa using congrArg String.toList h
  rcases List.append_eq_append_iff.mp hlist with ⟨a, ha, hb⟩ | ⟨a, ha, hb⟩
  · rcases List.eq_nil_or_concat a with rfl | ⟨a, c, hc⟩
    · exact ⟨"", String.toList_inj.mp (by simpa using ha.symm), String.toList_inj.mp (by simpa using hb.symm)⟩
    -- the place behind would have to reach over the colon, which its own number does not allow
    · rw [List.concat_eq_append] at hc
      subst hc
      rw [← List.append_assoc] at ha
      obtain ⟨hx, hc⟩ := List.append_inj' ha rfl
      obtain rfl : ':' = c := by simpa using hc
      have hcolon : ∀ n : Int, ':' ∉ (toString n).toList := fun n hmem => by
        simpa [isNumeral] using isNumeral_of_mem hmem
      have hplace : a ++ ':' :: b.toList =
          ('@' :: 'L' :: (toString line').toList) ++ ':' :: 'C' :: (toString column').toList := by
        simpa [placeText] using hb.symm
      obtain ⟨rfl, -, -⟩ := (List.append_cons_inj_of_notMem (by simpa using hcolon line')
        (by simpa using hcolon column')).mp hplace.symm
      have hlist : (x.toList ++ '@' :: 'L' :: (toString line).toList ++ [':']) ++
          'C' :: (toString column).toList =
            (x'.toList ++ ['@']) ++ 'L' :: (toString line').toList := by
        simpa [placeText] using hx
      obtain ⟨-, hletter, -⟩ := append_cons_inj (fun _ => isNumeral_of_mem)
        (fun _ => isNumeral_of_mem) (by decide) (by decide) hlist
      cases hletter
  · refine ⟨String.ofList a, String.toList_inj.mp ?_, String.toList_inj.mp ?_⟩
    · simpa using ha
    · simpa using hb

theorem append_colon_cases {a a' s s' : String} (h : a ++ ":" ++ s = a' ++ ":" ++ s') :
    (a = a' ∧ s = s') ∨ (∃ b, a' = a ++ ":" ++ b ∧ s = b ++ ":" ++ s') ∨
      ∃ b, a = a' ++ ":" ++ b ∧ s' = b ++ ":" ++ s := by
  have hcase : ∀ {a a' s s' b : String}, a' = a ++ b → ":" ++ s = b ++ (":" ++ s') →
      (a = a' ∧ s = s') ∨ ∃ b, a' = a ++ ":" ++ b ∧ s = b ++ ":" ++ s' := by
    intro a a' s s' b ha hs
    have hlist : ':' :: s.toList = b.toList ++ ':' :: s'.toList := by
      simpa using congrArg String.toList hs
    cases hb : b.toList with
    | nil =>
      obtain rfl : b = "" := String.toList_inj.mp hb
      exact .inl ⟨by simp [ha], String.toList_inj.mp (by simpa using hlist)⟩
    | cons c more =>
      rw [hb] at hlist
      obtain ⟨rfl, hs⟩ := List.cons.inj hlist
      have hb : b = ":" ++ String.ofList more := String.toList_inj.mp (by simpa using hb)
      refine .inr ⟨String.ofList more, by rw [ha, hb, String.append_assoc], ?_⟩
      exact String.toList_inj.mp (by simpa using hs)
  rw [String.append_assoc, String.append_assoc] at h
  rcases append_cases h with ⟨b, ha, hs⟩ | ⟨b, ha, hs⟩
  · exact (hcase ha hs).imp_right .inl
  · exact (hcase ha hs).imp (fun ⟨ha, hs⟩ => ⟨ha.symm, hs.symm⟩) .inr

variable {path path' : String} {line line' column column' : Int}

theorem symbolId_eq (path package name : String) (line column : Int) :
    symbolId path package name line column =
      "sym:" ++ (path ++ "::" ++ package ++ "." ++ name) ++ placeText line column := by
  simp [symbolId, String.append_assoc]

theorem symbolId_eq_iff {package package' name name' : String} :
    symbolId path package name line column = symbolId path' package' name' line' column' ↔
      line = line' ∧ column = column' ∧
        path ++ "::" ++ package ++ "." ++ name = path' ++ "::" ++ package' ++ "." ++ name' := by
  rw [symbolId_eq, symbolId_eq]
  constructor
  · intro h
    obtain ⟨htext, hline, hcolumn⟩ := append_placeText_inj h
    exact ⟨hline, hcolumn, (String.append_right_inj "sym:").mp htext⟩
  · rintro ⟨rfl, rfl, h⟩
    rw [h]

theorem diagnosticId_eq (kind path : String) (line column : Int) (subject : String) :
    diagnosticId kind path line column subject =
      "diag:" ++ kind ++ ":" ++ (path ++ placeText line column ++ ":" ++ normalizeExpr subject) := by
  simp [diagnosticId, String.append_assoc]

/-- A path goes on with the place behind another, where the subject there goes on to the rest of the
path and the place behind it. -/
def Overruns (path : String) (line column : Int) (subject path' : String) (line' column' : Int)
    (subject' : String) : Prop :=
  ∃ z, path' = path ++ placeText line column ++ ":" ++ z ∧
    normalizeExpr subject = z ++ placeText line' column' ++ ":" ++ normalizeExpr subject'

theorem Overruns.eq {subject subject' : String}
    (h : Overruns path line column subject path' line' column' subject') :
    path ++ placeText line column ++ ":" ++ normalizeExpr subject =
      path' ++ placeText line' column' ++ ":" ++ normalizeExpr subject' := by
  obtain ⟨z, hpath, hsubject⟩ := h
  simp [hpath, hsubject, String.append_assoc]

theorem diagnosticId_eq_iff {kind subject subject' : String} :
    diagnosticId kind path line column subject = diagnosticId kind path' line' column' subject' ↔
      (path = path' ∧ line = line' ∧ column = column' ∧
          normalizeExpr subject = normalizeExpr subject') ∨
        Overruns path line column subject path' line' column' subject' ∨
        Overruns path' line' column' subject' path line column subject := by
  rw [diagnosticId_eq, diagnosticId_eq, String.append_right_inj]
  constructor
  · intro h
    rcases append_colon_cases h with ⟨htext, hsubject⟩ | ⟨b, htext, hsubject⟩ | ⟨b, htext, hsubject⟩
    · obtain ⟨hpath, hline, hcolumn⟩ := append_placeText_inj htext
      exact .inl ⟨hpath, hline, hcolumn, hsubject⟩
    · obtain ⟨z, hpath, rfl⟩ := placeText_after htext
      exact .inr (.inl ⟨z, hpath, hsubject⟩)
    · obtain ⟨z, hpath, rfl⟩ := placeText_after htext
      exact .inr (.inr ⟨z, hpath, hsubject⟩)
  · rintro (⟨rfl, rfl, rfl, h⟩ | h | h)
    · rw [h]
    · exact h.eq
    · exact h.eq.symm

end GoAtlas.Report
