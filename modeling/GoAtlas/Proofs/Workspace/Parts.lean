import GoAtlas.Path
import Mathlib.Data.List.Basic

namespace GoAtlas

theorem Text.splitWhere_eq_splitOnP {α : Type} (p : α → Bool) (l : List α) :
    Text.splitWhere p l = l.splitOnP p := by
  induction l with
  | nil => rfl
  | cons a l ih =>
    rw [splitWhere, List.splitOnP_cons_eq_if_modifyHead, ih]
    split
    · rfl
    · cases h : l.splitOnP p with
      | nil => exact (List.splitOnP_ne_nil p l h).elim
      | cons => rfl

namespace Path

variable {n : String} {ns ms : List String}

/-- A name that can stand between two slashes of a path. -/
structure IsPart (n : String) : Prop where
  ne_empty : n ≠ ""
  ne_dot : n ≠ "."
  no_slash : '/' ∉ n.toList

instance (n : String) : Decidable (IsPart n) :=
  decidable_of_iff (n ≠ "" ∧ n ≠ "." ∧ '/' ∉ n.toList)
    ⟨fun h => ⟨h.1, h.2.1, h.2.2⟩, fun h => ⟨h.ne_empty, h.ne_dot, h.no_slash⟩⟩

theorem parts_eq (p : String) :
    parts p = ((p.toList.splitOn '/').map String.ofList).filter fun s => s != "" && s != "." := by
  simp only [parts, Text.splitAt, Text.splitWhere_eq_splitOnP, List.splitOn_eq_splitOnP]

theorem no_slash_of_mem_splitOn {l piece : List Char} (h : piece ∈ l.splitOn '/') :
    '/' ∉ piece := by
  induction l generalizing piece with
  | nil => simp_all
  | cons c l ih =>
    rw [List.splitOn_cons_eq_if_modifyHead] at h
    split at h
    · rcases List.mem_cons.mp h with rfl | h
      · simp
      · exact ih h
    · next hc =>
      cases hs : l.splitOn '/' with
      | nil => simp [hs] at h
      | cons first more =>
        rw [hs] at h ih
        rcases List.mem_cons.mp h with rfl | h
        · simpa [Ne.symm (by simpa using hc : c ≠ '/')] using ih List.mem_cons_self
        · exact ih (List.mem_cons_of_mem first h)

theorem isPart_of_mem_parts {p : String} (h : n ∈ parts p) : IsPart n := by
  rw [parts_eq, List.mem_filter] at h
  obtain ⟨piece, hp, rfl⟩ := List.mem_map.mp h.1
  have hne : String.ofList piece ≠ "" ∧ String.ofList piece ≠ "." := by simpa using h.2
  exact ⟨hne.1, hne.2, by simpa using no_slash_of_mem_splitOn hp⟩

theorem toList_ofParts (ns : List String) :
    (ofParts ns).toList = '/' :: ['/'].intercalate (ns.map String.toList) := by
  simp [ofParts]

theorem parts_ofParts (h : ∀ n ∈ ns, IsPart n) : parts (ofParts ns) = ns := by
  have hslash : (ofParts ns).toList.splitOn '/' =
      [] :: (['/'].intercalate (ns.map String.toList)).splitOn '/' := by
    rw [toList_ofParts]
    exact List.splitOn_append_cons_self [] _
  have hkeep : ns.filter (fun s => s != "" && s != ".") = ns :=
    List.filter_eq_self.mpr fun n hn => by simp [(h n hn).ne_empty, (h n hn).ne_dot]
  rw [parts_eq, hslash]
  cases ns with
  | nil => simp
  | cons m ms =>
    rw [List.splitOn_intercalate '/' _ (by simp)]
    · simpa using hkeep
    · intro l hl
      obtain ⟨n, hn, rfl⟩ := List.mem_map.mp hl
      exact (h n hn).no_slash

theorem ofParts_inj (h : ∀ n ∈ ns, IsPart n) (h' : ∀ n ∈ ms, IsPart n)
    (he : ofParts ns = ofParts ms) : ns = ms := by
  rw [← parts_ofParts h, he, parts_ofParts h']

theorem not_finishesWith_slash (hn : IsPart n) (ns : List String) :
    Text.finishesWith (ofParts (ns ++ [n])) "/" = false := by
  obtain ⟨l, c, hl⟩ := List.eq_nil_or_concat n.toList |>.resolve_left fun he =>
    hn.ne_empty (String.toList_inj.mp (by simpa using he))
  rw [List.concat_eq_append] at hl
  have hc : '/' ≠ c := fun he => hn.no_slash (by rw [hl, he]; simp)
  obtain ⟨before, hb⟩ : ∃ before, (ofParts (ns ++ [n])).toList = before ++ [c] := by
    rw [ofParts, String.toList_append]
    cases ns with
    | nil => exact ⟨['/'] ++ l, by simp [hl]⟩
    | cons m ms =>
      rw [String.intercalate_append_of_ne_nil (by simp) (by simp), String.intercalate_singleton]
      simp only [String.toList_append, hl, ← List.append_assoc]
      exact ⟨_, rfl⟩
  simp [Text.finishesWith, hb, List.isSuffixOf, List.isPrefixOf, hc]

theorem not_isPrefixOf_intercalate (h : ∀ m ∈ ms, IsPart m) :
    ['/'].isPrefixOf (['/'].intercalate (ms.map String.toList)) = false := by
  cases ms with
  | nil => rfl
  | cons m ms =>
    have hm := h m List.mem_cons_self
    cases hl : m.toList with
    | nil => exact (hm.ne_empty (String.toList_inj.mp (by simpa using hl))).elim
    | cons c l =>
      have hc : '/' ≠ c := fun he => hm.no_slash (by rw [hl, he]; exact List.mem_cons_self)
      cases ms <;> simp [hl, List.intercalate, List.isPrefixOf, hc]

theorem not_isAbsolute_intercalate (h : ∀ m ∈ ms, IsPart m) :
    isAbsolute ("/".intercalate ms) = false := by
  simpa [isAbsolute, Text.beginsWith] using not_isPrefixOf_intercalate h

theorem join_intercalate (h : ∀ m ∈ ns, IsPart m) (h' : ∀ m ∈ ms, IsPart m) (hne : ms ≠ []) :
    join (ofParts ns) ("/".intercalate ms) = ofParts (ns ++ ms) := by
  have hbase : ofParts ns ≠ "" := fun he => by
    have := congrArg String.toList he
    simp [toList_ofParts] at this
  rw [join, if_neg (by simp [not_isAbsolute_intercalate h'])]
  rcases List.eq_nil_or_concat ns with rfl | ⟨before, n, hns⟩
  · simp [ofParts, Text.finishesWith]
  · rw [List.concat_eq_append] at hns
    subst hns
    rw [if_neg (by simp [hbase, not_finishesWith_slash (h n (by simp)) before])]
    rw [ofParts, ofParts, String.intercalate_append_of_ne_nil (m := ms) (by simp) hne]
    simp [String.append_assoc]

theorem join_ofParts (hn : IsPart n) (h : ∀ m ∈ ns, IsPart m) :
    join (ofParts ns) n = ofParts (ns ++ [n]) := by
  have hjoin : join (ofParts ns) ("/".intercalate [n]) = ofParts (ns ++ [n]) :=
    join_intercalate h (by simpa using hn) (by simp)
  rwa [String.intercalate_singleton] at hjoin

theorem foldl_join_ofParts (h : ∀ m ∈ ns, IsPart m) (h' : ∀ m ∈ ms, IsPart m) :
    ms.foldl join (ofParts ns) = ofParts (ns ++ ms) := by
  induction ms generalizing ns with
  | nil => simp
  | cons m ms ih =>
    have hm : IsPart m := h' m List.mem_cons_self
    rw [List.foldl_cons, join_ofParts hm h, ih ?_ fun k hk => h' k (List.mem_cons_of_mem m hk)]
    · simp
    · intro k hk
      rcases List.mem_append.mp hk with hk | hk
      · exact h k hk
      · rwa [List.mem_singleton.mp hk]

theorem anchor_ofParts (h : ∀ m ∈ ns, IsPart m) : anchor (ofParts ns) = "/" := by
  have hone : Text.beginsWith (ofParts ns) "/" = true := by
    simp [Text.beginsWith, toList_ofParts]
  have htwo : Text.beginsWith (ofParts ns) "//" = false := by
    rw [Text.beginsWith, toList_ofParts]
    exact not_isPrefixOf_intercalate h
  simp [anchor, hone, htwo]

theorem afterPrefix?_append (ns ms : List String) : afterPrefix? ns (ns ++ ms) = some ms := by
  induction ns with
  | nil => rfl
  | cons n ns ih => simpa [afterPrefix?] using ih

theorem eq_append_of_afterPrefix? {as bs ms : List String} (h : afterPrefix? as bs = some ms) :
    bs = as ++ ms := by
  fun_induction afterPrefix? as bs with
  | case1 bs =>
    cases h
    rfl
  | case2 a as bs ih => rw [ih h, List.cons_append]
  | case3 a as b bs hne => cases h
  | case4 a as => cases h

theorem below?_ofParts (h : ∀ m ∈ ns, IsPart m) (h' : ∀ m ∈ ms, IsPart m) :
    below? (ofParts ns) (ofParts (ns ++ ms)) = some ms := by
  have hall : ∀ m ∈ ns ++ ms, IsPart m := fun m hm => (List.mem_append.mp hm).elim (h m) (h' m)
  rw [below?, anchor_ofParts h, anchor_ofParts hall, if_pos rfl, parts_ofParts h,
    parts_ofParts hall, afterPrefix?_append]

variable {a b : String}

theorem parts_append_slash (a b : String) : parts (a ++ "/" ++ b) = parts a ++ parts b := by
  have hlist : (a ++ "/" ++ b).toList = a.toList ++ '/' :: b.toList := by simp
  simp only [parts_eq, hlist, List.splitOn_append_cons_self, List.map_append, List.filter_append]

theorem parts_slash (p : String) : parts ("/" ++ p) = parts p := by
  have h := parts_append_slash "" p
  have hnone : parts "" = [] := by simp [parts_eq]
  rwa [String.empty_append, hnone, List.nil_append] at h

theorem parts_intercalate (h : ∀ n ∈ ns, IsPart n) : parts ("/".intercalate ns) = ns := by
  rw [← parts_slash]
  exact parts_ofParts h

theorem parts_of_isPart (h : IsPart n) : parts n = [n] := by
  have hsplit : n.toList.splitOn '/' = [n.toList] := by
    rw [List.splitOn_eq_splitOnP]
    exact List.splitOnP_eq_singleton fun c hc => by
      simpa using fun he : c = '/' => h.no_slash (he ▸ hc)
  simp [parts_eq, hsplit, h.ne_empty, h.ne_dot]

theorem parts_join (hb : isAbsolute b = false) : parts (join a b) = parts a ++ parts b := by
  rw [join, if_neg (by simp [hb])]
  split
  · next hend =>
    simp only [Bool.or_eq_true, decide_eq_true_eq] at hend
    rcases hend with rfl | hend
    · simp [parts_eq]
    · have hsuffix : ['/'] <:+ a.toList := by
        simpa [Text.finishesWith, List.isSuffixOf_iff_suffix] using hend
      obtain ⟨before, hbefore⟩ := hsuffix
      obtain rfl : String.ofList before ++ "/" = a := String.toList_inj.mp (by simp [hbefore])
      have hempty := parts_append_slash (String.ofList before) ""
      have hnone : parts "" = [] := by simp [parts_eq]
      rw [String.append_empty, hnone, List.append_nil] at hempty
      rw [parts_append_slash, hempty]
  · exact parts_append_slash a b

theorem not_isAbsolute_of_isPart (h : IsPart n) : isAbsolute n = false := by
  have hone : isAbsolute ("/".intercalate [n]) = false :=
    not_isAbsolute_intercalate (by simpa using h)
  rwa [String.intercalate_singleton] at hone

theorem isAbsolute_join (hb : isAbsolute b = false) : isAbsolute (join a b) = isAbsolute a := by
  rw [join, if_neg (by simp [hb])]
  by_cases ha : a = ""
  · subst ha
    have hempty : isAbsolute "" = false := by decide
    simp [hb, hempty]
  · obtain ⟨c, rest, hlist⟩ := List.exists_cons_of_ne_nil (l := a.toList) (by simpa using ha)
    split <;> simp [isAbsolute, Text.beginsWith, hlist, List.isPrefixOf]

theorem join_of_isAbsolute (hb : isAbsolute b = true) : join a b = b := by
  rw [join, if_pos hb]

/-- Names that are left after going up were there before. -/
theorem mem_collapse {before : List String} (h : n ∈ collapse true before ns) : n ∈ before ∨ n ∈ ns := by
  fun_induction collapse true before ns with
  | case1 before => exact .inl (List.mem_reverse.mp h)
  | case2 rest ih => exact .inr (List.mem_cons_of_mem _ ((ih h).resolve_left List.not_mem_nil))
  | case3 rest more ih =>
    obtain hn | hn := ih h
    · exact (List.mem_cons.mp hn).elim (fun he => .inr (he ▸ List.mem_cons_self)) .inl
    · exact .inr (List.mem_cons_of_mem _ hn)
  | case4 rest name more hne ih =>
    exact (ih h).imp (List.mem_cons_of_mem name) (List.mem_cons_of_mem _)
  | case5 before name rest hne ih =>
    obtain hn | hn := ih h
    · exact (List.mem_cons.mp hn).elim (fun he => .inr (he ▸ List.mem_cons_self)) .inl
    · exact .inr (List.mem_cons_of_mem _ hn)

theorem up_not_mem_collapse {before : List String} (h : ".." ∉ before) : ".." ∉ collapse true before ns := by
  fun_induction collapse true before ns with
  | case1 before => exact fun hmem => h (List.mem_reverse.mp hmem)
  | case2 rest ih => exact ih List.not_mem_nil
  | case3 rest more ih => exact (h List.mem_cons_self).elim
  | case4 rest name more hne ih => exact ih fun hmem => h (List.mem_cons_of_mem name hmem)
  | case5 before name rest hne ih =>
    exact ih fun hmem => (List.mem_cons.mp hmem).elim (fun he => hne he.symm) h

end Path

end GoAtlas
