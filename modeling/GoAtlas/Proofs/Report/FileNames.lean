import GoAtlas.Proofs.Workspace.Shown

namespace GoAtlas.Path

variable {cwd root p n : String} {ns ms before down : List String}

/-- An absolute path that is its own normal form; it may start with two slashes. -/
structure IsNormal (p : String) : Prop where
  absolute : isAbsolute p = true
  normal : normalize p = p

theorem isPart_of_mem_collapse (h : n ∈ collapse true [] (parts p)) : IsPart n :=
  isPart_of_mem_parts ((mem_collapse h).resolve_left List.not_mem_nil)

theorem IsNormal.exists_lead (h : IsNormal p) :
    ∃ lead, (lead = "" ∨ lead = "/") ∧ anchor p = lead ++ "/" ∧ p = lead ++ ofParts (parts p) ∧
      collapse true [] (parts p) = parts p := by
  have hspelled := h.normal
  rw [normalize, if_pos h.absolute, h.absolute] at hspelled
  have hparts : ∀ n ∈ collapse true [] (parts p), IsPart n := fun n => isPart_of_mem_collapse
  split at hspelled
  · next htwo =>
    have hsame : collapse true [] (parts p) = parts p := by
      rw [← parts_ofParts hparts, ← parts_slash, hspelled]
    exact ⟨"/", .inr rfl, if_pos htwo, by rw [← hsame, hspelled], hsame⟩
  · next hone =>
    rw [String.empty_append] at hspelled
    have hsame : collapse true [] (parts p) = parts p := by
      rw [← parts_ofParts hparts, hspelled]
    refine ⟨"", .inl rfl, ?_, by rw [← hsame, String.empty_append, hspelled], hsame⟩
    rw [anchor, if_neg hone]
    exact if_pos h.absolute

theorem IsNormal.collapse_eq (h : IsNormal p) : collapse true [] (parts p) = parts p := by
  obtain ⟨lead, -, -, -, hsame⟩ := h.exists_lead
  exact hsame

/-- A path in normal form is known by what it starts with and by its parts. -/
theorem IsNormal.ext (hp : IsNormal p) (hroot : IsNormal root) (hanchor : anchor p = anchor root)
    (hparts : parts p = parts root) : p = root := by
  obtain ⟨lead, -, hlead, hp, -⟩ := hp.exists_lead
  obtain ⟨lead', -, hlead', hroot, -⟩ := hroot.exists_lead
  rw [hlead, hlead', String.append_left_inj] at hanchor
  rw [hp, hroot, hanchor, hparts]

theorem join_append (lead : String) {base : String} (hbase : base ≠ "") (hp : isAbsolute p = false) :
    join (lead ++ base) p = lead ++ join base p := by
  have hne : lead ++ base ≠ "" := fun he => hbase (String.append_eq_empty_iff.mp he).2
  have hlast : Text.finishesWith (lead ++ base) "/" = Text.finishesWith base "/" := by
    obtain ⟨l, c, hl⟩ := (List.eq_nil_or_concat base.toList).resolve_left (by simpa using hbase)
    rw [List.concat_eq_append] at hl
    simp [Text.finishesWith, hl, List.isSuffixOf, List.isPrefixOf]
  rw [join, join, hp, hlast, decide_eq_false hne, decide_eq_false hbase, if_neg Bool.false_ne_true,
    if_neg Bool.false_ne_true]
  split <;> simp only [String.append_assoc]

/-- The way down from a path in normal form leads to the path with those parts more. -/
theorem IsNormal.join_intercalate (hroot : IsNormal root) (hp : IsNormal p)
    (hanchor : anchor p = anchor root) (hparts : parts p = parts root ++ down) (hne : down ≠ []) :
    join root ("/".intercalate down) = p := by
  obtain ⟨lead, -, hlead, hp, -⟩ := hp.exists_lead
  obtain ⟨lead', -, hlead', hroot, -⟩ := hroot.exists_lead
  rw [hlead, hlead', String.append_left_inj] at hanchor
  have hall : ∀ n ∈ parts root ++ down, IsPart n := fun n hn => isPart_of_mem_parts (hparts ▸ hn)
  have hdown : ∀ n ∈ down, IsPart n := fun n hn => hall n (List.mem_append_right _ hn)
  have hbase : ofParts (parts root) ≠ "" := fun he => by
    simpa [ofParts] using congrArg String.toList he
  have hjoin : join (ofParts (parts root)) ("/".intercalate down) = ofParts (parts root ++ down) :=
    Path.join_intercalate (fun n => isPart_of_mem_parts) hdown hne
  rw [hroot, join_append lead' hbase (not_isAbsolute_intercalate hdown), hjoin, hp, hparts, hanchor]

theorem afterCommon_snd_ne_nil {as bs : List String} (h : ¬bs <+: as) :
    (afterCommon as bs).2 ≠ [] := by
  fun_induction afterCommon as bs with
  | case1 a as bs ih => exact ih fun hstart => h (List.cons_prefix_cons.mpr ⟨rfl, hstart⟩)
  | case2 a as b bs hne => exact List.cons_ne_nil b bs
  | case3 as bs hnot =>
    rintro rfl
    exact h List.nil_prefix

theorem beginsWith_up (ns : List String) :
    Text.beginsWith ("/".intercalate (".." :: ns)) ".." = true := by
  cases ns <;> simp [Text.beginsWith, List.intercalate, List.isPrefixOf]

/-- The way down by some names, which is a dot where there are none. -/
def wayDown (down : List String) : String :=
  if down = [] then "." else "/".intercalate down

theorem not_isAbsolute_wayDown (h : ∀ n ∈ down, IsPart n) : isAbsolute (wayDown down) = false := by
  rw [wayDown]
  split
  · decide
  · exact not_isAbsolute_intercalate h

theorem parts_wayDown (h : ∀ n ∈ down, IsPart n) : parts (wayDown down) = down := by
  rw [wayDown]
  split
  · next hnil =>
    rw [hnil]
    decide
  · exact parts_intercalate h

theorem wayDown_ne_empty (h : ∀ n ∈ down, IsPart n) : wayDown down ≠ "" := by
  intro he
  have hparts := parts_wayDown h
  have hnone : parts "" = [] := by simp [parts_eq]
  rw [he, hnone] at hparts
  rw [← hparts] at he
  exact absurd he (by decide)

theorem shown_of_append (hp : absoluteParts cwd p = absoluteParts cwd root ++ down) (hne : p ≠ "") :
    shown cwd p root = if Text.beginsWith (wayDown down) ".." then p else wayDown down := by
  have hrelative : relative cwd p root = wayDown down := by
    rw [relative, hp, afterCommon_append]
    simp [wayDown]
  rw [shown, if_neg hne, hrelative]

theorem shown_of_not_prefix (h : ¬absoluteParts cwd root <+: absoluteParts cwd p) :
    shown cwd p root = p := by
  obtain ⟨n, up, hup⟩ := List.exists_cons_of_ne_nil (afterCommon_snd_ne_nil h)
  have hrelative : Text.beginsWith (relative cwd p root) ".." = true := by
    simp only [relative, hup, List.map_cons, List.cons_append, List.isEmpty_cons]
    exact beginsWith_up _
  rw [shown]
  split
  · rfl
  · exact if_pos hrelative

def IsBelow (root p : String) : Prop :=
  ∃ n down, below? root p = some (n :: down)

/-- What a file other than the root should be called: the way down from the root if it lies below it,
and its path if it does not. -/
def IsNameOf (root p name : String) : Prop :=
  (IsBelow root p → isAbsolute name = false ∧ join root name = p) ∧ (¬IsBelow root p → name = p)

theorem isBelow_iff : IsBelow root p ↔
    anchor p = anchor root ∧ ∃ down ≠ [], parts p = parts root ++ down := by
  constructor
  · rintro ⟨n, down, h⟩
    rw [below?] at h
    split at h
    · next hanchor => exact ⟨hanchor.symm, n :: down, by simp, eq_append_of_afterPrefix? h⟩
    · cases h
  · rintro ⟨hanchor, down, hne, hparts⟩
    obtain ⟨n, down, rfl⟩ := List.exists_cons_of_ne_nil hne
    exact ⟨n, down, by rw [below?, if_pos hanchor.symm, hparts, afterPrefix?_append]⟩

theorem absoluteParts_of_isNormal (h : IsNormal p) : absoluteParts cwd p = parts p := by
  rw [absoluteParts, join_of_isAbsolute h.absolute, h.collapse_eq]

/-- A path spelled with the parts of the root and more is called what it should be just if it starts
as the root does and does not go on with two dots, or neither. -/
theorem isNameOf_shown_of_append (hroot : IsNormal root) (hp : IsNormal p) (hne : p ≠ root)
    (hdown : parts p = parts root ++ down) :
    IsNameOf root p (shown cwd p root) ↔
      (anchor p = anchor root ↔ Text.beginsWith (wayDown down) ".." = false) := by
  have hall : ∀ n ∈ down, IsPart n := fun n hn =>
    isPart_of_mem_parts (hdown ▸ List.mem_append_right (parts root) hn)
  have hempty : p ≠ "" := by
    rintro rfl
    exact absurd hp.absolute (by decide)
  have hother : wayDown down ≠ p := by
    rintro rfl
    exact absurd hp.absolute (by simp [not_isAbsolute_wayDown hall])
  have hshown : shown cwd p root =
      if Text.beginsWith (wayDown down) ".." then p else wayDown down := by
    apply shown_of_append _ hempty
    rw [absoluteParts_of_isNormal hp, absoluteParts_of_isNormal hroot, hdown]
  rw [IsNameOf, isBelow_iff, hshown]
  by_cases hanchor : anchor p = anchor root
  · have hdown' : down ≠ [] := by
      rintro rfl
      exact hne (hp.ext hroot hanchor (by rw [hdown, List.append_nil]))
    have hbelow : ∃ down ≠ [], parts p = parts root ++ down := ⟨down, hdown', hdown⟩
    have hjoin : join root (wayDown down) = p := by
      rw [wayDown, if_neg hdown']
      exact hroot.join_intercalate hp hanchor hdown hdown'
    cases Text.beginsWith (wayDown down) ".." with
    | true => simp [hanchor, hbelow, hp.absolute]
    | false => simp [hanchor, hbelow, not_isAbsolute_wayDown hall, hjoin]
  · cases Text.beginsWith (wayDown down) ".." with
    | true => simp [hanchor]
    | false => simp [hanchor, hother]

/-- A path other than the root is called what it should be, except where its parts begin with those of
the root and one of two things is so: its next part begins with two dots, or just one of root and path
starts with two slashes. -/
theorem isNameOf_shown_iff (hroot : IsNormal root) (hp : IsNormal p) (hne : p ≠ root) :
    IsNameOf root p (shown cwd p root) ↔ ∀ down, parts p = parts root ++ down →
      (anchor p = anchor root ↔ Text.beginsWith (wayDown down) ".." = false) := by
  by_cases hstart : parts root <+: parts p
  · obtain ⟨down, hdown⟩ := hstart
    rw [isNameOf_shown_of_append hroot hp hne hdown.symm]
    constructor
    · intro h down' hdown'
      rwa [List.append_cancel_left (hdown'.symm.trans hdown.symm)]
    · intro h
      exact h down hdown.symm
  · have hbelow : ¬IsBelow root p := by
      rw [isBelow_iff]
      rintro ⟨-, down, -, hparts⟩
      exact hstart ⟨down, hparts.symm⟩
    have hshown : shown cwd p root = p := by
      apply shown_of_not_prefix
      rwa [absoluteParts_of_isNormal hp, absoluteParts_of_isNormal hroot]
    constructor
    · intro _ down hparts
      exact (hstart ⟨down, hparts.symm⟩).elim
    · intro _
      exact ⟨fun h => (hbelow h).elim, fun _ => hshown⟩

/-- A file in the root whose name begins with two dots keeps its whole path; one whose name begins with
a single dot does not. -/
theorem isNameOf_shown_dotted :
    ¬IsNameOf "/ws" "/ws/..a.go" (shown "/ws" "/ws/..a.go" "/ws") ∧
      IsNameOf "/ws" "/ws/.a.go" (shown "/ws" "/ws/.a.go" "/ws") := by
  have hroot : IsNormal "/ws" := ⟨by decide, by decide⟩
  have hdots : IsNormal "/ws/..a.go" := ⟨by decide, by decide⟩
  have hdot : IsNormal "/ws/.a.go" := ⟨by decide, by decide⟩
  rw [isNameOf_shown_iff hroot hdots (by decide), isNameOf_shown_iff hroot hdot (by decide)]
  constructor
  · intro h
    exact absurd (h ["..a.go"] (by decide)) (by decide)
  · intro down hdown
    have honly : down = [".a.go"] := by
      have hparts : parts "/ws/.a.go" = parts "/ws" ++ [".a.go"] := by decide
      exact List.append_cancel_left (hdown.symm.trans hparts)
    rw [honly]
    decide

theorem absoluteParts_wayDown (hcwd : isAbsolute cwd = true) (h : ∀ n ∈ down, IsPart n)
    (hdown : ".." ∉ down) : absoluteParts cwd (wayDown down) = absoluteParts cwd cwd ++ down := by
  rw [absoluteParts, absoluteParts, parts_join (not_isAbsolute_wayDown h), parts_wayDown h,
    join_of_isAbsolute hcwd, collapse_append true [] _ hdown]

/-- Where the root is the current directory, what a file is called is called the same. -/
theorem shown_shown (hcwd : isAbsolute cwd = true)
    (hroot : absoluteParts cwd root = absoluteParts cwd cwd) (p : String) :
    shown cwd (shown cwd p root) root = shown cwd p root := by
  by_cases hempty : p = ""
  · have hshown : shown cwd "" root = "" := if_pos rfl
    rw [hempty, hshown, hshown]
  · by_cases hstart : absoluteParts cwd root <+: absoluteParts cwd p
    · obtain ⟨down, hdown⟩ := hstart
      have hshown := shown_of_append hdown.symm hempty
      cases hup : Text.beginsWith (wayDown down) ".." with
      | true =>
        rw [hup, if_pos rfl] at hshown
        rw [hshown, hshown]
      | false =>
        have hmem : ∀ n ∈ down, n ∈ collapse true [] (parts (join cwd p)) := by
          intro n hn
          rw [← absoluteParts, ← hdown]
          exact List.mem_append_right _ hn
        have hall : ∀ n ∈ down, IsPart n := fun n hn => isPart_of_mem_collapse (hmem n hn)
        have hdots : ".." ∉ down := fun hn => up_not_mem_collapse List.not_mem_nil (hmem _ hn)
        have hagain : absoluteParts cwd (wayDown down) = absoluteParts cwd root ++ down := by
          rw [absoluteParts_wayDown hcwd hall hdots, hroot]
        rw [hup, if_neg Bool.false_ne_true] at hshown
        rw [hshown, shown_of_append hagain (wayDown_ne_empty hall), hup, if_neg Bool.false_ne_true]
    · have hshown := shown_of_not_prefix hstart
      rw [hshown, hshown]

end GoAtlas.Path
