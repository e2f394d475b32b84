import GoAtlas.Proofs.Files.Contents

namespace GoAtlas.Files.Store

open GoAtlas.Path

/-- A place at which there is a link that is followed when names are resolved, as far as there is
anything. -/
inductive Meets (s : Store) : List String → List String → List String → Prop
  | here {done name rest target} : name ≠ ".." →
      s.root.at? (done ++ [name]) = some (.link target) →
      Meets s done (name :: rest) (done ++ [name])
  | up {done rest place} : Meets s done.dropLast rest place → Meets s done (".." :: rest) place
  | down {done name rest place} : name ≠ ".." →
      (∀ target, s.root.at? (done ++ [name]) ≠ some (.link target)) →
      Meets s (done ++ [name]) rest place → Meets s done (name :: rest) place
  | jump {done name rest place target} : name ≠ ".." →
      s.root.at? (done ++ [name]) = some (.link target) →
      Meets s (if isAbsolute target then [] else done) (parts target ++ rest) place →
      Meets s done (name :: rest) place

/-- What holds of names if it holds of what is left of them after a step. -/
structure Recedes (s : Store) (P : List String → List String → Prop) : Prop where
  up : ∀ {done rest}, P done.dropLast rest → P done (".." :: rest)
  down : ∀ {done name rest}, name ≠ ".." →
    (∀ target, s.root.at? (done ++ [name]) ≠ some (.link target)) →
    P (done ++ [name]) rest → P done (name :: rest)
  jump : ∀ {done name rest target}, name ≠ ".." →
    s.root.at? (done ++ [name]) = some (.link target) →
    P (if isAbsolute target then [] else done) (parts target ++ rest) → P done (name :: rest)

variable {s : Store} {hidden : List String → Bool} {done todo rest place : List String}
  {name path : String} {depth : Nat} {opened : List (List String)} {entries : List (String × Entry)}
  {jump jump' : List String → String → String → Except (List String) (List String)}

theorem realNamesBy_isPart {ns : List String}
    (hjump : ∀ done name target ns, (∀ n ∈ done ++ [name], IsPart n) →
      jump done name target = .ok ns ∨ jump done name target = .error ns → ∀ n ∈ ns, IsPart n)
    (hdone : ∀ n ∈ done, IsPart n) (htodo : ∀ n ∈ todo, IsPart n)
    (h : s.realNamesBy jump done todo = .ok ns ∨ s.realNamesBy jump done todo = .error ns) :
    ∀ n ∈ ns, IsPart n := by
  induction todo generalizing done with
  | nil =>
    rw [realNamesBy] at h
    rcases h with h | h
    · cases h
      exact hdone
    · cases h
  | cons name rest ih =>
    obtain ⟨hname, hrest⟩ := List.forall_mem_cons.mp htodo
    have hhere : ∀ n ∈ done ++ [name], IsPart n := by
      simpa [or_imp, forall_and] using ⟨hdone, hname⟩
    rw [realNamesBy] at h
    split at h
    · exact ih (fun n hn => hdone n (List.dropLast_subset done hn)) hrest h
    split at h
    · next target hat =>
      cases hplace : jump done name target with
      | ok place =>
        rw [hplace] at h
        exact ih (hjump _ _ _ _ hhere (.inl hplace)) hrest h
      | error left =>
        rw [hplace] at h
        rcases h with h | h
        · cases h
        · cases h
          intro n hn
          rcases List.mem_append.mp hn with hn | hn
          · exact hjump _ _ _ _ hhere (.inr hplace) n hn
          · exact hrest n hn
    · exact ih hhere hrest h

theorem realNames_isPart {ns : List String} (hdone : ∀ n ∈ done, IsPart n)
    (htodo : ∀ n ∈ todo, IsPart n)
    (h : s.realNames depth opened done todo = .ok ns ∨
      s.realNames depth opened done todo = .error ns) : ∀ n ∈ ns, IsPart n := by
  induction depth generalizing opened done todo ns with
  | zero =>
    refine realNamesBy_isPart (fun done name target ns hhere hns => ?_) hdone htodo h
    rcases hns with hns | hns <;> cases hns
    exact hhere
  | succ depth ih =>
    refine realNamesBy_isPart (fun done name target ns hhere hns => ?_) hdone htodo h
    split at hns
    · rcases hns with hns | hns <;> cases hns
      exact hhere
    · refine ih (fun n hn => ?_) (fun _ => isPart_of_mem_parts) hns
      split at hn
      · cases hn
      · exact hhere n (List.mem_append_left [name] hn)

theorem realPlace_isPart (s : Store) (path : String) : ∀ n ∈ s.realPlace path, IsPart n := by
  have hnames : ∀ n ∈ s.names path, IsPart n := fun _ => isPart_of_mem_parts
  rw [realPlace]
  split
  · next place hplace => exact realNames_isPart (by simp) hnames (.inl hplace)
  · next left hleft =>
    intro n hn
    exact realNames_isPart (by simp) hnames (.inr hleft) n
      ((mem_collapse hn).resolve_left List.not_mem_nil)

theorem realPath_eq (s : Store) (path : String) :
    ∃ ns, (∀ n ∈ ns, IsPart n) ∧ s.realPath path = ofParts ns :=
  ⟨_, s.realPlace_isPart path, rfl⟩

theorem names_realPath (s : Store) (path : String) :
    s.names (s.realPath path) = s.realPlace path :=
  s.names_ofParts (s.realPlace_isPart path)

/-- A path whose links cannot all be resolved, since some of them lead back to themselves. -/
def Loops (s : Store) (path : String) : Prop :=
  ∃ left, s.realNames s.linkPlaces.length [] [] (s.names path) = .error left

theorem realPlace_of_not_loops (h : ¬s.Loops path) : ∃ place,
    s.realNames s.linkPlaces.length [] [] (s.names path) = .ok place ∧ s.realPlace path = place := by
  cases hplace : s.realNames s.linkPlaces.length [] [] (s.names path) with
  | ok place => exact ⟨place, rfl, by rw [realPlace, hplace]⟩
  | error left => exact (h ⟨left, hplace⟩).elim

theorem mem_linkPlaces (hs : s.Sound) {target : String}
    (hat : s.root.at? place = some (.link target)) : place ∈ s.linkPlaces := by
  have hleaf : (place, Entry.link target) ∈ s.root.leaves [] :=
    (Entry.mem_leaves [] s.root hs.proper).mpr ⟨place, rfl, hat, rfl⟩
  exact List.mem_map_of_mem (List.mem_filter.mpr ⟨hleaf, rfl⟩)

theorem realNamesBy_congr
    (h : ∀ done name target, s.root.at? (done ++ [name]) = some (.link target) →
      jump done name target = jump' done name target) :
    s.realNamesBy jump done todo = s.realNamesBy jump' done todo := by
  induction todo generalizing done with
  | nil => rfl
  | cons name rest ih =>
    rw [realNamesBy, realNamesBy, ih]
    split
    · rfl
    split
    · next target hat =>
      rw [h done name target hat]
      cases jump' done name target with
      | ok place => exact ih
      | error left => rfl
    · exact ih

theorem realNames_succ (hs : s.Sound) (hnodup : opened.Nodup) (hlinks : opened ⊆ s.linkPlaces)
    (hdepth : s.linkPlaces.length ≤ depth + opened.length) :
    s.realNames (depth + 1) opened done todo = s.realNames depth opened done todo := by
  induction depth generalizing opened done todo with
  | zero =>
    have hall := (List.subperm_of_subset hnodup hlinks).perm_of_length_le (by simpa using hdepth)
    refine realNamesBy_congr fun done name target hat => ?_
    rw [if_pos (hall.mem_iff.mpr (mem_linkPlaces hs hat))]
  | succ depth ih =>
    refine realNamesBy_congr fun done name target hat => ?_
    by_cases hmem : done ++ [name] ∈ opened
    · rw [if_pos hmem, if_pos hmem]
    · rw [if_neg hmem, if_neg hmem]
      apply ih (List.nodup_cons.mpr ⟨hmem, hnodup⟩)
      · exact List.cons_subset.mpr ⟨mem_linkPlaces hs hat, hlinks⟩
      · rw [List.length_cons]
        omega

theorem realPlace_eq (hs : s.Sound) (h : s.linkPlaces.length ≤ depth) (path : String) :
    s.realPlace path =
      match s.realNames depth [] [] (s.names path) with
      | .ok place => place
      | .error left => collapse true [] left := by
  induction depth, h using Nat.le_induction with
  | base => rfl
  | succ depth hle ih => rw [realNames_succ hs List.nodup_nil (List.nil_subset _) hle, ih]

theorem realNamesBy_of_noLink (hdown : ".." ∉ todo)
    (hlink : ∀ way, way <+: done ++ todo → ∀ target, s.root.at? way ≠ some (.link target)) :
    s.realNamesBy jump done todo = .ok (done ++ todo) := by
  induction todo generalizing done with
  | nil => rw [List.append_nil, realNamesBy]
  | cons name todo ih =>
    have hname : name ≠ ".." := fun h => hdown (h ▸ List.mem_cons_self)
    have hhere := hlink (done ++ [name]) ⟨todo, by simp⟩
    rw [List.append_cons] at hlink ⊢
    rw [realNamesBy, if_neg hname]
    split
    · next target hat => exact (hhere target hat).elim
    · exact ih (fun h => hdown (List.mem_cons_of_mem name h)) hlink

theorem Bare.realNames (h : s.Bare place) : s.realNames depth opened [] place = .ok place := by
  cases depth with
  | zero => exact realNamesBy_of_noLink h.down h.noLink
  | succ depth => exact realNamesBy_of_noLink h.down h.noLink

theorem Bare.realPath (h : s.Bare place) : s.realPath (ofParts place) = ofParts place := by
  rw [Store.realPath, realPlace, s.names_ofParts h.isPart, h.realNames]

theorem realPath_of_resolve {found : String} (h : s.resolve path = .ok found) :
    s.realPath path = found := by
  rw [resolve] at h
  split at h
  · cases h
  · exact Except.ok.inj h

/-- A path that names a directory is resolved. -/
theorem Sound.resolve (hs : s.Sound) (hat : s.root.at? place = some (.dir entries))
    (h : s.realPath path = ofParts place) : s.resolve path = .ok (ofParts place) := by
  rw [Store.resolve, h, hs.locate hat]

theorem Meets.isLink (h : s.Meets done todo place) :
    ∃ target, s.root.at? place = some (.link target) := by
  induction h with
  | here hname hat => exact ⟨_, hat⟩
  | up hm ih => exact ih
  | down hname hnone hm ih => exact ih
  | jump hname hat hm ih => exact ih

theorem Meets.append (h : s.Meets done todo place) (rest : List String) :
    s.Meets done (todo ++ rest) place := by
  induction h with
  | here hname hat => exact .here hname hat
  | up hm ih => exact .up ih
  | down hname hnone hm ih => exact .down hname hnone ih
  | jump hname hat hm ih =>
    rw [List.append_assoc] at ih
    exact .jump hname hat ih

theorem recedes_meets (s : Store) (place : List String) :
    s.Recedes fun done todo => s.Meets done todo place :=
  ⟨.up, .down, .jump⟩

theorem Recedes.realNamesBy {P : List String → List String → Prop} (hP : s.Recedes P)
    (hjump : ∀ done name target place, jump done name target = .ok place → ∀ rest, P place rest →
      P (if isAbsolute target then [] else done) (parts target ++ rest))
    (h : s.realNamesBy jump done todo = .ok place) (hrest : P place rest) : P done (todo ++ rest) := by
  induction todo generalizing done with
  | nil =>
    rw [Store.realNamesBy] at h
    cases h
    exact hrest
  | cons name todo ih =>
    rw [Store.realNamesBy] at h
    split at h
    · next hup =>
      subst hup
      exact hP.up (ih h)
    next hup =>
    split at h
    · next target hat =>
      cases hplace : jump done name target with
      | ok way =>
        rw [hplace] at h
        exact hP.jump hup hat (hjump _ _ _ _ hplace _ (ih h))
      | error left =>
        rw [hplace] at h
        cases h
    · next hnone => exact hP.down hup hnone (ih h)

/-- What holds from where names were resolved to holds from where they began. -/
theorem Recedes.realNames {P : List String → List String → Prop} (hP : s.Recedes P)
    (h : s.realNames depth opened done todo = .ok place) (hrest : P place rest) :
    P done (todo ++ rest) := by
  induction depth generalizing opened done todo place rest with
  | zero => exact hP.realNamesBy (fun _ _ _ _ hjump => by cases hjump) h hrest
  | succ depth ih =>
    refine hP.realNamesBy (fun done name target place hjump rest hrest => ?_) h hrest
    split at hjump
    · cases hjump
    · exact ih hjump hrest

theorem realNamesBy_without (hc : Closed hidden) (hroot : hidden [] = false)
    (hjump : ∀ done name target,
      (∀ place, s.Meets (if isAbsolute target then [] else done) (parts target) place →
        hidden place = false) → jump' done name target = jump done name target)
    (hnext : ∀ done name target place, jump done name target = .ok place → ∀ rest other,
      s.Meets place rest other →
      s.Meets (if isAbsolute target then [] else done) (parts target ++ rest) other)
    (h : ∀ place, s.Meets done todo place → hidden place = false) :
    (s.without hidden).realNamesBy jump' done todo = s.realNamesBy jump done todo := by
  induction todo generalizing done with
  | nil => rw [realNamesBy, realNamesBy]
  | cons name rest ih =>
    rw [realNamesBy, realNamesBy]
    by_cases hname : name = ".."
    · subst hname
      rw [if_pos rfl, if_pos rfl]
      exact ih fun place hm => h place (.up hm)
    · rw [if_neg hname, if_neg hname]
      split
      · next target hat =>
        obtain ⟨-, hat⟩ := (link_of_without hc hroot).mp hat
        rw [hat, hjump done name target fun place hm => h place (.jump hname hat (hm.append rest))]
        dsimp only
        cases hplace : jump done name target with
        | ok place =>
          exact ih fun other hm => h other (.jump hname hat (hnext _ _ _ _ hplace rest other hm))
        | error left => rfl
      · next hnone =>
        have hnone' : ∀ target, s.root.at? (done ++ [name]) ≠ some (.link target) := by
          intro target hat
          exact hnone target ((link_of_without hc hroot).mpr ⟨h _ (.here hname hat), hat⟩)
        split
        · next target hat => exact (hnone' target hat).elim
        · exact ih fun place hm => h place (.down hname hnone' hm)

theorem realNames_without (hc : Closed hidden) (hroot : hidden [] = false)
    (h : ∀ place, s.Meets done todo place → hidden place = false) :
    (s.without hidden).realNames depth opened done todo = s.realNames depth opened done todo := by
  induction depth generalizing opened done todo with
  | zero => exact realNamesBy_without hc hroot (fun _ _ _ _ => rfl) (fun _ _ _ _ h => by cases h) h
  | succ depth ih =>
    refine realNamesBy_without hc hroot (fun done name target hm => ?_)
      (fun done name target place hjump rest other hm => ?_) h
    · split
      · rfl
      · exact ih hm
    · split at hjump
      · cases hjump
      · exact (recedes_meets s other).realNames hjump hm

/-- Names are resolved as before if none of the links that are followed is hidden. -/
theorem realPath_without (hs : s.Sound) (hc : Closed hidden) (hroot : hidden [] = false)
    (h : ∀ place, s.Meets [] (s.names path) place → hidden place = false) :
    (s.without hidden).realPath path = s.realPath path := by
  have hnames : (s.without hidden).names path = s.names path := rfl
  rw [realPath, realPath, realPlace_eq (hs.without hc hroot) (Nat.le_max_left _ s.linkPlaces.length),
    realPlace_eq hs (Nat.le_max_right (s.without hidden).linkPlaces.length _), hnames,
    realNames_without hc hroot h]

end GoAtlas.Files.Store
