import GoAtlas.Finding.Switchable
import Mathlib.Data.List.Induction

namespace GoAtlas.Finding

open Syntax

theorem eraseDups_concat (l : List String) (a : String) :
    (l ++ [a]).eraseDups = if a ∈ l then l.eraseDups else l.eraseDups ++ [a] := by
  rw [List.eraseDups_append]
  split
  · next h => simp [List.removeAll, h]
  · next h => simp [List.removeAll, h, List.eraseDups_cons]

namespace Switchable

theorem groups_concat (l : List Introduction) (i : Introduction) : groups (l ++ [i]) =
    if (((groups l).lookup i.subject).getD []).any (·.name == i.name) then groups l
    else (groups l).gather i.subject i := by
  rw [groups, List.foldl_append]
  rfl

def introduced (l : List Introduction) (subject : String) : List String :=
  (l.filter (·.subject == subject)).map (·.name)

theorem introduced_concat (l : List Introduction) (i : Introduction) (subject : String) :
    introduced (l ++ [i]) subject =
      introduced l subject ++ if i.subject = subject then [i.name] else [] := by
  rw [introduced, List.filter_append, List.map_append]
  by_cases hs : i.subject = subject <;> simp [introduced, hs]

theorem subject_mem_of_introduced {l : List Introduction} {name subject : String}
    (h : name ∈ introduced l subject) : subject ∈ l.map (·.subject) := by
  obtain ⟨i, hi, -⟩ := List.mem_map.mp h
  obtain ⟨hi, hs⟩ := List.mem_filter.mp hi
  exact List.mem_map.mpr ⟨i, hi, beq_iff_eq.mp hs⟩

theorem any_name_iff {group : List Introduction} {names : List String} {name : String}
    (h : group.map (·.name) = names.eraseDups) : group.any (·.name == name) = true ↔ name ∈ names := by
  rw [← List.mem_eraseDups, ← h]
  simp only [List.any_eq_true, beq_iff_eq, List.mem_map]

/-- The names of a group are in the order in which they are first introduced. -/
theorem names_groups (l : List Introduction) (subject : String) :
    (((groups l).lookup subject).getD []).map (·.name) = (introduced l subject).eraseDups := by
  induction l using List.reverseRecOn generalizing subject with
  | nil => rfl
  | append_singleton l i ih =>
    rw [groups_concat, introduced_concat]
    split
    · next hold =>
      have hold := (any_name_iff (ih i.subject)).mp hold
      split
      · next hs =>
        subst hs
        rw [ih, eraseDups_concat, if_pos hold]
      · rw [ih, List.append_nil]
    · next hnew =>
      have hnew : i.name ∉ introduced l i.subject :=
        fun hmem => hnew ((any_name_iff (ih i.subject)).mpr hmem)
      rw [Dict.lookup_gather]
      by_cases hs : i.subject = subject
      · subst hs
        rw [if_pos (beq_self_eq_true _), if_pos rfl, eraseDups_concat, if_neg hnew, ← ih]
        simp
      · rw [if_neg (by simpa using fun he => hs he.symm), if_neg hs, List.append_nil, ih]

theorem subjects_groups (l : List Introduction) :
    (groups l).map (·.1) = (l.map (·.subject)).eraseDups := by
  induction l using List.reverseRecOn with
  | nil => rfl
  | append_singleton l i ih =>
    have hsubjects : (l ++ [i]).map (·.subject) = l.map (·.subject) ++ [i.subject] := List.map_append
    rw [groups_concat, hsubjects, eraseDups_concat]
    split
    · next hold =>
      have hold := (any_name_iff (names_groups l i.subject)).mp hold
      rw [if_pos (subject_mem_of_introduced hold), ih]
    · simp only [Dict.keys_gather, Dict.isSome_lookup_iff, ih, List.mem_eraseDups]

/-- Subjects are different, and are those of introductions. -/
theorem groups_spec (l : List Introduction) : ((groups l).map Prod.fst).Nodup ∧
    ∀ subject ∈ (groups l).map Prod.fst, ∃ i ∈ l, i.subject = subject := by
  refine ⟨?_, fun subject hs => ?_⟩
  · refine List.foldlRecOn (motive := fun d : Dict String (List Introduction) =>
      (d.map Prod.fst).Nodup) _ _ List.nodup_nil fun d hd i _ => ?_
    split
    · exact hd
    · exact Dict.nodup_gather hd
  · have hmem : subject ∈ (l.map (·.subject)).eraseDups := subjects_groups l ▸ hs
    exact List.mem_map.mp (List.mem_eraseDups.mp hmem)

theorem groups_eq (l : List Introduction) : groups l = (l.map (·.subject)).eraseDups.map
    fun subject => (subject, ((groups l).lookup subject).getD []) := by
  rw [← subjects_groups, List.map_map]
  conv_lhs => rw [← List.map_id (groups l)]
  refine List.map_congr_left fun e he => ?_
  rw [Function.comp_apply, Dict.lookup_of_mem (groups_spec l).1 he]
  rfl

variable {least : Nat} {f : SourceFile} {function subject : String} {tested : Dict String Nat}
  {group : List Introduction} {s : Switchable}

/-- A group is reported if enough of its names are conditions. -/
theorem subject_ofGroup? (hpos : 0 < least) : (ofGroup? least f function tested subject group).map
    (·.subject) = Option.guard (fun _ => least ≤ (group.filterMap fun i => tested.lookup i.name).length)
      subject := by
  have hle : (group.filterMap fun i => tested.lookup i.name).length ≤ group.length :=
    List.length_filterMap_le _ _
  unfold ofGroup?
  generalize hused : (group.filterMap fun i => tested.lookup i.name) = used at *
  by_cases hleast : least ≤ used.length
  · obtain ⟨n, hn⟩ : ∃ n, used.min? = some n := by
      rw [← Option.isSome_iff_exists, List.isSome_min?_iff]
      rintro rfl
      simp at hleast
      omega
    have hmany : ¬ (group.length < least ∨ used.length < least) := by omega
    simp [Option.guard, hleast, hmany, hn]
  · have hfew : group.length < least ∨ used.length < least := by omega
    simp [Option.guard, hleast, hfew]

theorem parts_of_ofGroup? (h : ofGroup? least f function tested subject group = some s) :
    s.subject = subject ∧ s.names = group.map (·.name) ∧
      s.branches = (group.filterMap fun i => tested.lookup i.name).length ∧
      ∃ n, (group.filterMap fun i => tested.lookup i.name).min? = some n ∧
        s.location = Location.of f function n := by
  unfold ofGroup? at h
  dsimp only at h
  split at h
  · cases h
  · obtain ⟨n, hn, rfl⟩ := Option.map_eq_some_iff.mp h
    exact ⟨rfl, rfl, rfl, n, hn, rfl⟩

end Switchable

variable {source : ByteArray} {body : Tree}

/-- A condition leads to the first statement of the walk that tests it. -/
theorem lookup_conditions (source : ByteArray) (body : Tree) (name : String) :
    (conditions source body).lookup name =
      ((body.walk.filter (·.kind = .ifStatement)).find? fun t =>
        conditionName? source t == some name).map (·.start) := by
  -- the step is a variable here: what the fold does depends on what a step makes of one name only
  have hfold : ∀ (step : Dict String Nat → Tree → Dict String Nat), (∀ d t, (step d t).lookup name =
      (d.lookup name).or (if conditionName? source t == some name then some t.start else none)) →
      ∀ (l : List Tree) (d : Dict String Nat), (l.foldl step d).lookup name =
      (d.lookup name).or ((l.find? fun t => conditionName? source t == some name).map (·.start)) := by
    intro step hstep l
    induction l with
    | nil => simp
    | cons t l ih =>
      intro d
      rw [List.foldl_cons, ih, hstep, List.find?_cons]
      cases conditionName? source t == some name <;> simp
  refine (hfold _ (fun d t => ?_) _ []).trans (by simp)
  cases hc : conditionName? source t with
  | none => simp
  | some c =>
    rw [Dict.lookup_addNew]
    by_cases he : name = c
    · simp [he]
    · have hne : (some c == some name) = false := by simpa using fun h => he h.symm
      simp [he, hne]

end GoAtlas.Finding
