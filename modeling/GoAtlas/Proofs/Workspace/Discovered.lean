import GoAtlas.Workspace.Discovery
import GoAtlas.Proofs.Workspace.Parts
import Mathlib.Data.List.Nodup
import Mathlib.Data.List.Perm.Basic

namespace GoAtlas

section

variable {α ε : Type} {test : α → Except ε Bool} {l kept : List α}

theorem filterAuxM_eq (test : α → Except ε Bool) (l acc : List α) :
    l.filterAuxM test acc = (l.filterAuxM test []).map (· ++ acc) := by
  induction l generalizing acc with
  | nil => rfl
  | cons a l ih =>
    cases ha : test a with
    | error e => simp only [List.filterAuxM, ha, bind, Except.bind, Except.map]
    | ok b =>
      simp only [List.filterAuxM, ha, bind, Except.bind]
      rw [ih, ih (cond b [a] [])]
      cases l.filterAuxM test [] with
      | error e => rfl
      | ok r => cases b <;> simp [Except.map]

theorem filterM_cons_eq (test : α → Except ε Bool) (a : α) (l : List α) :
    (a :: l).filterM test =
      (test a).bind fun b => (l.filterM test).map fun r => if b then a :: r else r := by
  cases ha : test a with
  | error e => simp [List.filterM, List.filterAuxM, ha, bind, Except.bind]
  | ok b =>
    simp only [List.filterM, List.filterAuxM, ha, bind, Except.bind]
    rw [filterAuxM_eq]
    cases l.filterAuxM test [] with
    | error e => rfl
    | ok r => cases b <;> simp [Except.map, pure, Except.pure]

/-- What passes a test that may fail is a part of the list, in its order. -/
theorem sublist_of_filterM (h : l.filterM test = .ok kept) : kept.Sublist l := by
  induction l generalizing kept with
  | nil =>
    cases h
    exact .slnil
  | cons a l ih =>
    rw [filterM_cons_eq] at h
    cases ha : test a with
    | error e => simp [ha, Except.bind] at h
    | ok b =>
      cases hl : l.filterM test with
      | error e => simp [ha, hl, Except.bind, Except.map] at h
      | ok r =>
        simp only [ha, hl, Except.bind, Except.map, Except.ok.injEq] at h
        subst h
        cases b with
        | false => exact (ih hl).cons a
        | true => exact (ih hl).cons_cons a

theorem of_mem_filterM {a : α} (h : l.filterM test = .ok kept) (ha : a ∈ kept) :
    a ∈ l ∧ test a = .ok true := by
  refine ⟨(sublist_of_filterM h).subset ha, ?_⟩
  induction l generalizing kept with
  | nil =>
    cases h
    cases ha
  | cons first l ih =>
    rw [filterM_cons_eq] at h
    cases hfirst : test first with
    | error e => simp [hfirst, Except.bind] at h
    | ok b =>
      cases hl : l.filterM test with
      | error e => simp [hfirst, hl, Except.bind, Except.map] at h
      | ok r =>
        simp only [hfirst, hl, Except.bind, Except.map, Except.ok.injEq] at h
        subst h
        cases b with
        | false => exact ih hl ha
        | true =>
          rcases List.mem_cons.mp ha with rfl | ha
          · exact hfirst
          · exact ih hl ha

end

namespace Files

mutual
/-- Every directory names each of its entries once, by a single part of a path. -/
def Entry.Proper : Entry → Prop
  | .file _ => True
  | .link _ => True
  | .dir entries => (entries.map (·.1)).Nodup ∧ Entry.ProperAll entries

def Entry.ProperAll : List (String × Entry) → Prop
  | [] => True
  | (name, e) :: more => Path.IsPart name ∧ e.Proper ∧ Entry.ProperAll more
end

/-- The store of a file system: its directories are proper all the way down. -/
def Store.Proper (s : Store) : Prop :=
  s.root.Proper

theorem Entry.ProperAll.of_mem {entries : List (String × Entry)} (h : ProperAll entries)
    {x : String × Entry} (hx : x ∈ entries) : Path.IsPart x.1 ∧ x.2.Proper := by
  induction entries with
  | nil => cases hx
  | cons y more ih =>
    rcases List.mem_cons.mp hx with rfl | hx
    · exact ⟨h.1, h.2.1⟩
    · exact ih h.2.2 hx

theorem Entry.Proper.at? {e f : Entry} {names : List String} (h : e.Proper)
    (hf : e.at? names = some f) : f.Proper := by
  induction names generalizing e with
  | nil =>
    obtain rfl := Option.some.inj hf
    exact h
  | cons name more ih =>
    obtain ⟨g, hg, hgf⟩ := Option.bind_eq_some_iff.mp hf
    cases e with
    | dir entries => exact ih (h.2.of_mem (Dict.mem_of_lookup hg)).2 hgf
    | file => cases hg
    | link => cases hg

namespace Store

variable {s : Store}

theorem at?_of_followBy
    {jump : List String → List String → Except PathFault (List String × Entry)}
    (hjump : ∀ done todo names e, jump done todo = .ok (names, e) → s.root.at? names = some e)
    {done todo names : List String} {e : Entry}
    (h : s.followBy jump done todo = .ok (names, e)) : s.root.at? names = some e := by
  fun_induction s.followBy jump done todo with
  | case1 done f hf =>
    cases h
    exact hf
  | case3 done rest entries hat ih => exact ih h
  | case5 done name rest entries hat hname target hl => exact hjump _ _ _ _ h
  | case6 done name rest entries hat hname f hlink hl ih => exact ih h
  | _ => cases h

theorem at?_of_follow {links : Nat} {done todo names : List String} {e : Entry}
    (h : s.follow links done todo = .ok (names, e)) : s.root.at? names = some e := by
  induction links generalizing done todo names e with
  | zero => exact at?_of_followBy (by simp) h
  | succ links ih => exact at?_of_followBy (fun _ _ _ _ h => ih h) h

theorem Proper.entry? (hs : s.Proper) {path : String} {e : Entry}
    (h : s.entry? path = some e) : e.Proper := by
  unfold Store.entry? locate at h
  cases hf : s.follow maxLinks [] (s.names path) with
  | error fault => simp [hf, Except.toOption] at h
  | ok found =>
    simp only [hf, Except.toOption, Option.map_some, Option.some.injEq] at h
    exact h ▸ Entry.Proper.at? hs (at?_of_follow hf)

theorem Proper.list (hs : s.Proper) {path : String} {entries : List (String × Entry)}
    (h : s.list path = .ok entries) :
    (entries.map (·.1)).Nodup ∧ ∀ x ∈ entries, Path.IsPart x.1 := by
  unfold Store.list locate at h
  cases hf : s.follow maxLinks [] (s.names path) with
  | error e => simp [hf] at h
  | ok found =>
    obtain ⟨names, e⟩ := found
    have he := Entry.Proper.at? hs (at?_of_follow hf)
    cases e with
    | file => simp [hf] at h
    | link => simp [hf] at h
    | dir found =>
      simp only [hf, Except.ok.injEq] at h
      subst h
      exact ⟨by simpa using he.1, fun x hx => (he.2.of_mem (List.mem_reverse.mp hx)).1⟩

end Store

end Files

namespace Discovery

open Files GoAtlas.Path

variable {s : Store} {ns : List String} {ignored : List String → Bool}

structure Below (place : List String) (paths : List String) : Prop where
  nodup : paths.Nodup
  leads : ∀ x ∈ paths, ∃ more, (∀ m ∈ more, IsPart m) ∧ ".." ∉ more ∧ x = ofParts (place ++ more)

theorem Below.of_sublist {place l l' : List String} (hl : l.Sublist l') (h : Below place l') :
    Below place l :=
  ⟨hl.nodup h.nodup, fun x hx => h.leads x (hl.subset hx)⟩

theorem Below.disjoint {place l l' : List String} {a b : String} (h : Below (place ++ [a]) l)
    (h' : Below (place ++ [b]) l') (hp : ∀ m ∈ place, IsPart m) (ha : IsPart a) (hb : IsPart b)
    (hne : a ≠ b) : l.Disjoint l' := by
  intro x hx hx'
  obtain ⟨more, hm, -, rfl⟩ := h.leads x hx
  obtain ⟨more', hm', -, he⟩ := h'.leads _ hx'
  have heq := ofParts_inj ?_ ?_ he
  · simp only [List.append_assoc, List.append_cancel_left_eq, List.cons_append, List.nil_append,
      List.cons.injEq] at heq
    exact hne heq.1
  · simpa [or_imp, forall_and] using ⟨hp, ha, hm⟩
  · simpa [or_imp, forall_and] using ⟨hp, hb, hm'⟩

mutual
theorem below_directories (hn : ∀ m ∈ ns, IsPart m) :
    (way : List String) → (∀ m ∈ way, IsPart m) → (e : Entry) → e.Proper →
      Below (ns ++ way) (directories ignored (ofParts ns) way e)
  | _, _, .file _, _ => ⟨.nil, by simp [directories]⟩
  | _, _, .link _, _ => ⟨.nil, by simp [directories]⟩
  | way, hw, .dir entries, h => by
    have hall : ∀ m ∈ ns ++ way, IsPart m := by simpa [or_imp, forall_and] using ⟨hn, hw⟩
    obtain ⟨hnames, hin⟩ := below_directoriesIn hn way hw entries h.2
    let found := directoriesIn ignored (ofParts ns) way entries
    have hnodup : (found.map (·.1)).Nodup := hnames.nodup h.1
    have hperm := (List.mergeSort_perm found fun a b => decide (a.1 ≤ b.1)).flatMap_right (·.2)
    have hlater : ∀ x ∈ found.flatMap (·.2), ∃ m more, IsPart m ∧ (∀ k ∈ more, IsPart k) ∧
        ".." ∉ m :: more ∧ x = ofParts (ns ++ way ++ m :: more) := by
      intro x hx
      obtain ⟨⟨m, l⟩, hl, hx⟩ := List.mem_flatMap.mp hx
      obtain ⟨hm, hdown, hb⟩ := hin _ hl
      obtain ⟨more, hmore, hup, rfl⟩ := hb.leads x hx
      exact ⟨m, more, hm, hmore, by simpa using ⟨hdown.symm, hup⟩, by simp⟩
    have hflat : (found.flatMap (·.2)).Nodup := by
      refine List.nodup_flatMap.mpr ⟨fun x hx => (hin x hx).2.2.nodup, ?_⟩
      refine List.Pairwise.imp_of_mem ?_ (List.pairwise_map.mp hnodup)
      intro a b ha hb hne
      exact (hin a ha).2.2.disjoint (hin b hb).2.2 hall (hin a ha).1 (hin b hb).1 hne
    rw [directories, foldl_join_ofParts hn hw]
    refine ⟨List.nodup_cons.mpr ⟨fun hx => ?_, hperm.nodup_iff.mpr hflat⟩, fun x hx => ?_⟩
    · obtain ⟨m, more, hm, hmore, -, he⟩ := hlater _ (hperm.mem_iff.mp hx)
      have := ofParts_inj hall (by simpa [or_imp, forall_and] using ⟨hn, hw, hm, hmore⟩) he
      simp at this
    · rcases List.mem_cons.mp hx with rfl | hx
      · exact ⟨[], by simp, by simp, by simp⟩
      · obtain ⟨m, more, hm, hmore, hup, rfl⟩ := hlater x (hperm.mem_iff.mp hx)
        exact ⟨m :: more, by simpa using ⟨hm, hmore⟩, hup, rfl⟩

theorem below_directoriesIn (hn : ∀ m ∈ ns, IsPart m) :
    (way : List String) → (∀ m ∈ way, IsPart m) →
      (entries : List (String × Entry)) → Entry.ProperAll entries →
      ((directoriesIn ignored (ofParts ns) way entries).map (·.1)).Sublist (entries.map (·.1)) ∧
      ∀ x ∈ directoriesIn ignored (ofParts ns) way entries,
        IsPart x.1 ∧ x.1 ≠ ".." ∧ Below (ns ++ way ++ [x.1]) x.2
  | _, _, [], _ => ⟨.slnil, by simp [directoriesIn]⟩
  | way, hw, (name, e) :: more, h => by
    obtain ⟨hsub, hin⟩ := below_directoriesIn hn way hw more h.2.2
    rw [directoriesIn]
    split
    · next hentered =>
      have hdown : name ≠ ".." := by
        rintro rfl
        simp [show isSkipped ".." = true by decide] at hentered
      refine ⟨by simpa using hsub.cons_cons name, fun x hx => ?_⟩
      rcases List.mem_append.mp hx with hx | hx
      · rw [List.mem_singleton.mp hx]
        have := below_directories hn (way ++ [name])
          (by simpa [or_imp, forall_and] using ⟨hw, h.1⟩) e h.2.1
        exact ⟨h.1, hdown, by simpa using this⟩
      · exact hin x hx
    · exact ⟨by simpa using hsub.cons name, by simpa using hin⟩
end

theorem packageDirsBy_below (hs : s.Proper) (hn : ∀ m ∈ ns, IsPart m) {rules : List IgnoreRule}
    {dirs : List String} (h : packageDirsBy s (ofParts ns) rules = .ok dirs) : Below ns dirs := by
  unfold packageDirsBy at h
  split at h
  · next entries he =>
    dsimp only at h
    split at h
    · next l hl =>
      obtain rfl := Except.ok.inj h
      have hall := Below.of_sublist (sublist_of_filterM hl)
        (below_directories hn [] (by simp) _ (hs.entry? he))
      simpa using hall
    · cases h
  · cases h

theorem packageDirs_below (hs : s.Proper) (hn : ∀ m ∈ ns, IsPart m) {ignore : Bool}
    {dirs : List String} (h : packageDirs s (ofParts ns) ignore = .ok dirs) : Below ns dirs := by
  rw [packageDirs] at h
  generalize (if ignore then rulesOf s (ofParts ns) else .ok []) = rules at h
  cases rules with
  | error e => cases h
  | ok rules => exact packageDirsBy_below hs hn h

theorem sources_eq (hs : s.Proper) {directory : String} {paths : List String}
    (h : sources s directory = .ok paths) :
    ∃ names : List String, names.Nodup ∧ (∀ n ∈ names, IsPart n) ∧ ".." ∉ names ∧
      paths = names.map (join directory) := by
  unfold sources at h
  cases hl : s.list directory with
  | error e => simp [hl, bind, Except.bind] at h
  | ok entries =>
    simp only [hl, bind, Except.bind] at h
    split at h
    · next kept hk =>
      obtain rfl := Except.ok.inj h
      have ⟨hnodup, hpart⟩ := hs.list hl
      have hsub := sublist_of_filterM hk
      have hperm := List.mergeSort_perm (kept.map (·.1)) fun a b => decide (a ≤ b)
      refine ⟨_, hperm.nodup_iff.mpr ((hsub.map _).nodup hnodup), fun n hn => ?_, fun hn => ?_, rfl⟩
      · obtain ⟨x, hx, rfl⟩ := List.mem_map.mp (hperm.mem_iff.mp hn)
        exact hpart x (hsub.subset hx)
      · obtain ⟨⟨name, e⟩, hx, rfl⟩ := List.mem_map.mp (hperm.mem_iff.mp hn)
        have htest := (of_mem_filterM hk hx).2
        simp [isSource, show isSourceName ".." = false by decide] at htest
    · cases h

end Discovery

end GoAtlas
