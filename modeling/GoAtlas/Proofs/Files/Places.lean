import Mathlib.Data.List.Infix
import GoAtlas.Proofs.Workspace.Discovered

namespace GoAtlas.Files

variable {e f new : Entry} {way rest names place : List String} {name : String}
  {entries : List (String × Entry)}

namespace Entry

theorem at?_append (e : Entry) (way rest : List String) :
    e.at? (way ++ rest) = (e.at? way).bind (·.at? rest) := by
  induction way generalizing e with
  | nil => rfl
  | cons name way ih =>
    rw [List.cons_append, at?, at?, Option.bind_assoc]
    congr 1
    funext f
    exact ih f

theorem at?_concat (h : e.at? way = some (.dir entries)) (name : String) :
    e.at? (way ++ [name]) = entries.lookup name := by
  rw [at?_append, h, Option.bind_some, at?, child?]
  cases entries.lookup name <;> rfl

theorem dir_of_at?_concat (h : e.at? (way ++ [name]) = some f) :
    ∃ entries, e.at? way = some (.dir entries) ∧ entries.lookup name = some f := by
  rw [at?_append] at h
  obtain ⟨g, hg, hf⟩ := Option.bind_eq_some_iff.mp h
  obtain ⟨f', hf', hf⟩ := Option.bind_eq_some_iff.mp hf
  cases hf
  cases g with
  | dir entries => exact ⟨entries, hg, hf'⟩
  | file content => cases hf'
  | link target => cases hf'

theorem dir_of_at?_cons (h : e.at? (way ++ name :: rest) = some f) :
    ∃ entries, e.at? way = some (.dir entries) := by
  rw [List.append_cons, at?_append] at h
  obtain ⟨g, hg, -⟩ := Option.bind_eq_some_iff.mp h
  obtain ⟨entries, hdir, -⟩ := dir_of_at?_concat hg
  exact ⟨entries, hdir⟩

/-- What stands on the way to something that is no file or link is a directory. -/
theorem isDir_of_prefix (h : e.at? way = some f) (hf : f.isDir) (hrest : rest <+: way) :
    ∃ entries, e.at? rest = some (.dir entries) := by
  obtain ⟨more, rfl⟩ := hrest
  cases more with
  | nil =>
    cases f with
    | dir entries => exact ⟨entries, by simpa using h⟩
    | file content => cases hf
    | link target => cases hf
  | cons name more => exact dir_of_at?_cons h

theorem put_append (h : e.at? way = some f) (new : Entry) (rest : List String) :
    put new (way ++ rest) e = put (put new rest f) way e := by
  induction way generalizing e with
  | nil =>
    cases h
    rfl
  | cons name way ih =>
    obtain ⟨g, hg, hf⟩ := Option.bind_eq_some_iff.mp h
    cases e with
    | dir entries =>
      have hg : entries.lookup name = some g := hg
      rw [List.cons_append, put, put, hg, Option.getD_some, ih hf]
    | file content => cases hg
    | link target => cases hg

theorem put_concat (h : e.at? way = some (.dir entries)) (new : Entry) (name : String) :
    put new (way ++ [name]) e = put (.dir (Dict.put name new entries)) way e := by
  rw [put_append h, put, put]

theorem at?_put_append (new : Entry) (names rest : List String) (e : Entry) :
    (put new names e).at? (names ++ rest) = new.at? rest := by
  induction names generalizing e with
  | nil => rfl
  | cons name names ih =>
    cases e with
    | dir entries =>
      rw [List.cons_append, put, at?, child?, Dict.lookup_put, if_pos (beq_self_eq_true name),
        Option.bind_some, ih]
    | file content =>
      rw [List.cons_append, put, at?, child?, List.lookup_cons_self, Option.bind_some, ih]
      simp
    | link target =>
      rw [List.cons_append, put, at?, child?, List.lookup_cons_self, Option.bind_some, ih]
      simp

theorem at?_put (new : Entry) (names : List String) (e : Entry) :
    (put new names e).at? names = some new := by
  have h := at?_put_append new names [] e
  rwa [List.append_nil] at h

/-- After something was put at a place, there is the new entry with what is in it, a directory on
the way to it, or what was there before. -/
theorem at?_put_cases (h : (put new names e).at? way = some f) :
    (∃ rest, way = names ++ rest ∧ new.at? rest = some f) ∨ (way <+: names ∧ f.isDir) ∨
      e.at? way = some f := by
  induction names generalizing e way with
  | nil => exact .inl ⟨way, rfl, h⟩
  | cons name names ih =>
    cases way with
    | nil =>
      right
      left
      obtain rfl := Option.some.inj h
      cases e <;> exact ⟨List.nil_prefix, rfl⟩
    | cons other way =>
      -- a file or link in the way is as good as an empty directory
      obtain ⟨entries, hput, hat⟩ : ∃ entries,
          put new (name :: names) e =
            .dir (Dict.put name (put new names ((entries.lookup name).getD (.dir []))) entries) ∧
          ∀ f, (entries.lookup other).bind (·.at? way) = some f → e.at? (other :: way) = some f := by
        cases e with
        | dir entries => exact ⟨entries, rfl, fun _ h => h⟩
        | file content => exact ⟨[], rfl, fun _ h => by cases h⟩
        | link target => exact ⟨[], rfl, fun _ h => by cases h⟩
      rw [hput, at?, child?, Dict.lookup_put] at h
      by_cases hname : other = name
      · subst hname
        rw [if_pos (beq_self_eq_true other), Option.bind_some] at h
        rcases ih h with ⟨rest, rfl, hnew⟩ | ⟨hway, hdir⟩ | hold
        · exact .inl ⟨rest, rfl, hnew⟩
        · exact .inr (.inl ⟨(List.prefix_cons_inj other).mpr hway, hdir⟩)
        · cases hl : entries.lookup other with
          | some g =>
            rw [hl, Option.getD_some] at hold
            exact .inr (.inr (hat f (by rw [hl]; exact hold)))
          | none =>
            rw [hl, Option.getD_none] at hold
            cases way with
            | nil =>
              cases hold
              exact .inr (.inl ⟨by simp, rfl⟩)
            | cons next way => cases hold
      · rw [if_neg (by simpa using hname)] at h
        exact .inr (.inr (hat f h))

theorem Proper.isPart (h : e.Proper) (hf : e.at? way = some f) : ∀ n ∈ way, Path.IsPart n := by
  induction way generalizing e with
  | nil => exact fun _ hn => by cases hn
  | cons name way ih =>
    obtain ⟨g, hg, hgf⟩ := Option.bind_eq_some_iff.mp hf
    cases e with
    | dir entries =>
      obtain ⟨hname, hproper⟩ := h.2.of_mem (Dict.mem_of_lookup hg)
      intro n hn
      rcases List.mem_cons.mp hn with rfl | hn
      · exact hname
      · exact ih hproper hgf n hn
    | file content => cases hg
    | link target => cases hg

/-- Every entry of a directory is found by its name. -/
theorem Proper.lookup_of_mem (h : (Entry.dir entries).Proper) {x : String × Entry}
    (hx : x ∈ entries) : entries.lookup x.1 = some x.2 := by
  obtain ⟨before, after, rfl⟩ := List.append_of_mem hx
  refine List.lookup_eq_some_iff.mpr ⟨before, after, rfl, fun y hy => ?_⟩
  have hnodup := h.1
  rw [List.map_append, List.nodup_append] at hnodup
  have hne := hnodup.2.2 y.1 (List.mem_map_of_mem hy) x.1 (by simp)
  simpa using hne.symm

theorem Proper.dir_put (hentries : (Entry.dir entries).Proper) (hname : Path.IsPart name)
    (hnew : new.Proper) : (Entry.dir (Dict.put name new entries)).Proper := by
  induction entries with
  | nil => exact ⟨by simp [Dict.put], hname, hnew, trivial⟩
  | cons x entries ih =>
    obtain ⟨k, v⟩ := x
    obtain ⟨hnodup, hk, hv, hmore⟩ := hentries
    obtain ⟨hfresh, hnodup⟩ := List.nodup_cons.mp hnodup
    obtain ⟨hnodup', hmore'⟩ := ih ⟨hnodup, hmore⟩
    rw [Dict.put]
    split
    · next heq =>
      have heq : name = k := by simpa using heq
      exact ⟨List.nodup_cons.mpr ⟨by rwa [heq], hnodup⟩, hname, hnew, hmore⟩
    · next hne =>
      refine ⟨List.nodup_cons.mpr ⟨fun hmem => ?_, hnodup'⟩, hk, hv, hmore'⟩
      obtain ⟨y, hy, hyk⟩ := List.mem_map.mp hmem
      rcases Dict.mem_put hy with rfl | hy
      · exact hne (by simpa using hyk)
      · exact hfresh (List.mem_map.mpr ⟨y, hy, hyk⟩)

theorem Proper.put (he : e.Proper) (hnew : new.Proper) (hnames : ∀ n ∈ names, Path.IsPart n) :
    (Entry.put new names e).Proper := by
  induction names generalizing e with
  | nil => exact hnew
  | cons name names ih =>
    have hname := hnames name List.mem_cons_self
    have ih := fun e he => ih (e := e) he fun n hn => hnames n (List.mem_cons_of_mem name hn)
    have hempty : (Entry.dir []).Proper := ⟨List.nodup_nil, trivial⟩
    cases e with
    | dir entries =>
      rw [Entry.put]
      apply he.dir_put hname (ih _ _)
      cases hl : entries.lookup name with
      | none => exact hempty
      | some g => exact (he.2.of_mem (Dict.mem_of_lookup hl)).2
    | file content => exact hempty.dir_put hname (ih _ hempty)
    | link target => exact hempty.dir_put hname (ih _ hempty)

mutual
def isNeat : Entry → Bool
  | .file _ => true
  | .link _ => true
  | .dir entries => decide (entries.map (·.1)).Nodup && areNeat entries

def areNeat : List (String × Entry) → Bool
  | [] => true
  | (name, e) :: more =>
    name != "" && name != "." && name != ".." && !name.toList.contains '/' && e.isNeat
      && areNeat more
end

theorem isName_of_areNeat (h : areNeat ((name, e) :: entries) = true) :
    (Path.IsPart name ∧ name ≠ "..") ∧ e.isNeat = true ∧ areNeat entries = true := by
  simp only [areNeat, Bool.and_eq_true, bne_iff_ne, Bool.not_eq_true', List.contains_eq_mem,
    decide_eq_false_iff_not] at h
  obtain ⟨⟨⟨⟨⟨hempty, hdot⟩, hup⟩, hslash⟩, he⟩, hmore⟩ := h
  exact ⟨⟨⟨hempty, hdot, hslash⟩, hup⟩, he, hmore⟩

mutual
theorem proper_of_isNeat : (e : Entry) → e.isNeat = true → e.Proper
  | .file _, _ => trivial
  | .link _, _ => trivial
  | .dir entries, h => by
    rw [isNeat, Bool.and_eq_true, decide_eq_true_eq] at h
    exact ⟨h.1, proper_of_areNeat entries h.2⟩

theorem proper_of_areNeat : (entries : List (String × Entry)) → areNeat entries = true →
    ProperAll entries
  | [], _ => trivial
  | (name, e) :: more, h => by
    obtain ⟨⟨hname, -⟩, he, hmore⟩ := isName_of_areNeat h
    exact ⟨hname, proper_of_isNeat e he, proper_of_areNeat more hmore⟩
end

theorem isName_of_mem (h : areNeat entries = true) {x : String × Entry} (hx : x ∈ entries) :
    (Path.IsPart x.1 ∧ x.1 ≠ "..") ∧ x.2.isNeat = true := by
  induction entries with
  | nil => cases hx
  | cons y entries ih =>
    obtain ⟨hname, he, hmore⟩ := isName_of_areNeat h
    rcases List.mem_cons.mp hx with rfl | hx
    · exact ⟨hname, he⟩
    · exact ih hmore hx

theorem isName_of_at? (h : e.isNeat = true) (hat : e.at? way = some f) :
    ∀ n ∈ way, Path.IsPart n ∧ n ≠ ".." := by
  induction way generalizing e with
  | nil => exact fun _ hn => by cases hn
  | cons name way ih =>
    obtain ⟨g, hg, hrest⟩ := Option.bind_eq_some_iff.mp hat
    cases e with
    | file content => cases hg
    | link target => cases hg
    | dir entries =>
      rw [isNeat, Bool.and_eq_true] at h
      obtain ⟨hname, hneat⟩ := isName_of_mem h.2 (Dict.mem_of_lookup hg)
      intro n hn
      rcases List.mem_cons.mp hn with rfl | hn
      · exact hname
      · exact ih hneat hrest n hn

end Entry

namespace Store

variable {s : Store} {done todo : List String} {links : Nat}

theorem names_ofParts (s : Store) (h : ∀ n ∈ place, Path.IsPart n) :
    s.names (Path.ofParts place) = place := by
  have habsolute : Path.isAbsolute (Path.ofParts place) = true := by
    simp [Path.isAbsolute, Text.beginsWith, Path.toList_ofParts]
  rw [names, Path.join, if_pos habsolute, Path.parts_ofParts h]

theorem names_join (s : Store) (path : String) {name : String} (h : Path.IsPart name) :
    s.names (Path.join path name) = s.names path ++ [name] := by
  have hname := Path.not_isAbsolute_of_isPart h
  have hparts : Path.parts (Path.join path name) = Path.parts path ++ [name] := by
    rw [Path.parts_join hname, Path.parts_of_isPart h]
  rw [names, names]
  cases hpath : Path.isAbsolute path with
  | true =>
    have hjoin : Path.isAbsolute (Path.join path name) = true := by
      rw [Path.isAbsolute_join hname, hpath]
    rw [Path.join_of_isAbsolute hjoin, Path.join_of_isAbsolute hpath, hparts]
  | false =>
    have hjoin : Path.isAbsolute (Path.join path name) = false := by
      rw [Path.isAbsolute_join hname, hpath]
    rw [Path.parts_join hjoin, Path.parts_join hpath, hparts, List.append_assoc]

theorem names_foldl (s : Store) (root : String) (h : ∀ n ∈ way, Path.IsPart n) :
    s.names (way.foldl Path.join root) = s.names root ++ way := by
  induction way generalizing root with
  | nil => rw [List.foldl_nil, List.append_nil]
  | cons name way ih =>
    rw [List.foldl_cons, ih _ fun n hn => h n (List.mem_cons_of_mem name hn),
      names_join s root (h name List.mem_cons_self), List.append_assoc, List.singleton_append]

theorem follow_of_locate {path : String} (h : s.locate path = .ok (place, e)) :
    s.follow maxLinks [] (s.names path) = .ok (place, e) := by
  rw [locate] at h
  cases hfollow : s.follow maxLinks [] (s.names path) with
  | error fault =>
    rw [hfollow] at h
    cases h
  | ok found =>
    rw [hfollow] at h
    cases h
    rfl

theorem at?_of_locate {path : String} (h : s.locate path = .ok (place, e)) :
    s.root.at? place = some e :=
  at?_of_follow (follow_of_locate h)

section

variable {jump : List String → List String → Except PathFault (List String × Entry)}

theorem followBy_down (hdone : s.root.at? done = some (.dir entries)) (hname : name ≠ "..")
    (he : entries.lookup name = some e) (hlink : e.isLink = false) (rest : List String) :
    s.followBy jump done (name :: rest) = s.followBy jump (done ++ [name]) rest := by
  rw [followBy, hdone]
  cases e with
  | link target => cases hlink
  | file content => simp only [if_neg hname, he]
  | dir entries => simp only [if_neg hname, he]

theorem followBy_append (hat : s.root.at? (done ++ way) = some e) (hlink : e.isLink = false)
    (hdown : ".." ∉ way) (todo : List String) :
    s.followBy jump done (way ++ todo) = s.followBy jump (done ++ way) todo := by
  induction way generalizing done with
  | nil => rw [List.append_nil, List.nil_append]
  | cons name way ih =>
    have hname : name ≠ ".." := fun h => hdown (h ▸ List.mem_cons_self)
    rw [List.append_cons] at hat
    obtain ⟨f, hf, hrest⟩ := Option.bind_eq_some_iff.mp (Entry.at?_append _ _ _ ▸ hat)
    obtain ⟨entries, hdone, hl⟩ := Entry.dir_of_at?_concat hf
    have hlink' : f.isLink = false := by
      cases way with
      | nil =>
        cases hrest
        exact hlink
      | cons next way =>
        cases f with
        | dir entries => rfl
        | file content => rfl
        | link target => cases hrest
    rw [List.cons_append, followBy_down hdone hname hl hlink',
      ih hat fun h => hdown (List.mem_cons_of_mem name h), ← List.append_cons]

end

theorem follow_append (hat : s.root.at? (done ++ way) = some e) (hlink : e.isLink = false)
    (hdown : ".." ∉ way) (links : Nat) (todo : List String) :
    s.follow links done (way ++ todo) = s.follow links (done ++ way) todo := by
  cases links with
  | zero => exact followBy_append hat hlink hdown todo
  | succ links => exact followBy_append hat hlink hdown todo

/-- Names that lead down from the root by directories can be taken as done. -/
theorem follow_place (hat : s.root.at? way = some e) (hlink : e.isLink = false) (hdown : ".." ∉ way)
    (links : Nat) (todo : List String) : s.follow links [] (way ++ todo) = s.follow links way todo := by
  rw [← List.nil_append way] at hat
  exact follow_append hat hlink hdown links todo

theorem follow_nil (links : Nat) (hat : s.root.at? done = some e) :
    s.follow links done [] = .ok (done, e) := by
  cases links <;> simp only [follow, followBy, hat]

theorem follow_of_none (links : Nat) (hdone : s.root.at? done = some (.dir entries))
    (hname : name ≠ "..") (hnone : entries.lookup name = none) (rest : List String) :
    s.follow links done (name :: rest) = .error .missing := by
  cases links <;> simp only [follow, followBy, hdone, if_neg hname, hnone]

theorem follow_of_file (links : Nat) {content : ByteArray}
    (hat : s.root.at? done = some (.file content)) (name : String) (rest : List String) :
    s.follow links done (name :: rest) = .error .notDirectory := by
  cases links <;> simp only [follow, followBy, hat]

/-- A path that names a place leads there, whatever else the store holds. -/
theorem locate_ofParts (hpart : ∀ n ∈ place, Path.IsPart n) (hdown : ".." ∉ place)
    (hat : s.root.at? place = some e) (hlink : e.isLink = false) :
    s.locate (Path.ofParts place) = .ok (place, e) := by
  have hfollow : s.follow maxLinks [] place = .ok (place, e) := by
    have h := follow_place hat hlink hdown maxLinks []
    rw [List.append_nil] at h
    exact h.trans (follow_nil maxLinks hat)
  rw [locate, s.names_ofParts hpart, hfollow]

/-- A place that is named without links and without leading up. What is missing may be missing. -/
structure Bare (s : Store) (place : List String) : Prop where
  isPart : ∀ n ∈ place, Path.IsPart n
  down : ".." ∉ place
  noLink : ∀ way, way <+: place → ∀ target, s.root.at? way ≠ some (.link target)

theorem Bare.of_isPrefix (h : s.Bare place) (hway : way <+: place) : s.Bare way where
  isPart n hn := h.isPart n (hway.subset hn)
  down hn := h.down (hway.subset hn)
  noLink other ho := h.noLink other (ho.trans hway)

theorem Bare.isLink (h : s.Bare place) (hway : way <+: place) (he : s.root.at? way = some e) :
    e.isLink = false := by
  cases e with
  | link target => exact (h.noLink way hway target he).elim
  | file content => rfl
  | dir entries => rfl

theorem Bare.locate (h : s.Bare place) (hat : s.root.at? place = some e) :
    s.locate (Path.ofParts place) = .ok (place, e) :=
  locate_ofParts h.isPart h.down hat (h.isLink (List.prefix_refl place) hat)

/-- The store of a file system: its directories are proper, and none of them has an entry by the name
that leads up. -/
structure Sound (s : Store) : Prop where
  proper : s.Proper
  down : ∀ {place e}, s.root.at? place = some e → ".." ∉ place

theorem sound_of_isNeat (h : s.root.isNeat = true) : s.Sound where
  proper := Entry.proper_of_isNeat s.root h
  down hat hmem := (Entry.isName_of_at? h hat ".." hmem).2 rfl

/-- On the way to a directory there are directories only. -/
theorem Bare.of_dir (hpart : ∀ n ∈ place, Path.IsPart n) (hdown : ".." ∉ place)
    (hat : s.root.at? place = some (.dir entries)) : s.Bare place where
  isPart := hpart
  down := hdown
  noLink way hway target hlink := by
    obtain ⟨entries, hdir⟩ := Entry.isDir_of_prefix hat rfl hway
    rw [hlink] at hdir
    cases hdir

theorem Sound.bare (hs : s.Sound) (hat : s.root.at? place = some (.dir entries)) : s.Bare place :=
  .of_dir (Entry.Proper.isPart hs.proper hat) (hs.down hat) hat

theorem Sound.locate (hs : s.Sound) (hat : s.root.at? place = some (.dir entries)) :
    s.locate (Path.ofParts place) = .ok (place, .dir entries) :=
  (hs.bare hat).locate hat

theorem Sound.list (hs : s.Sound) (hat : s.root.at? place = some (.dir entries)) :
    s.list (Path.ofParts place) = .ok entries.reverse := by
  rw [Store.list, hs.locate hat]

section

variable (hs : s.Sound) (hat : s.root.at? place = some (.dir entries)) (hname : Path.IsPart name)
  (hdown : name ≠ "..")
include hs hat hname hdown

theorem Sound.bare_concat (hlink : ∀ target, s.root.at? (place ++ [name]) ≠ some (.link target)) :
    s.Bare (place ++ [name]) where
  isPart := by simpa [or_imp, forall_and] using ⟨(hs.bare hat).isPart, hname⟩
  down := by simpa using ⟨(hs.bare hat).down, hdown.symm⟩
  noLink way hway := by
    rcases List.prefix_concat_iff.mp hway with rfl | hway
    · exact hlink
    · exact (hs.bare hat).noLink way hway

theorem Sound.read_concat {content : ByteArray}
    (hfile : s.root.at? (place ++ [name]) = some (.file content)) :
    s.read (Path.ofParts (place ++ [name])) = .ok content := by
  have hbare := hs.bare_concat hat hname hdown (by simp [hfile])
  rw [Store.read, hbare.locate hfile]

/-- What is missing in a directory, or a directory itself there, is no file. -/
theorem Sound.not_isFile (h : ∀ e, s.root.at? (place ++ [name]) = some e → e.isDir) :
    s.isFile (Path.ofParts (place ++ [name])) = false := by
  have hbare := hs.bare_concat hat hname hdown fun target hlink => by cases h _ hlink
  cases hhere : s.root.at? (place ++ [name]) with
  | some e =>
    have hdir := h e hhere
    rw [isFile, entry?, hbare.locate hhere]
    cases e with
    | dir entries => rfl
    | file content => cases hdir
    | link target => cases hdir
  | none =>
    have hfollow := follow_place hat rfl (hs.bare hat).down maxLinks [name]
    rw [follow_of_none maxLinks hat hdown (Entry.at?_concat hat name ▸ hhere)] at hfollow
    rw [isFile, entry?, Store.locate, s.names_ofParts hbare.isPart, hfollow]
    rfl

omit hdown in
theorem Sound.isLink_concat : s.isLink (Path.ofParts (place ++ [name])) =
    ((entries.lookup name).map (·.isLink)).getD false := by
  have hpart : ∀ n ∈ place ++ [name], Path.IsPart n := by
    simpa [or_imp, forall_and] using ⟨(hs.bare hat).isPart, hname⟩
  have hfollow := follow_place hat rfl (hs.bare hat).down maxLinks []
  rw [List.append_nil, follow_nil maxLinks hat] at hfollow
  simp only [isLink, s.names_ofParts hpart, List.dropLast_concat, List.getLast?_concat, hfollow]
  rfl

end

/-- Names that go on from a directory where the first of them is missing. -/
theorem Sound.bare_missing (hs : s.Sound) (hat : s.root.at? place = some (.dir entries))
    (hnone : s.root.at? (place ++ [name]) = none)
    (hnames : ∀ n ∈ name :: rest, Path.IsPart n ∧ n ≠ "..") : s.Bare (place ++ name :: rest) where
  isPart n hn := by
    rcases List.mem_append.mp hn with hn | hn
    · exact (hs.bare hat).isPart n hn
    · exact (hnames n hn).1
  down hn := by
    rcases List.mem_append.mp hn with hn | hn
    · exact (hs.bare hat).down hn
    · exact (hnames ".." hn).2 rfl
  noLink way hway target hlink := by
    rcases List.prefix_or_prefix_of_prefix hway (List.prefix_append place (name :: rest)) with
      hbefore | ⟨more, rfl⟩
    · exact (hs.bare hat).noLink way hbefore target hlink
    · cases more with
      | nil => exact (hs.bare hat).noLink _ (by simp) target hlink
      | cons next more =>
        obtain ⟨rfl, -⟩ := List.cons_prefix_cons.mp ((List.prefix_append_right_inj place).mp hway)
        rw [List.append_cons, Entry.at?_append, hnone] at hlink
        cases hlink

theorem isFile_of_read {path : String} {content : ByteArray} (h : s.read path = .ok content) :
    s.isFile path = true := by
  rw [read] at h
  split at h
  · next hl => rw [isFile, entry?, hl]; rfl
  · cases h
  · cases h

end Store

end GoAtlas.Files
