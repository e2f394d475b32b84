import GoAtlas.Proofs.Files.Hiding

namespace GoAtlas.Files

variable {hidden : List String → Bool} {e f new other : Entry}
  {place way rest names more : List String} {name : String} {entries : List (String × Entry)}

namespace Entry

theorem put_of_not_isDir (h : e.isDir = false) (new : Entry) (name : String) (way : List String) :
    put new (name :: way) e = put new (name :: way) (.dir []) := by
  cases e with
  | dir entries => cases h
  | file content => rfl
  | link target => rfl

theorem put_put (new other : Entry) (way : List String) (e : Entry) :
    put new way (put other way e) = put new way e := by
  have hdict : ∀ (name : String) (a b : Entry) (entries : List (String × Entry)),
      Dict.put name a (Dict.put name b entries) = Dict.put name a entries := by
    intro name a b entries
    induction entries with
    | nil => simp [Dict.put]
    | cons x entries ih =>
      by_cases hname : name = x.1
      · simp [Dict.put, hname]
      · simp [Dict.put, hname, ih]
  induction way generalizing e with
  | nil => rfl
  | cons name way ih =>
    have hdir : ∀ entries, put new (name :: way) (put other (name :: way) (.dir entries)) =
        put new (name :: way) (.dir entries) := by
      intro entries
      rw [put, put, Dict.lookup_put, if_pos (beq_self_eq_true name), Option.getD_some, ih, hdict, put]
    cases he : e.isDir with
    | false => rw [put_of_not_isDir he, put_of_not_isDir he, hdir]
    | true =>
      cases e with
      | dir entries => exact hdir entries
      | file content => cases he
      | link target => cases he

theorem put_append_of_none (h : e.at? way = none) (new : Entry) (rest : List String) :
    put new (way ++ rest) e = put (put new rest (.dir [])) way e := by
  have hempty : ∀ way, put new (way ++ rest) (.dir []) = put (put new rest (.dir [])) way (.dir []) := by
    intro way
    induction way with
    | nil => rfl
    | cons name way ih => rw [List.cons_append, put, put, List.lookup_nil, Option.getD_none, ih]
  induction way generalizing e with
  | nil => cases h
  | cons name way ih =>
    cases e with
    | dir entries =>
      rw [List.cons_append, put, put]
      cases hl : entries.lookup name with
      | none => rw [Option.getD_none, hempty]
      | some g =>
        have hg : g.at? way = none := by simpa [at?, child?, hl] using h
        rw [Option.getD_some, ih hg]
    | file content => rw [List.cons_append, put, put, hempty] <;> simp
    | link target => rw [List.cons_append, put, put, hempty] <;> simp

theorem at?_put_of_not_prefix (h : ¬names <+: way) (h' : ¬way <+: names) (new e : Entry) :
    (put new names e).at? way = e.at? way := by
  induction names generalizing e way with
  | nil => exact (h List.nil_prefix).elim
  | cons name names ih =>
    cases way with
    | nil => exact (h' List.nil_prefix).elim
    | cons first way =>
      have hdir : ∀ entries, (put new (name :: names) (.dir entries)).at? (first :: way) =
          (Entry.dir entries).at? (first :: way) := by
        intro entries
        rw [put, at?, at?, child?, child?, Dict.lookup_put]
        by_cases hname : first = name
        · subst hname
          rw [if_pos (beq_self_eq_true first), Option.bind_some, ih]
          · cases entries.lookup first with
            | some g => rfl
            | none =>
              cases way with
              | nil => exact (h' ((List.prefix_cons_inj first).mpr List.nil_prefix)).elim
              | cons next way => rfl
          · exact fun hp => h ((List.prefix_cons_inj first).mpr hp)
          · exact fun hp => h' ((List.prefix_cons_inj first).mpr hp)
        · rw [if_neg (by simpa using hname)]
      cases e with
      | dir entries => exact hdir entries
      | file content => exact hdir []
      | link target => exact hdir []

theorem at?_put_dir (h : e.at? way = some (.dir entries)) (hway : ¬names <+: way) (new : Entry) :
    ∃ entries', (put new names e).at? way = some (.dir entries') := by
  induction way generalizing e names with
  | nil =>
    cases h
    cases names with
    | nil => exact (hway List.nil_prefix).elim
    | cons name names => exact ⟨_, rfl⟩
  | cons first way ih =>
    obtain ⟨g, hg, hrest⟩ := Option.bind_eq_some_iff.mp h
    cases e with
    | file content => cases hg
    | link target => cases hg
    | dir entries' =>
      have hg : entries'.lookup first = some g := hg
      cases names with
      | nil => exact (hway List.nil_prefix).elim
      | cons name names =>
        rw [put, at?, child?, Dict.lookup_put]
        by_cases hname : first = name
        · subst hname
          rw [if_pos (beq_self_eq_true first), Option.bind_some, hg, Option.getD_some]
          exact ih hrest fun hp => hway ((List.prefix_cons_inj first).mpr hp)
        · rw [if_neg (by simpa using hname), hg]
          exact ⟨entries, hrest⟩

theorem withoutIn_put (h : hidden (place ++ [name]) = false) (new : Entry)
    (entries : List (String × Entry)) :
    withoutIn hidden place (Dict.put name new entries) =
      Dict.put name (new.without hidden (place ++ [name])) (withoutIn hidden place entries) := by
  induction entries with
  | nil => simp [Dict.put, withoutIn, h]
  | cons x entries ih =>
    obtain ⟨other, f⟩ := x
    by_cases hname : name = other
    · subst hname
      simp [Dict.put, withoutIn, h]
    · cases ho : hidden (place ++ [other]) <;> simp [Dict.put, withoutIn, hname, ho, ih]

theorem put_without (hc : Closed hidden) (h : hidden (place ++ way) = false) (new e : Entry) :
    (put new way e).without hidden place =
      put (new.without hidden (place ++ way)) way (e.without hidden place) := by
  induction way generalizing e place with
  | nil => rw [List.append_nil, put, put]
  | cons name way ih =>
    rw [List.append_cons] at h ⊢
    have hname := hc.above h
    have hdir : ∀ entries, (put new (name :: way) (.dir entries)).without hidden place =
        put (new.without hidden (place ++ [name] ++ way)) (name :: way)
          ((Entry.dir entries).without hidden place) := by
      intro entries
      have hgetD : ((entries.lookup name).getD (.dir [])).without hidden (place ++ [name]) =
          ((withoutIn hidden place entries).lookup name).getD (.dir []) := by
        rw [lookup_withoutIn, if_neg (by simp [hname])]
        cases entries.lookup name <;> rfl
      rw [put, without, without, put, withoutIn_put hname, ih h, hgetD]
    cases he : e.isDir with
    | false =>
      have he' : (e.without hidden place).isDir = false := by rwa [isDir_without]
      rw [put_of_not_isDir he, put_of_not_isDir he', hdir]
      rfl
    | true =>
      cases e with
      | dir entries => exact hdir entries
      | file content => cases he
      | link target => cases he

end Entry

namespace Store

variable {s t : Store} {done todo : List String} {links : Nat} {content : ByteArray}

def folder (files : List (String × ByteArray)) : Entry :=
  .dir (files.map fun x => (x.1, .file x.2))

def putAt (s : Store) (place : List String) (new : Entry) : Store :=
  { s with root := Entry.put new place s.root }

theorem Sound.putAt (hs : s.Sound) (hplace : ∀ n ∈ place, Path.IsPart n) (hdown : ".." ∉ place)
    (hnew : new.Proper) (hbelow : ∀ way e, new.at? way = some e → ".." ∉ way) :
    (s.putAt place new).Sound where
  proper := Entry.Proper.put hs.proper hnew hplace
  down hat := by
    rcases Entry.at?_put_cases hat with ⟨rest, rfl, hrest⟩ | ⟨hway, -⟩ | hold
    · intro hmem
      rcases List.mem_append.mp hmem with hmem | hmem
      · exact hdown hmem
      · exact hbelow rest _ hrest hmem
    · exact fun hmem => hdown (hway.subset hmem)
    · exact hs.down hold

theorem Sound.putAt_file (hs : s.Sound) (hplace : ∀ n ∈ place, Path.IsPart n) (hdown : ".." ∉ place)
    (content : ByteArray) : (s.putAt place (.file content)).Sound := by
  apply hs.putAt hplace hdown (show (Entry.file content).Proper from trivial)
  intro way e he
  cases way with
  | nil => simp
  | cons name way => cases he

theorem file_of_folder {files : List (String × ByteArray)}
    (h : (folder files).at? (name :: way) = some e) :
    way = [] ∧ ∃ content, (name, content) ∈ files ∧ e = .file content := by
  obtain ⟨f, hf, he⟩ := Option.bind_eq_some_iff.mp h
  obtain ⟨x, hx, heq⟩ := List.mem_map.mp (Dict.mem_of_lookup hf)
  cases heq
  cases way with
  | nil =>
    cases he
    exact ⟨rfl, x.2, hx, rfl⟩
  | cons next way => cases he

theorem Sound.putAt_dir (hs : s.Sound) (hplace : ∀ n ∈ place, Path.IsPart n) (hdown : ".." ∉ place)
    (hnodup : (entries.map (·.1)).Nodup) (hnames : ∀ x ∈ entries, Path.IsPart x.1 ∧ x.1 ≠ "..")
    (hleaf : ∀ x ∈ entries, x.2.isDir = false) : (s.putAt place (.dir entries)).Sound := by
  have hall : ∀ l, l ⊆ entries → Entry.ProperAll l := by
    intro l hl
    induction l with
    | nil => trivial
    | cons x l ih =>
      obtain ⟨hx, hl⟩ := List.cons_subset.mp hl
      have hproper : x.2.Proper := by
        obtain ⟨name, e⟩ := x
        cases e with
        | file content => trivial
        | link target => trivial
        | dir found => cases hleaf _ hx
      exact ⟨(hnames x hx).1, hproper, ih hl⟩
  apply hs.putAt hplace hdown (show (Entry.dir entries).Proper from ⟨hnodup, hall _ fun _ h => h⟩)
  intro way e he
  cases way with
  | nil => simp
  | cons name way =>
    obtain ⟨f, hf, he⟩ := Option.bind_eq_some_iff.mp he
    have hmem := Dict.mem_of_lookup hf
    have hfile := hleaf _ hmem
    cases way with
    | nil => simpa using (hnames _ hmem).2.symm
    | cons next way =>
      cases f with
      | file content => cases he
      | link target => cases he
      | dir found => cases hfile

theorem Sound.putAt_folder (hs : s.Sound) (hplace : ∀ n ∈ place, Path.IsPart n) (hdown : ".." ∉ place)
    {files : List (String × ByteArray)} (hnodup : (files.map (·.1)).Nodup)
    (hnames : ∀ x ∈ files, Path.IsPart x.1 ∧ x.1 ≠ "..") : (s.putAt place (folder files)).Sound := by
  apply hs.putAt_dir hplace hdown
  · rwa [List.map_map]
  · exact List.forall_mem_map.mpr hnames
  · exact List.forall_mem_map.mpr fun _ _ => rfl

theorem putAt_without (hc : Closed hidden) (h : hidden place = false) (s : Store) (new : Entry) :
    (s.putAt place new).without hidden =
      (s.without hidden).putAt place (new.without hidden place) := by
  have hput : (Entry.put new place s.root).without hidden [] =
      Entry.put (new.without hidden place) place (s.root.without hidden []) := by
    apply Entry.put_without hc
    exact h
  simp only [putAt, Store.without, hput]

/-- What is put at a hidden place is not seen. -/
theorem without_putAt (hway : s.root.at? way = some (.dir entries))
    (h : hidden (way ++ [name]) = true) (new : Entry) (rest : List String) :
    (s.putAt (way ++ name :: rest) new).without hidden = s.without hidden := by
  have hroot : (Entry.put new (way ++ name :: rest) s.root).without hidden [] =
      s.root.without hidden [] := by
    apply Entry.without_put hway
    exact h
  simp only [putAt, Store.without, hroot]

theorem makeWay_append (hat : s.root.at? (done ++ way) = some (.dir entries)) (hdown : ".." ∉ way)
    (rest : List String) : s.makeWay done (way ++ rest) = s.makeWay (done ++ way) rest := by
  induction way generalizing done with
  | nil => rw [List.append_nil, List.nil_append]
  | cons name way ih =>
    have hname : name ≠ ".." := fun h => hdown (h ▸ List.mem_cons_self)
    have hway : done ++ [name] <+: done ++ name :: way := ⟨way, by simp⟩
    obtain ⟨entries', hhere⟩ := Entry.isDir_of_prefix hat rfl hway
    have hfollow : s.follow maxLinks done [name] = .ok (done ++ [name], .dir entries') :=
      (follow_append hhere rfl (by simpa using hname.symm) maxLinks []).trans
        (follow_nil maxLinks hhere)
    rw [List.append_cons] at hat
    rw [List.cons_append, makeWay, if_neg hname, hfollow]
    dsimp only
    rw [ih hat fun h => hdown (List.mem_cons_of_mem name h), ← List.append_cons]

theorem makeWay_place (hat : s.root.at? way = some (.dir entries)) (hdown : ".." ∉ way)
    (rest : List String) : s.makeWay [] (way ++ rest) = s.makeWay way rest := by
  rw [← List.nil_append way] at hat
  exact makeWay_append hat hdown rest

theorem makeWay_of_file (hat : s.root.at? (done ++ [name]) = some (.file content))
    (hname : name ≠ "..") (rest : List String) :
    s.makeWay done (name :: rest) =
      .error (if rest.isEmpty then .fileExists else .notDirectory, 0) := by
  have hfollow : s.follow maxLinks done [name] = .ok (done ++ [name], .file content) :=
    (follow_append hat rfl (by simpa using hname.symm) maxLinks []).trans (follow_nil maxLinks hat)
  rw [makeWay, if_neg hname, hfollow]

theorem makeWay_of_none (hdone : s.root.at? done = some (.dir entries))
    (hnone : s.root.at? (done ++ [name]) = none) (hdown : ".." ∉ name :: rest) :
    s.makeWay done (name :: rest) = .ok (s.putAt (done ++ name :: rest) (.dir [])) := by
  induction rest generalizing s done name entries with
  | nil =>
    have hname : name ≠ ".." := fun h => hdown (h ▸ List.mem_cons_self)
    have hfollow := follow_of_none maxLinks hdone hname (Entry.at?_concat hdone name ▸ hnone) []
    rw [makeWay, if_neg hname, hfollow]
    simp only [hnone, Option.isNone_none, if_true, makeWay]
    rfl
  | cons next rest ih =>
    have hname : name ≠ ".." := fun h => hdown (h ▸ List.mem_cons_self)
    have hfollow := follow_of_none maxLinks hdone hname (Entry.at?_concat hdone name ▸ hnone) []
    have hmade : (s.putAt (done ++ [name]) (.dir [])).root.at? (done ++ [name]) = some (.dir []) :=
      Entry.at?_put _ _ _
    have hnext : (s.putAt (done ++ [name]) (.dir [])).root.at? (done ++ [name] ++ [next]) = none :=
      (Entry.at?_put_append _ _ _ _).trans rfl
    have hrest := ih hmade hnext fun h => hdown (List.mem_cons_of_mem name h)
    have hroot : (s.putAt (done ++ [name]) (.dir [])).putAt (done ++ [name] ++ next :: rest) (.dir []) =
        s.putAt (done ++ [name] ++ next :: rest) (.dir []) := by
      rw [putAt, Entry.put_append hmade, putAt, putAt]
      simp only [Entry.put_put, Entry.put_append_of_none hnone]
    rw [hroot, ← List.append_cons] at hrest
    rw [makeWay, if_neg hname, hfollow]
    simp only [hnone, Option.isNone_none, if_true]
    exact hrest

/-- A place without links is a directory, or lies below one in which the next name stands for nothing
or for a file. -/
theorem Bare.ends (done : List String) (h : s.Bare (done ++ todo))
    (hdone : s.root.at? done = some (.dir entries)) :
    (∃ entries', s.root.at? (done ++ todo) = some (.dir entries')) ∨
    ∃ way name rest entries', done ++ todo = way ++ name :: rest ∧
      s.root.at? way = some (.dir entries') ∧
      (s.root.at? (way ++ [name]) = none ∨
        ∃ content, s.root.at? (way ++ [name]) = some (.file content)) := by
  induction todo generalizing done entries with
  | nil => exact .inl ⟨entries, by rwa [List.append_nil]⟩
  | cons name todo ih =>
    cases hat : s.root.at? (done ++ [name]) with
    | none => exact .inr ⟨done, name, todo, entries, rfl, hdone, .inl hat⟩
    | some e =>
      cases e with
      | file content => exact .inr ⟨done, name, todo, entries, rfl, hdone, .inr ⟨content, hat⟩⟩
      | link target => exact (h.noLink (done ++ [name]) ⟨todo, by simp⟩ target hat).elim
      | dir entries' =>
        rw [List.append_cons] at h ⊢
        exact ih (done ++ [name]) h hat

theorem makeDirs_of_locate {path : String} (h : s.locate path = .ok (place, .dir entries)) :
    s.makeDirs path = .ok s := by
  have hdir : s.isDir path = true := by
    rw [isDir, entry?, h]
    rfl
  rw [makeDirs, if_pos hdir]

theorem makeDirs_of_not_isDir {path : String} (h : s.isDir path = false) :
    s.makeDirs path =
      match s.makeWay [] (s.names path) with
      | .ok s => .ok s
      | .error (fault, left) => .error ⟨fault, Path.above left path⟩ := by
  rw [makeDirs]
  exact if_neg (by simp [h])

theorem makeDirs_of_none (h : s.Bare (way ++ name :: rest))
    (hway : s.root.at? way = some (.dir entries)) (hnone : s.root.at? (way ++ [name]) = none) :
    s.makeDirs (Path.ofParts (way ++ name :: rest)) =
      .ok (s.putAt (way ++ name :: rest) (.dir [])) := by
  have hdown := h.down
  rw [List.mem_append, not_or] at hdown
  have hname : name ≠ ".." := fun he => hdown.2 (he ▸ List.mem_cons_self)
  have hfollow := (follow_place hway rfl hdown.1 maxLinks (name :: rest)).trans
    (follow_of_none maxLinks hway hname (Entry.at?_concat hway name ▸ hnone) rest)
  have hdir : s.isDir (Path.ofParts (way ++ name :: rest)) = false := by
    rw [isDir, entry?, locate, s.names_ofParts h.isPart, hfollow]
    rfl
  rw [makeDirs_of_not_isDir hdir, s.names_ofParts h.isPart, makeWay_place hway hdown.1,
    makeWay_of_none hway hnone hdown.2]

theorem makeDirs_of_file (h : s.Bare (way ++ name :: rest))
    (hway : s.root.at? way = some (.dir entries))
    (hfile : s.root.at? (way ++ [name]) = some (.file content)) :
    s.makeDirs (Path.ofParts (way ++ name :: rest)) =
      .error ⟨if rest.isEmpty then .fileExists else .notDirectory,
        Path.above 0 (Path.ofParts (way ++ name :: rest))⟩ := by
  have hdown := h.down
  rw [List.mem_append, not_or] at hdown
  have hname : name ≠ ".." := fun he => hdown.2 (he ▸ List.mem_cons_self)
  have hdir : s.isDir (Path.ofParts (way ++ name :: rest)) = false := by
    have hfollow := follow_place hfile rfl (by simpa using ⟨hdown.1, hname.symm⟩) maxLinks rest
    rw [← List.append_cons] at hfollow
    rw [isDir, entry?, locate, s.names_ofParts h.isPart, hfollow]
    cases rest with
    | nil =>
      rw [follow_nil maxLinks hfile]
      rfl
    | cons next rest =>
      rw [follow_of_file maxLinks hfile]
      rfl
  rw [makeDirs_of_not_isDir hdir, s.names_ofParts h.isPart, makeWay_place hway hdown.1,
    makeWay_of_file hfile hname]

theorem makeDirs_cases (h : s.Bare place) (hroot : s.root.at? [] = some (.dir entries))
    (hok : s.makeDirs (Path.ofParts place) = .ok t) :
    (t = s ∧ ∃ entries', s.root.at? place = some (.dir entries')) ∨
    (t = s.putAt place (.dir []) ∧ ∃ way name rest entries', place = way ++ name :: rest ∧
      s.root.at? way = some (.dir entries') ∧ s.root.at? (way ++ [name]) = none) := by
  rcases Bare.ends [] h hroot with ⟨entries', hat⟩ |
    ⟨way, name, rest, entries', hp, hway, hend⟩
  · rw [makeDirs_of_locate (h.locate hat)] at hok
    cases hok
    exact .inl ⟨rfl, entries', hat⟩
  · rw [List.nil_append] at hp
    subst hp
    rcases hend with hnone | ⟨content, hfile⟩
    · rw [makeDirs_of_none h hway hnone] at hok
      cases hok
      exact .inr ⟨rfl, way, name, rest, entries', rfl, hway, hnone⟩
    · rw [makeDirs_of_file h hway hfile] at hok
      cases hok

/-- What is there after directories have been made: what was there before, and the directories. -/
structure Made (s : Store) (place : List String) (t : Store) : Prop where
  sound : t.Sound
  dir : ∃ entries, t.root.at? place = some (.dir entries)
  others : ∀ way e, t.root.at? way = some e → s.root.at? way = some e ∨ way <+: place ∧ e.isDir
  kept : ∀ way e, s.root.at? (place ++ way) = some e → t.root.at? (place ++ way) = some e
  unseen : ∀ hidden, (∀ way, way <+: place → s.root.at? way = none → hidden way = true) →
    t.without hidden = s.without hidden

theorem made_of_makeDirs (hs : s.Sound) (h : s.Bare place)
    (hroot : s.root.at? [] = some (.dir entries))
    (hok : s.makeDirs (Path.ofParts place) = .ok t) : s.Made place t := by
  rcases makeDirs_cases h hroot hok with ⟨rfl, entries', hat⟩ |
    ⟨rfl, way, name, rest, entries', rfl, hway, hnone⟩
  · exact ⟨hs, ⟨entries', hat⟩, fun _ _ he => .inl he, fun _ _ he => he, fun _ _ => rfl⟩
  · constructor
    case sound => exact hs.putAt_dir h.isPart h.down List.nodup_nil (by simp) (by simp)
    case dir => exact ⟨[], Entry.at?_put _ _ _⟩
    case others =>
      intro other e he
      rcases Entry.at?_put_cases he with ⟨more, rfl, hmore⟩ | hdir | hold
      · cases more with
        | nil =>
          cases hmore
          exact .inr ⟨by rw [List.append_nil], rfl⟩
        | cons next more => cases hmore
      · exact .inr hdir
      · exact .inl hold
    case kept =>
      intro other e he
      rw [List.append_cons, List.append_assoc, Entry.at?_append, hnone] at he
      cases he
    case unseen =>
      intro hidden hhidden
      exact without_putAt hway (hhidden (way ++ [name]) ⟨rest, by simp⟩ hnone) (.dir []) rest

theorem Visits.append (h : s.Visits done todo place) (rest : List String) :
    s.Visits done (todo ++ rest) place := by
  induction h with
  | up hat hv ih => exact .up hat ih
  | look hat hname => exact .look hat hname
  | down hat hlink hname hv ih => exact .down hat hlink hname ih
  | jump hat hname hv ih =>
    rw [List.append_assoc] at ih
    exact .jump hat hname ih

theorem visits_of_followBy
    {jump : List String → List String → Except PathFault (List String × Entry)}
    (hjump : ∀ done todo found, jump done todo = .ok found → ∀ rest place,
      s.Visits found.1 rest place → s.Visits done (todo ++ rest) place)
    {found : List String × Entry} (h : s.followBy jump done todo = .ok found)
    (hv : s.Visits found.1 rest place) : s.Visits done (todo ++ rest) place := by
  induction todo generalizing done with
  | nil =>
    rw [followBy] at h
    split at h
    · cases h
      exact hv
    · cases h
  | cons name todo ih =>
    rw [followBy] at h
    split at h
    · next entries hat =>
      by_cases hname : name = ".."
      · subst hname
        rw [if_pos rfl] at h
        exact .up hat (ih h)
      · rw [if_neg hname] at h
        have hhere := Entry.at?_concat hat name
        split at h
        · cases h
        · next target hl =>
          rw [hl] at hhere
          have hrest := hjump _ _ _ h rest place hv
          rw [List.append_assoc] at hrest
          exact .jump hhere hname hrest
        · next f hlink hl =>
          rw [hl] at hhere
          have hf : f.isLink = false := by
            cases f with
            | link target => exact (hlink target rfl).elim
            | file content => rfl
            | dir entries => rfl
          exact .down hhere hf hname (ih h)
    · cases h
    · cases h

theorem visits_of_follow {found : List String × Entry} (h : s.follow links done todo = .ok found)
    (hv : s.Visits found.1 rest place) : s.Visits done (todo ++ rest) place := by
  induction links generalizing done todo found rest place with
  | zero => exact visits_of_followBy (fun _ _ _ h => by cases h) h hv
  | succ links ih => exact visits_of_followBy (fun _ _ _ h _ _ hv => ih h hv) h hv

theorem writePlace_cases (h : s.writePlace links done todo = .ok place) :
    ∃ before name way entries, todo = before ++ [name] ∧ name ≠ ".." ∧
      s.follow links done before = .ok (way, .dir entries) ∧
      ((place = way ++ [name] ∧
        (entries.lookup name = none ∨ ∃ content, entries.lookup name = some (.file content))) ∨
      ∃ target fewer, links = fewer + 1 ∧ entries.lookup name = some (.link target) ∧
        s.writePlace fewer (if Path.isAbsolute target then [] else way) (Path.parts target) =
          .ok place) := by
  unfold writePlace at h
  split at h
  · cases h
  · cases h
  · next name way entries hlast hfollow =>
    split at h
    · cases h
    · next hname =>
      refine ⟨todo.dropLast, name, way, entries, ?_, hname, hfollow, ?_⟩
      · exact (List.dropLast_append_getLast? name hlast).symm
      · split at h
        · next hl =>
          cases h
          exact .inl ⟨rfl, .inl hl⟩
        · next content hl =>
          cases h
          exact .inl ⟨rfl, .inr ⟨content, hl⟩⟩
        · cases h
        · next target hl =>
          split at h
          · cases h
          · next fewer => exact .inr ⟨target, fewer, rfl, hl, h⟩
  · cases h

/-- The place of a file that is written is looked at on the way, in a directory where its name stands
for nothing or for a file. -/
theorem writePlace_ok (h : s.writePlace links done todo = .ok place) :
    s.Visits done todo place ∧ ∃ way name entries, place = way ++ [name] ∧ name ≠ ".." ∧
      s.root.at? way = some (.dir entries) ∧
      (entries.lookup name = none ∨ ∃ content, entries.lookup name = some (.file content)) := by
  induction links using Nat.strongRecOn generalizing done todo with
  | _ links ih =>
    obtain ⟨before, name, way, entries, rfl, hname, hfollow, hend⟩ := writePlace_cases h
    have hway := at?_of_follow hfollow
    rcases hend with ⟨rfl, hl⟩ | ⟨target, fewer, rfl, hl, hrest⟩
    · exact ⟨visits_of_follow hfollow (.look hway hname), way, name, entries, rfl, hname, hway, hl⟩
    · obtain ⟨hv, hplace⟩ := ih fewer (Nat.lt_succ_self fewer) hrest
      have hhere : s.root.at? (way ++ [name]) = some (.link target) :=
        (Entry.at?_concat hway name).trans hl
      refine ⟨visits_of_follow hfollow (.jump hhere hname ?_), hplace⟩
      rwa [List.append_nil]

theorem writePlace_without (hc : Closed hidden) (hdone : hidden done = false)
    (h : s.Avoids hidden done todo) :
    (s.without hidden).writePlace links done todo = s.writePlace links done todo := by
  induction links using Nat.strongRecOn generalizing done todo with
  | _ links ih =>
    rcases List.eq_nil_or_concat todo with rfl | ⟨before, name, rfl⟩
    · unfold writePlace
      rfl
    · rw [List.concat_eq_append] at h ⊢
      have hbefore : s.Avoids hidden done before := fun x hx => h x (hx.append [name])
      unfold writePlace
      simp only [List.getLast?_concat, List.dropLast_concat, follow_without hc links hdone hbefore]
      cases hfollow : s.follow links done before with
      | error fault => rfl
      | ok found =>
        obtain ⟨way, e⟩ := found
        cases e with
        | file content => rfl
        | link target => rfl
        | dir entries =>
          have hway := at?_of_follow hfollow
          by_cases hname : name = ".."
          · simp only [Except.map, foundWithout, Entry.without, if_pos hname]
          · have hhere := h _ (visits_of_follow hfollow (.look hway hname))
            simp only [Except.map, foundWithout, Entry.without, if_neg hname,
              Entry.lookup_withoutIn, hhere, Bool.false_eq_true, if_false]
            have hat := Entry.at?_concat hway name
            cases hl : entries.lookup name with
            | none => rfl
            | some f =>
              cases f with
              | file content => rfl
              | dir entries => rfl
              | link target =>
                cases links with
                | zero => rfl
                | succ fewer =>
                  apply ih fewer (Nat.lt_succ_self fewer) (base_unhidden hc (hc.above hhere))
                  intro x hx
                  refine h x (visits_of_follow hfollow (.jump (hat.trans hl) hname ?_))
                  rwa [List.append_nil]

theorem writeFile_eq (hplace : s.Bare place) (hat : s.root.at? place = some (.dir entries))
    (hname : Path.IsPart name) (content : ByteArray) :
    s.writeFile (Path.ofParts (place ++ [name])) content =
      match s.writePlace maxLinks place [name] with
      | .ok p => .ok (s.putAt p (.file content))
      | .error fault => .error ⟨fault, Path.tidy (Path.ofParts (place ++ [name]))⟩ := by
  have hparts : ∀ n ∈ place ++ [name], Path.IsPart n := by
    simpa [or_imp, forall_and] using ⟨hplace.isPart, hname⟩
  have hfollow : s.follow maxLinks [] place = .ok (place, .dir entries) := by
    have h := follow_place hat rfl hplace.down maxLinks []
    rw [List.append_nil] at h
    exact h.trans (follow_nil maxLinks hat)
  have hwrite : s.writePlace maxLinks [] (place ++ [name]) = s.writePlace maxLinks place [name] := by
    unfold writePlace
    simp only [List.getLast?_concat, List.dropLast_concat, List.getLast?_singleton,
      List.dropLast_singleton, hfollow, follow_nil maxLinks hat]
  rw [writeFile, s.names_ofParts hparts, hwrite]
  rfl

theorem writeFile_ok (hplace : s.Bare place) (hat : s.root.at? place = some (.dir entries))
    (hname : Path.IsPart name)
    (hok : s.writeFile (Path.ofParts (place ++ [name])) content = .ok t) :
    ∃ p, s.writePlace maxLinks place [name] = .ok p ∧ t = s.putAt p (.file content) := by
  rw [writeFile_eq hplace hat hname] at hok
  split at hok
  · next p hp =>
    cases hok
    exact ⟨p, hp, rfl⟩
  · cases hok

/-- A place where a file can be written. -/
structure Free (s : Store) (place : List String) : Prop where
  ends : ∃ way name entries, place = way ++ [name] ∧ s.root.at? way = some (.dir entries)
  noDir : ∀ e, s.root.at? place = some e → ∃ content, e = .file content

theorem free_of_writePlace (h : s.writePlace links done todo = .ok place) : s.Free place := by
  obtain ⟨-, way, name, entries, rfl, -, hway, hl⟩ := writePlace_ok h
  refine ⟨⟨way, name, entries, rfl, hway⟩, ?_⟩
  intro e he
  rw [Entry.at?_concat hway] at he
  rcases hl with hl | ⟨content, hl⟩
  · rw [hl] at he
    cases he
  · rw [hl] at he
    cases he
    exact ⟨content, rfl⟩

theorem Free.dir_of_prefix (h : s.Free place) (hway : way <+: place) (hne : way ≠ place) :
    ∃ entries, s.root.at? way = some (.dir entries) := by
  obtain ⟨before, name, entries, rfl, hdir⟩ := h.ends
  apply Entry.isDir_of_prefix hdir rfl
  rcases List.prefix_concat_iff.mp hway with rfl | hway
  · exact (hne rfl).elim
  · exact hway

/-- A file in a directory is written right there, unless there is a link by its name. -/
theorem writeFile_here (hplace : s.Bare place) (hat : s.root.at? place = some (.dir entries))
    (hname : Path.IsPart name)
    (hlink : ∀ target, s.root.at? (place ++ [name]) ≠ some (.link target))
    (hok : s.writeFile (Path.ofParts (place ++ [name])) content = .ok t) :
    s.Free (place ++ [name]) ∧ t = s.putAt (place ++ [name]) (.file content) := by
  obtain ⟨p, hp, rfl⟩ := writeFile_ok hplace hat hname hok
  obtain ⟨before, last, way, found, htodo, -, hfollow, hend⟩ := writePlace_cases hp
  obtain ⟨rfl, rfl⟩ : before = [] ∧ last = name := by
    have hlength := congrArg List.length htodo
    have hnil : before = [] := by simpa using hlength
    subst hnil
    simpa using htodo.symm
  rw [follow_nil maxLinks hat] at hfollow
  cases hfollow
  rcases hend with ⟨rfl, -⟩ | ⟨target, -, -, hl, -⟩
  · exact ⟨free_of_writePlace hp, rfl⟩
  · exact (hlink target ((Entry.at?_concat hat last).trans hl)).elim

theorem Free.dir_putAt (h : s.Free place) (hway : s.root.at? way = some (.dir entries))
    (content : ByteArray) :
    ∃ entries', (s.putAt place (.file content)).root.at? way = some (.dir entries') := by
  apply Entry.at?_put_dir hway
  intro hp
  obtain ⟨entries', hdir⟩ := Entry.isDir_of_prefix hway rfl hp
  obtain ⟨content, hfile⟩ := h.noDir _ hdir
  cases hfile

/-- What is there after a file was written: the file, or what was there before. -/
theorem Free.at?_putAt (h : s.Free place)
    (hat : (s.putAt place (.file content)).root.at? way = some e) :
    (way = place ∧ e = .file content) ∨
    (∃ entries entries', e = .dir entries ∧ s.root.at? way = some (.dir entries')) ∨
    s.root.at? way = some e := by
  rcases Entry.at?_put_cases hat with ⟨rest, rfl, hrest⟩ | ⟨hway, hdir⟩ | hold
  · cases rest with
    | nil =>
      cases hrest
      exact .inl ⟨List.append_nil place, rfl⟩
    | cons name rest => cases hrest
  · by_cases hne : way = place
    · subst hne
      have hnew : (s.putAt way (.file content)).root.at? way = some (.file content) :=
        Entry.at?_put _ _ _
      rw [hnew] at hat
      cases hat
      cases hdir
    · obtain ⟨entries', hold⟩ := h.dir_of_prefix hway hne
      cases e with
      | dir entries => exact .inr (.inl ⟨entries, entries', rfl, hold⟩)
      | file content => cases hdir
      | link target => cases hdir
  · exact .inr (.inr hold)

theorem Free.dir_of_putAt (h : s.Free place)
    (hat : (s.putAt place (.file content)).root.at? way = some (.dir entries)) :
    ∃ entries', s.root.at? way = some (.dir entries') := by
  rcases h.at?_putAt hat with ⟨-, hfile⟩ | ⟨-, entries', -, hold⟩ | hold
  · cases hfile
  · exact ⟨entries', hold⟩
  · exact ⟨entries, hold⟩

end Store

end GoAtlas.Files
