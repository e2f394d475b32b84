import GoAtlas.Proofs.Files.Places

namespace GoAtlas.Files

mutual
/-- What stands at a place, less what lies at hidden places. -/
def Entry.without (hidden : List String → Bool) (place : List String) : Entry → Entry
  | .file content => .file content
  | .link target => .link target
  | .dir entries => .dir (Entry.withoutIn hidden place entries)

def Entry.withoutIn (hidden : List String → Bool) (place : List String) :
    List (String × Entry) → List (String × Entry)
  | [] => []
  | (name, e) :: more =>
    if hidden (place ++ [name]) then Entry.withoutIn hidden place more
    else (name, e.without hidden (place ++ [name])) :: Entry.withoutIn hidden place more
end

/-- A store less what lies at hidden places. -/
def Store.without (s : Store) (hidden : List String → Bool) : Store :=
  { s with root := s.root.without hidden [] }

def Closed (hidden : List String → Bool) : Prop :=
  ∀ place more, hidden place = true → hidden (place ++ more) = true

/-- A place that is looked at when names are followed from a directory, be it there or not. -/
inductive Store.Visits (s : Store) : List String → List String → List String → Prop
  | up {done rest place entries} : s.root.at? done = some (.dir entries) →
      Store.Visits s done.dropLast rest place → Store.Visits s done (".." :: rest) place
  | look {done name rest entries} : s.root.at? done = some (.dir entries) → name ≠ ".." →
      Store.Visits s done (name :: rest) (done ++ [name])
  | down {done name rest place e} : s.root.at? (done ++ [name]) = some e → e.isLink = false →
      name ≠ ".." → Store.Visits s (done ++ [name]) rest place → Store.Visits s done (name :: rest) place
  | jump {done name rest place target} : s.root.at? (done ++ [name]) = some (.link target) →
      name ≠ ".." → Store.Visits s (if Path.isAbsolute target then [] else done)
        (Path.parts target ++ rest) place → Store.Visits s done (name :: rest) place

def Store.Avoids (s : Store) (hidden : List String → Bool) (done todo : List String) : Prop :=
  ∀ place, s.Visits done todo place → hidden place = false

/-- Links that are not hidden themselves lead by no hidden place. -/
def Store.LinksAvoid (s : Store) (hidden : List String → Bool) : Prop :=
  ∀ way name target, hidden (way ++ [name]) = false →
    s.root.at? (way ++ [name]) = some (.link target) →
    s.Avoids hidden (if Path.isAbsolute target then [] else way) (Path.parts target)

/-- A place that one of the links leads to or by. -/
def Store.LeadsBy (s : Store) (place : List String) : Prop :=
  ∃ way name target, s.root.at? (way ++ [name]) = some (.link target) ∧
    s.Visits (if Path.isAbsolute target then [] else way) (Path.parts target) place

variable {hidden : List String → Bool} {e f new : Entry} {place way rest names : List String}
  {name : String} {entries : List (String × Entry)}

theorem Closed.above (h : Closed hidden) (hway : hidden (way ++ rest) = false) :
    hidden way = false := by
  cases hw : hidden way with
  | false => rfl
  | true => rw [h way rest hw] at hway; cases hway

theorem Closed.root (h : Closed hidden) (hway : hidden way = false) : hidden [] = false := by
  rw [← List.nil_append way] at hway
  exact h.above hway

theorem Closed.dropLast (h : Closed hidden) (hway : hidden way = false) :
    hidden way.dropLast = false := by
  rcases List.eq_nil_or_concat way with rfl | ⟨before, last, rfl⟩
  · exact hway
  · rw [List.concat_eq_append] at hway ⊢
    rw [List.dropLast_concat]
    exact h.above hway

namespace Entry

theorem withoutIn_eq (hidden : List String → Bool) (place : List String)
    (entries : List (String × Entry)) :
    withoutIn hidden place entries =
      (entries.filter fun x => !hidden (place ++ [x.1])).map fun x =>
        (x.1, x.2.without hidden (place ++ [x.1])) := by
  induction entries with
  | nil => rfl
  | cons x entries ih =>
    obtain ⟨name, e⟩ := x
    cases h : hidden (place ++ [name]) with
    | true => simp [withoutIn, h, ih]
    | false => simp [withoutIn, h, ih]

theorem lookup_withoutIn (hidden : List String → Bool) (place : List String)
    (entries : List (String × Entry)) (name : String) :
    (withoutIn hidden place entries).lookup name =
      if hidden (place ++ [name]) then none
      else (entries.lookup name).map (·.without hidden (place ++ [name])) := by
  induction entries with
  | nil => simp [withoutIn]
  | cons x entries ih =>
    obtain ⟨other, e⟩ := x
    by_cases hname : name = other
    · subst hname
      cases h : hidden (place ++ [name]) with
      | true => simpa [withoutIn, h] using ih
      | false => simp [withoutIn, h]
    · have hne : (name == other) = false := by simpa using hname
      cases h : hidden (place ++ [other]) with
      | true => simpa [withoutIn, h, List.lookup_cons, hne] using ih
      | false => simpa [withoutIn, h, List.lookup_cons, hne] using ih

theorem at?_without (hc : Closed hidden) (h : hidden (place ++ way) = false) :
    (e.without hidden place).at? way = (e.at? way).map (·.without hidden (place ++ way)) := by
  induction way generalizing e place with
  | nil => simp [at?]
  | cons name way ih =>
    rw [List.append_cons] at h
    cases e with
    | file content => rfl
    | link target => rfl
    | dir entries =>
      rw [without, at?, at?, child?, child?, lookup_withoutIn, if_neg (by simp [hc.above h])]
      cases entries.lookup name with
      | none => rfl
      | some f =>
        rw [Option.map_some, Option.bind_some, Option.bind_some, ih h, ← List.append_cons]

theorem at?_without_of_hidden (hplace : hidden place = false) (h : hidden (place ++ way) = true) :
    (e.without hidden place).at? way = none := by
  induction way generalizing e place with
  | nil => simp [hplace] at h
  | cons name way ih =>
    rw [List.append_cons] at h
    cases e with
    | file content => rfl
    | link target => rfl
    | dir entries =>
      rw [without, at?, child?, lookup_withoutIn]
      split
      · rfl
      · next hname =>
        cases entries.lookup name with
        | none => rfl
        | some f => exact ih (by simpa using hname) h

@[simp] theorem isDir_without (e : Entry) : (e.without hidden place).isDir = e.isDir := by
  cases e <;> rfl

@[simp] theorem isLink_without (e : Entry) : (e.without hidden place).isLink = e.isLink := by
  cases e <;> rfl

theorem withoutIn_put_of_hidden (h : hidden (place ++ [name]) = true) (new : Entry)
    (entries : List (String × Entry)) :
    withoutIn hidden place (Dict.put name new entries) = withoutIn hidden place entries := by
  induction entries with
  | nil => simp [Dict.put, withoutIn, h]
  | cons x entries ih =>
    obtain ⟨other, f⟩ := x
    by_cases hname : name = other
    · subst hname
      simp [Dict.put, withoutIn, h]
    · simp [Dict.put, withoutIn, hname, ih]

theorem withoutIn_put_of_eq (hold : entries.lookup name = some e)
    (heq : new.without hidden (place ++ [name]) = e.without hidden (place ++ [name])) :
    withoutIn hidden place (Dict.put name new entries) = withoutIn hidden place entries := by
  induction entries with
  | nil => cases hold
  | cons x entries ih =>
    obtain ⟨other, f⟩ := x
    by_cases hname : name = other
    · subst hname
      rw [List.lookup_cons_self] at hold
      cases hold
      simp [Dict.put, withoutIn, heq]
    · have hne : (name == other) = false := by simpa using hname
      rw [List.lookup_cons, hne] at hold
      simp [Dict.put, withoutIn, hne, ih hold]

mutual
theorem Proper.without (hidden : List String → Bool) : (place : List String) → (e : Entry) →
    e.Proper → (e.without hidden place).Proper
  | _, .file _, _ => trivial
  | _, .link _, _ => trivial
  | place, .dir entries, h => by
    obtain ⟨hproper, hnames⟩ := ProperAll.withoutIn hidden place entries h.2
    exact ⟨hnames.nodup h.1, hproper⟩

theorem ProperAll.withoutIn (hidden : List String → Bool) : (place : List String) →
    (entries : List (String × Entry)) → ProperAll entries →
    ProperAll (Entry.withoutIn hidden place entries) ∧
      ((Entry.withoutIn hidden place entries).map (·.1)).Sublist (entries.map (·.1))
  | _, [], _ => ⟨trivial, .slnil⟩
  | place, (name, e) :: more, h => by
    obtain ⟨hproper, hnames⟩ := ProperAll.withoutIn hidden place more h.2.2
    rw [Entry.withoutIn]
    split
    · exact ⟨hproper, hnames.cons name⟩
    · exact ⟨⟨h.1, Proper.without hidden (place ++ [name]) e h.2.1, hproper⟩, hnames.cons_cons name⟩
end

/-- What is put at a hidden place of a directory makes no difference. -/
theorem without_put (hway : e.at? way = some (.dir entries))
    (h : hidden (place ++ way ++ [name]) = true) (new : Entry) (rest : List String) :
    (put new (way ++ name :: rest) e).without hidden place = e.without hidden place := by
  induction way generalizing e place with
  | nil =>
    cases hway
    rw [List.append_nil] at h
    rw [List.nil_append, put, without, without, withoutIn_put_of_hidden h]
  | cons first way ih =>
    obtain ⟨g, hg, hrest⟩ := Option.bind_eq_some_iff.mp hway
    cases e with
    | file content => cases hg
    | link target => cases hg
    | dir entries' =>
      have hg : entries'.lookup first = some g := hg
      rw [List.append_cons place first way] at h
      rw [List.cons_append, put, hg, Option.getD_some, without, without,
        withoutIn_put_of_eq hg (ih hrest h)]

end Entry

namespace Store

variable {s t : Store} {done todo : List String} {links : Nat}

theorem at?_without (hc : Closed hidden) (h : hidden way = false) :
    (s.without hidden).root.at? way = (s.root.at? way).map (·.without hidden way) :=
  Entry.at?_without hc h

theorem dir_of_without (hc : Closed hidden) (h : hidden way = false)
    (hat : (s.without hidden).root.at? way = some (.dir entries)) :
    ∃ entries', s.root.at? way = some (.dir entries') := by
  rw [at?_without hc h] at hat
  obtain ⟨e, he, hdir⟩ := Option.map_eq_some_iff.mp hat
  cases e with
  | dir entries' => exact ⟨entries', he⟩
  | file content => cases hdir
  | link target => cases hdir

theorem link_of_without (hc : Closed hidden) (hroot : hidden [] = false) {target : String} :
    (s.without hidden).root.at? way = some (.link target) ↔
      hidden way = false ∧ s.root.at? way = some (.link target) := by
  cases h : hidden way with
  | true =>
    have hnone : (s.without hidden).root.at? way = none := Entry.at?_without_of_hidden hroot h
    simp [hnone]
  | false =>
    rw [at?_without hc h]
    cases s.root.at? way with
    | none => simp
    | some e => cases e <;> simp [Entry.without]

theorem Bare.without (hc : Closed hidden) (h : s.Bare place) (hplace : hidden place = false) :
    (s.without hidden).Bare place where
  isPart := h.isPart
  down := h.down
  noLink way hway target hlink := by
    obtain ⟨rest, rfl⟩ := hway
    rw [at?_without hc (hc.above hplace)] at hlink
    obtain ⟨e, he, hlink⟩ := Option.map_eq_some_iff.mp hlink
    cases e with
    | link target => exact h.noLink way ⟨rest, rfl⟩ _ he
    | file content => cases hlink
    | dir entries => cases hlink

theorem Sound.without (hs : s.Sound) (hc : Closed hidden) (hroot : hidden [] = false) :
    (s.without hidden).Sound where
  proper := Entry.Proper.without hidden [] s.root hs.proper
  down {way e} hat := by
    cases h : hidden way with
    | true =>
      have hnone : (s.without hidden).root.at? way = none := Entry.at?_without_of_hidden hroot h
      rw [hnone] at hat
      cases hat
    | false =>
      rw [at?_without hc h] at hat
      obtain ⟨f, hf, -⟩ := Option.map_eq_some_iff.mp hat
      exact hs.down hf

theorem dir_without (hc : Closed hidden) (h : hidden way = false)
    (hat : s.root.at? way = some (.dir entries)) :
    (s.without hidden).root.at? way = some (.dir (Entry.withoutIn hidden way entries)) := by
  rw [at?_without hc h, hat]
  rfl

theorem Avoids.look (h : s.Avoids hidden done (name :: rest))
    (hdone : s.root.at? done = some (.dir entries)) (hname : name ≠ "..") :
    hidden (done ++ [name]) = false :=
  h _ (.look hdone hname)

theorem base_unhidden {target : String} (hc : Closed hidden) (hdone : hidden done = false) :
    hidden (if Path.isAbsolute target then [] else done) = false := by
  split
  · exact hc.root hdone
  · exact hdone

/-- The walk is the same without what is hidden. -/
theorem Avoids.without (hc : Closed hidden) (hdone : hidden done = false)
    (h : s.Avoids hidden done todo) : (s.without hidden).Avoids hidden done todo := by
  intro place hv
  induction hv with
  | up hat hv ih =>
    obtain ⟨entries, hat⟩ := dir_of_without hc hdone hat
    exact ih (hc.dropLast hdone) fun x hx => h x (.up hat hx)
  | look hat hname =>
    obtain ⟨entries, hat⟩ := dir_of_without hc hdone hat
    exact h.look hat hname
  | down hat hlink hname hv ih =>
    obtain ⟨entries, hdir, -⟩ := Entry.dir_of_at?_concat hat
    obtain ⟨entries, hdir⟩ := dir_of_without hc hdone hdir
    have hhere := h.look hdir hname
    rw [at?_without hc hhere] at hat
    obtain ⟨f, hf, rfl⟩ := Option.map_eq_some_iff.mp hat
    rw [Entry.isLink_without] at hlink
    exact ih hhere fun x hx => h x (.down hf hlink hname hx)
  | jump hat hname hv ih =>
    obtain ⟨entries, hdir, -⟩ := Entry.dir_of_at?_concat hat
    obtain ⟨entries, hdir⟩ := dir_of_without hc hdone hdir
    rw [at?_without hc (h.look hdir hname)] at hat
    obtain ⟨f, hf, hlink⟩ := Option.map_eq_some_iff.mp hat
    cases f with
    | file content => cases hlink
    | dir entries => cases hlink
    | link target =>
      cases hlink
      exact ih (base_unhidden hc hdone) fun x hx => h x (.jump hf hname hx)

theorem Avoids.of_without (hc : Closed hidden) (hdone : hidden done = false)
    (h : (s.without hidden).Avoids hidden done todo) : s.Avoids hidden done todo := by
  intro place hv
  induction hv with
  | up hat hv ih => exact ih (hc.dropLast hdone) fun x hx => h x (.up (dir_without hc hdone hat) hx)
  | look hat hname => exact h.look (dir_without hc hdone hat) hname
  | down hat hlink hname hv ih =>
    obtain ⟨entries, hat', -⟩ := Entry.dir_of_at?_concat hat
    have hhere := h.look (dir_without hc hdone hat') hname
    have hhere' := at?_without (s := s) hc hhere
    rw [hat, Option.map_some] at hhere'
    exact ih hhere fun x hx => h x (.down hhere' (by rwa [Entry.isLink_without]) hname hx)
  | jump hat hname hv ih =>
    obtain ⟨entries, hat', -⟩ := Entry.dir_of_at?_concat hat
    have hhere := h.look (dir_without hc hdone hat') hname
    have hhere' := at?_without (s := s) hc hhere
    rw [hat, Option.map_some] at hhere'
    exact ih (base_unhidden hc hdone) fun x hx => h x (.jump hhere' hname hx)

def foundWithout (hidden : List String → Bool) (found : List String × Entry) :
    List String × Entry :=
  (found.1, found.2.without hidden found.1)

theorem followBy_without (hc : Closed hidden)
    {jump jump' : List String → List String → Except PathFault (List String × Entry)}
    (hjump : ∀ done todo, hidden done = false → s.Avoids hidden done todo →
      jump' done todo = (jump done todo).map (foundWithout hidden))
    (hdone : hidden done = false) (h : s.Avoids hidden done todo) :
    (s.without hidden).followBy jump' done todo =
      (s.followBy jump done todo).map (foundWithout hidden) := by
  induction todo generalizing done with
  | nil =>
    rw [followBy, followBy, at?_without hc hdone]
    cases s.root.at? done <;> rfl
  | cons name rest ih =>
    rw [followBy, followBy, at?_without hc hdone]
    cases hat : s.root.at? done with
    | none => rfl
    | some e =>
      cases e with
      | file content => rfl
      | link target => rfl
      | dir entries =>
        by_cases hname : name = ".."
        · subst hname
          simp only [Option.map_some, Entry.without, if_true]
          exact ih (hc.dropLast hdone) fun x hx => h x (.up hat hx)
        · have hhere := h.look hat hname
          simp only [Option.map_some, Entry.without, if_neg hname, Entry.lookup_withoutIn, hhere,
            Bool.false_eq_true, if_false]
          have hat' := Entry.at?_concat hat name
          cases hl : entries.lookup name with
          | none => rfl
          | some f =>
            rw [hl] at hat'
            cases f with
            | link target =>
              exact hjump _ _ (base_unhidden hc hdone) fun x hx => h x (.jump hat' hname hx)
            | file content => exact ih hhere fun x hx => h x (.down hat' rfl hname hx)
            | dir entries => exact ih hhere fun x hx => h x (.down hat' rfl hname hx)

theorem follow_without (hc : Closed hidden) (links : Nat) (hdone : hidden done = false)
    (h : s.Avoids hidden done todo) :
    (s.without hidden).follow links done todo =
      (s.follow links done todo).map (foundWithout hidden) := by
  induction links generalizing done todo with
  | zero => exact followBy_without hc (fun _ _ _ _ => rfl) hdone h
  | succ links ih => exact followBy_without hc (fun _ _ hdone h => ih hdone h) hdone h

theorem visits_single (h : s.Visits done [name] place) : place = done ++ [name] ∨
    ∃ target, s.root.at? (done ++ [name]) = some (.link target) ∧
      s.Visits (if Path.isAbsolute target then [] else done) (Path.parts target) place := by
  cases h with
  | up hat hv => cases hv
  | look hat hname => exact .inl rfl
  | down hat hlink hname hv => cases hv
  | jump hat hname hv =>
    rw [List.append_nil] at hv
    exact .inr ⟨_, hat, hv⟩

theorem Visits.of_up (h : s.Visits done (".." :: rest) place) : s.Visits done.dropLast rest place := by
  cases h with
  | up hat hv => exact hv
  | look hat hname => exact (hname rfl).elim
  | down hat hlink hname hv => exact (hname rfl).elim
  | jump hat hname hv => exact (hname rfl).elim

theorem Visits.of_none (h : s.Visits done (name :: rest) place)
    (hnone : s.root.at? (done ++ [name]) = none) (hup : name ≠ "..") : place = done ++ [name] := by
  cases h with
  | up hat hv => exact (hup rfl).elim
  | look hat hname => rfl
  | down hat hlink hname hv =>
    rw [hnone] at hat
    cases hat
  | jump hat hname hv =>
    rw [hnone] at hat
    cases hat

theorem LinksAvoid.avoids (h : s.LinksAvoid hidden) (hhere : hidden (way ++ [name]) = false) :
    s.Avoids hidden way [name] := by
  intro place hv
  rcases visits_single hv with rfl | ⟨target, hat, hv⟩
  · exact hhere
  · exact h way name target hhere hat place hv

theorem LinksAvoid.without (hc : Closed hidden) (h : s.LinksAvoid hidden) :
    (s.without hidden).LinksAvoid hidden := by
  intro way name target hhere hat
  rw [at?_without hc hhere] at hat
  obtain ⟨f, hf, hlink⟩ := Option.map_eq_some_iff.mp hat
  cases f with
  | file content => cases hlink
  | dir entries => cases hlink
  | link target =>
    cases hlink
    exact (h way name _ hhere hf).without hc (base_unhidden hc (hc.above hhere))

theorem LinksAvoid.of_without (hc : Closed hidden) (h : (s.without hidden).LinksAvoid hidden) :
    s.LinksAvoid hidden := by
  intro way name target hhere hat
  apply Avoids.of_without hc (base_unhidden hc (hc.above hhere))
  apply h way name target hhere
  rw [at?_without hc hhere, hat]
  rfl

section

variable (hc : Closed hidden) (hlinks : s.LinksAvoid hidden)
  (hpart : ∀ n ∈ way ++ [name], Path.IsPart n) (hdown : ".." ∉ way ++ [name])
  (hway : s.root.at? way = some (.dir entries)) (hhere : hidden (way ++ [name]) = false)
include hc hlinks hpart hdown hway hhere

theorem locate_without :
    (s.without hidden).locate (Path.ofParts (way ++ [name])) =
      (s.locate (Path.ofParts (way ++ [name]))).map (foundWithout hidden) := by
  have hup : ".." ∉ way := fun h => hdown (List.mem_append_left _ h)
  have hway' := dir_without hc (hc.above hhere) hway
  have hfollow : ∀ {t : Store} {es : List (String × Entry)}, t.root.at? way = some (.dir es) →
      t.follow maxLinks [] (way ++ [name]) = t.follow maxLinks way [name] :=
    fun hat => follow_place hat rfl hup maxLinks [name]
  rw [locate, locate, names_ofParts _ hpart, names_ofParts _ hpart, hfollow hway, hfollow hway',
    follow_without hc maxLinks (hc.above hhere) (hlinks.avoids hhere)]
  cases s.follow maxLinks way [name] <;> rfl

theorem read_without :
    (s.without hidden).read (Path.ofParts (way ++ [name])) =
      s.read (Path.ofParts (way ++ [name])) := by
  rw [read, read, locate_without hc hlinks hpart hdown hway hhere]
  cases s.locate (Path.ofParts (way ++ [name])) with
  | error e => rfl
  | ok found =>
    obtain ⟨place, e⟩ := found
    cases e <;> rfl

theorem isFile_without :
    (s.without hidden).isFile (Path.ofParts (way ++ [name])) =
      s.isFile (Path.ofParts (way ++ [name])) := by
  rw [isFile, isFile, entry?, entry?, locate_without hc hlinks hpart hdown hway hhere]
  cases s.locate (Path.ofParts (way ++ [name])) with
  | error e => rfl
  | ok found =>
    obtain ⟨place, e⟩ := found
    cases e <;> rfl

end

end Store

end GoAtlas.Files
