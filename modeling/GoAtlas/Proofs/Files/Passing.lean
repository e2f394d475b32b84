import GoAtlas.Proofs.Files.Resolving
import GoAtlas.Proofs.Files.Writing

namespace GoAtlas

namespace Files.Store

open GoAtlas.Path

/-- A place that is passed when names are followed, be there anything or not. -/
inductive Passes (s : Store) : List String → List String → List String → Prop
  | here {done name rest} : name ≠ ".." → Passes s done (name :: rest) (done ++ [name])
  | up {done rest place} : Passes s done.dropLast rest place → Passes s done (".." :: rest) place
  | down {done name rest place} : name ≠ ".." →
      (∀ target, s.root.at? (done ++ [name]) ≠ some (.link target)) →
      Passes s (done ++ [name]) rest place → Passes s done (name :: rest) place
  | jump {done name rest place target} : name ≠ ".." →
      s.root.at? (done ++ [name]) = some (.link target) →
      Passes s (if isAbsolute target then [] else done) (parts target ++ rest) place →
      Passes s done (name :: rest) place

/-- A path passes no hidden place. -/
def Skirts (s : Store) (hidden : List String → Bool) (path : String) : Prop :=
  ∀ place, s.Passes [] (s.names path) place → hidden place = false

variable {s t : Store} {hidden : List String → Bool} {done todo rest place way : List String}
  {name : String} {entries : List (String × Entry)} {links depth : Nat} {opened : List (List String)}

theorem Visits.passes (h : s.Visits done todo place) : s.Passes done todo place := by
  induction h with
  | up hat hv ih => exact .up ih
  | look hat hname => exact .here hname
  | down hat hlink hname hv ih =>
    refine .down hname (fun target hl => ?_) ih
    rw [hat] at hl
    cases hl
    cases hlink
  | jump hat hname hv ih => exact .jump hname hat ih

theorem Meets.passes (h : s.Meets done todo place) : s.Passes done todo place := by
  induction h with
  | here hname hat => exact .here hname
  | up hm ih => exact .up ih
  | down hname hnone hm ih => exact .down hname hnone ih
  | jump hname hat hm ih => exact .jump hname hat ih

theorem Passes.append (h : s.Passes done todo place) (rest : List String) :
    s.Passes done (todo ++ rest) place := by
  induction h with
  | here hname => exact .here hname
  | up hp ih => exact .up ih
  | down hname hnone hp ih => exact .down hname hnone ih
  | jump hname hat hp ih =>
    rw [List.append_assoc] at ih
    exact .jump hname hat ih

theorem passes_of_followBy
    {jump : List String → List String → Except PathFault (List String × Entry)}
    (hjump : ∀ done todo found, jump done todo = .ok found → ∀ rest place,
      s.Passes found.1 rest place → s.Passes done (todo ++ rest) place)
    {found : List String × Entry} (h : s.followBy jump done todo = .ok found)
    (hp : s.Passes found.1 rest place) : s.Passes done (todo ++ rest) place := by
  induction todo generalizing done with
  | nil =>
    rw [followBy] at h
    split at h
    · cases h
      exact hp
    · cases h
  | cons name todo ih =>
    rw [followBy] at h
    split at h
    · next entries hat =>
      by_cases hname : name = ".."
      · subst hname
        rw [if_pos rfl] at h
        exact .up (ih h)
      · rw [if_neg hname] at h
        have hhere := Entry.at?_concat hat name
        split at h
        · cases h
        · next target hl =>
          have hrest := hjump _ _ _ h rest place hp
          rw [List.append_assoc] at hrest
          exact .jump hname (hhere.trans hl) hrest
        · next f hlink hl =>
          refine .down hname (fun target he => ?_) (ih h)
          rw [hhere, hl] at he
          exact hlink target (Option.some.inj he)
    · cases h
    · cases h

theorem passes_of_follow {found : List String × Entry} (h : s.follow links done todo = .ok found)
    (hp : s.Passes found.1 rest place) : s.Passes done (todo ++ rest) place := by
  induction links generalizing done todo found rest place with
  | zero => exact passes_of_followBy (fun _ _ _ h => by cases h) h hp
  | succ links ih => exact passes_of_followBy (fun _ _ _ h _ _ hp => ih h hp) h hp

/-- Stores with the same links at the same places, seen from the same directory. -/
structure SameLinks (s t : Store) : Prop where
  cwd : t.cwd = s.cwd
  link : ∀ way target, s.root.at? way = some (.link target) ↔ t.root.at? way = some (.link target)

theorem SameLinks.refl (s : Store) : SameLinks s s :=
  ⟨rfl, fun _ _ => Iff.rfl⟩

theorem SameLinks.trans {u : Store} (h : SameLinks s t) (h' : SameLinks t u) : SameLinks s u :=
  ⟨h'.cwd.trans h.cwd, fun way target => (h.link way target).trans (h'.link way target)⟩

theorem SameLinks.passes (h : SameLinks s t) (hp : t.Passes done todo place) :
    s.Passes done todo place := by
  induction hp with
  | here hname => exact .here hname
  | up hp ih => exact .up ih
  | down hname hnone hp ih =>
    exact .down hname (fun target hl => hnone target ((h.link _ target).mp hl)) ih
  | jump hname hat hp ih => exact .jump hname ((h.link _ _).mpr hat) ih

theorem SameLinks.skirts (h : SameLinks s t) {path : String} (hp : s.Skirts hidden path) :
    t.Skirts hidden path := by
  have hnames : t.names path = s.names path := by rw [names, names, h.cwd]
  intro place hplace
  rw [hnames] at hplace
  exact hp place (h.passes hplace)

theorem Free.sameLinks (h : s.Free place) {new : Entry}
    (hnew : ∀ rest target, new.at? rest ≠ some (.link target)) : SameLinks s (s.putAt place new) := by
  refine ⟨rfl, fun way target => ⟨?_, ?_⟩⟩
  · intro hat
    have hbefore : ¬place <+: way := by
      rintro ⟨rest, rfl⟩
      rw [Entry.at?_append] at hat
      obtain ⟨e, he, hrest⟩ := Option.bind_eq_some_iff.mp hat
      obtain ⟨content, rfl⟩ := h.noDir e he
      cases rest <;> cases hrest
    have hafter : ¬way <+: place := by
      intro hway
      obtain ⟨entries, hdir⟩ := h.dir_of_prefix hway fun he => hbefore (he ▸ List.prefix_rfl)
      rw [hat] at hdir
      cases hdir
    exact (Entry.at?_put_of_not_prefix hbefore hafter new s.root).trans hat
  · intro hat
    rcases Entry.at?_put_cases hat with ⟨rest, -, hrest⟩ | ⟨-, hdir⟩ | hold
    · exact (hnew rest target hrest).elim
    · cases hdir
    · exact hold

theorem free_of_none (hat : s.root.at? way = some (.dir entries))
    (hnone : s.root.at? (way ++ [name]) = none) : s.Free (way ++ [name]) where
  ends := ⟨way, name, entries, rfl, hat⟩
  noDir e he := by
    rw [hnone] at he
    cases he

theorem makeWay_sameLinks (hat : s.root.at? done = some (.dir entries))
    (h : s.makeWay done todo = .ok t) : SameLinks s t := by
  induction todo generalizing s done entries with
  | nil =>
    cases h
    exact .refl _
  | cons name rest ih =>
    rw [makeWay] at h
    split at h
    · obtain ⟨entries', hdir⟩ := Entry.isDir_of_prefix hat rfl (List.dropLast_prefix done)
      exact ih hdir h
    split at h
    · next place found hfollow => exact ih (at?_of_follow hfollow) h
    · cases h
    · next fault hfollow =>
      split at h
      · next hnone =>
        have hfree := free_of_none hat (Option.isNone_iff_eq_none.mp hnone)
        have hlinks : SameLinks s (s.putAt (done ++ [name]) (.dir [])) :=
          hfree.sameLinks fun rest target => by cases rest <;> simp [Entry.at?, Entry.child?]
        exact hlinks.trans (ih (Entry.at?_put _ _ _) h)
      · split at h <;> cases h

theorem avoids_of_passes (h : ∀ place, s.Passes done todo place → hidden place = false) :
    s.Avoids hidden done todo :=
  fun place hv => h place hv.passes

theorem unhidden_of_follow (hc : Closed hidden) (hdone : hidden done = false) {e : Entry}
    (h : s.Avoids hidden done todo) (hfollow : s.follow links done todo = .ok (way, e)) :
    hidden way = false := by
  have hwithout := follow_without hc links hdone h
  rw [hfollow] at hwithout
  have hat := at?_of_follow hwithout
  cases hway : hidden way with
  | false => rfl
  | true =>
    have hnone : (s.without hidden).root.at? way = none :=
      Entry.at?_without_of_hidden (hc.root hdone) hway
    rw [hnone] at hat
    cases hat

theorem makeWay_without (hc : Closed hidden) (hat : s.root.at? done = some (.dir entries))
    (hdone : hidden done = false) (h : ∀ place, s.Passes done todo place → hidden place = false) :
    (s.without hidden).makeWay done todo = (s.makeWay done todo).map (·.without hidden) := by
  induction todo generalizing s done entries with
  | nil => rfl
  | cons name rest ih =>
    rw [makeWay, makeWay]
    by_cases hname : name = ".."
    · subst hname
      obtain ⟨entries', hdir⟩ := Entry.isDir_of_prefix hat rfl (List.dropLast_prefix done)
      rw [if_pos rfl, if_pos rfl]
      exact ih hdir (hc.dropLast hdone) fun place hp => h place (.up hp)
    · have hhere : hidden (done ++ [name]) = false := h _ (.here hname)
      have havoids : s.Avoids hidden done [name] := by
        intro place hv
        exact h place (hv.passes.append rest)
      rw [if_neg hname, if_neg hname, follow_without hc maxLinks hdone havoids]
      cases hfollow : s.follow maxLinks done [name] with
      | ok found =>
        obtain ⟨way, e⟩ := found
        cases e with
        | file content => rfl
        | link target => rfl
        | dir entries' =>
          refine ih (at?_of_follow hfollow) (unhidden_of_follow hc hdone havoids hfollow) ?_
          exact fun place hp => h place (passes_of_follow hfollow hp)
      | error fault =>
        have hnone : ((s.without hidden).root.at? (done ++ [name])).isNone =
            (s.root.at? (done ++ [name])).isNone := by
          rw [at?_without hc hhere, Option.isNone_map]
        simp only [Except.map, hnone]
        split
        · next hmissing =>
          have hfree := free_of_none hat (Option.isNone_iff_eq_none.mp hmissing)
          have hlinks : SameLinks s (s.putAt (done ++ [name]) (.dir [])) :=
            hfree.sameLinks fun rest target => by cases rest <;> simp [Entry.at?, Entry.child?]
          have hput : ({ s.without hidden with
              root := Entry.put (.dir []) (done ++ [name]) (s.without hidden).root } : Store) =
              (s.putAt (done ++ [name]) (.dir [])).without hidden :=
            (putAt_without hc hhere s (.dir [])).symm
          rw [hput]
          apply ih (Entry.at?_put _ _ _) hhere
          exact fun place hp => h place (.down hname (fun target => by simp_all) (hlinks.passes hp))
        · split <;> rfl

/-- Names that pass no hidden place can be followed by one of something that is not hidden by its own
name, if no link leads to a hidden place. -/
theorem avoids_concat (hc : Closed hidden) (hlinks : s.LinksAvoid hidden)
    (hname : ∀ way, hidden way = false → hidden (way ++ [name]) = false)
    (hdone : hidden done = false) (h : ∀ place, s.Passes done todo place → hidden place = false) :
    s.Avoids hidden done (todo ++ [name]) := by
  intro place hv
  generalize hall : todo ++ [name] = all at hv
  induction hv generalizing todo with
  | @up done rest place entries hat hv ih =>
    cases todo with
    | nil =>
      obtain ⟨-, rfl⟩ := List.cons.inj hall
      cases hv
    | cons first todo =>
      obtain ⟨rfl, hrest⟩ := List.cons.inj hall
      exact ih (hc.dropLast hdone) (fun place hp => h place (.up hp)) hrest
  | @look done first rest entries hat hup =>
    cases todo with
    | nil =>
      obtain ⟨rfl, -⟩ := List.cons.inj hall
      exact hname done hdone
    | cons next todo =>
      obtain ⟨rfl, -⟩ := List.cons.inj hall
      exact h _ (.here hup)
  | @down done first rest place e hat hlink hup hv ih =>
    cases todo with
    | nil =>
      obtain ⟨-, rfl⟩ := List.cons.inj hall
      cases hv
    | cons next todo =>
      obtain ⟨rfl, hrest⟩ := List.cons.inj hall
      refine ih (h _ (.here hup)) (fun place hp => h place (.down hup ?_ hp)) hrest
      intro target hl
      rw [hat] at hl
      cases hl
      cases hlink
  | @jump done first rest place target hat hup hv ih =>
    cases todo with
    | nil =>
      obtain ⟨rfl, rfl⟩ := List.cons.inj hall
      rw [List.append_nil] at hv
      exact hlinks done name target (hname done hdone) hat place hv
    | cons next todo =>
      obtain ⟨rfl, rfl⟩ := List.cons.inj hall
      exact ih (base_unhidden hc hdone) (fun place hp => h place (.jump hup hat hp))
        (List.append_assoc _ _ _)

theorem bare_nil (hat : s.root.at? [] = some (.dir entries)) : s.Bare [] :=
  .of_dir (by simp) (by simp) hat

theorem Bare.concat (h : s.Bare done) (hname : IsPart name) (hup : name ≠ "..")
    (hlink : ∀ target, s.root.at? (done ++ [name]) ≠ some (.link target)) :
    s.Bare (done ++ [name]) where
  isPart := by simpa [or_imp, forall_and] using ⟨h.isPart, hname⟩
  down := by simpa using ⟨h.down, hup.symm⟩
  noLink way hway := by
    rcases List.prefix_concat_iff.mp hway with rfl | hway
    · exact hlink
    · exact h.noLink way hway

theorem Bare.passes_append (h : s.Bare (way ++ done)) (hp : s.Passes way (done ++ todo) place) :
    s.Passes way done place ∨ s.Passes (way ++ done) todo place := by
  induction done generalizing way with
  | nil =>
    rw [List.append_nil]
    exact .inr hp
  | cons name done ih =>
    rw [List.append_cons] at h ⊢
    have hup : name ≠ ".." := by
      rintro rfl
      exact h.down (by simp)
    have hlink := h.noLink (way ++ [name]) (List.prefix_append _ _)
    cases hp with
    | here hname => exact .inl (.here hup)
    | up hp => exact (hup rfl).elim
    | down hname hnone hp =>
      rcases ih h hp with hp | hp
      · exact .inl (.down hup hlink hp)
      · exact .inr hp
    | jump hname hat hp => exact (hlink _ hat).elim

theorem Bare.passes (h : s.Bare done) (hp : s.Passes [] (done ++ todo) place) :
    s.Passes [] done place ∨ s.Passes done todo place := by
  have hbare : s.Bare ([] ++ done) := h
  exact hbare.passes_append hp

theorem Bare.prefix_of_passes (h : s.Bare (done ++ todo)) (hp : s.Passes done todo place) :
    place <+: done ++ todo := by
  induction hp with
  | @here done name rest hname => exact ⟨rest, by simp⟩
  | up hp ih => exact (h.down (by simp)).elim
  | down hname hnone hp ih =>
    rw [List.append_cons] at h ⊢
    exact ih h
  | jump hname hat hp ih => exact (h.noLink _ (by simp) _ hat).elim

/-- A path without links that names no hidden place passes none. -/
theorem Bare.skirts (hc : Closed hidden) (h : s.Bare place) (hhidden : hidden place = false) :
    s.Skirts hidden (ofParts place) := by
  intro way hp
  rw [s.names_ofParts h.isPart] at hp
  have hbare : s.Bare ([] ++ place) := h
  obtain ⟨rest, hrest⟩ := hbare.prefix_of_passes hp
  rw [List.nil_append] at hrest
  rw [← hrest] at hhidden
  exact hc.above hhidden

theorem recedes_passes (s : Store) (place : List String) :
    s.Recedes fun done todo => s.Passes done todo place :=
  ⟨.up, .down, .jump⟩

theorem bare_of_realNamesBy
    {jump : List String → String → String → Except (List String) (List String)}
    (hjump : ∀ done name target place, s.Bare done → jump done name target = .ok place →
      s.Bare place)
    (hdone : s.Bare done) (htodo : ∀ n ∈ todo, IsPart n)
    (h : s.realNamesBy jump done todo = .ok place) : s.Bare place := by
  induction todo generalizing done with
  | nil =>
    rw [realNamesBy] at h
    cases h
    exact hdone
  | cons name rest ih =>
    obtain ⟨hname, hrest⟩ := List.forall_mem_cons.mp htodo
    rw [realNamesBy] at h
    split at h
    · exact ih (hdone.of_isPrefix (List.dropLast_prefix done)) hrest h
    next hup =>
    split at h
    · next target hat =>
      cases hplace : jump done name target with
      | ok way =>
        rw [hplace] at h
        exact ih (hjump _ _ _ _ hdone hplace) hrest h
      | error left =>
        rw [hplace] at h
        cases h
    · next hnone => exact ih (hdone.concat hname hup hnone) hrest h

theorem passes_of_realNamesBy
    {jump : List String → String → String → Except (List String) (List String)}
    (hbare : ∀ done name target place, s.Bare done → jump done name target = .ok place →
      s.Bare place)
    (hjump : ∀ done name target way, s.Bare done → jump done name target = .ok way →
      (∀ place, s.Passes [] way place → s.Passes [] done place ∨
        s.Passes (if isAbsolute target then [] else done) (parts target) place) ∧
      ∀ rest place, s.Passes way rest place →
        s.Passes (if isAbsolute target then [] else done) (parts target ++ rest) place)
    (hdone : s.Bare done) (htodo : ∀ n ∈ todo, IsPart n)
    (h : s.realNamesBy jump done todo = .ok way) (hp : s.Passes [] way place) :
    s.Passes [] done place ∨ s.Passes done todo place := by
  induction todo generalizing done with
  | nil =>
    rw [realNamesBy] at h
    cases h
    exact .inl hp
  | cons name rest ih =>
    obtain ⟨hname, hrest⟩ := List.forall_mem_cons.mp htodo
    rw [realNamesBy] at h
    split at h
    · next hup =>
      subst hup
      rcases ih (hdone.of_isPrefix (List.dropLast_prefix done)) hrest h with hp | hp
      · obtain ⟨last, hlast⟩ := List.dropLast_prefix done
        exact .inl (hlast ▸ hp.append last)
      · exact .inr (.up hp)
    next hup =>
    split at h
    · next target hat =>
      cases hplace : jump done name target with
      | ok found =>
        rw [hplace] at h
        obtain ⟨hbefore, hafter⟩ := hjump _ _ _ _ hdone hplace
        rcases ih (hbare _ _ _ _ hdone hplace) hrest h with hp | hp
        · rcases hbefore place hp with hp | hp
          · exact .inl hp
          · exact .inr (.jump hup hat (hp.append rest))
        · exact .inr (.jump hup hat (hafter rest place hp))
      | error left =>
        rw [hplace] at h
        cases h
    · next hnone =>
      rcases ih (hdone.concat hname hup hnone) hrest h with hp | hp
      · exact (hdone.passes hp).imp_right fun hp => hp.append rest
      · exact .inr (.down hup hnone hp)

section

variable (hat : s.root.at? [] = some (.dir entries))
include hat

theorem Bare.base (h : s.Bare done) (target : String) :
    s.Bare (if isAbsolute target then [] else done) := by
  split
  · exact bare_nil hat
  · exact h

theorem bare_of_realNames (hdone : s.Bare done) (htodo : ∀ n ∈ todo, IsPart n)
    (h : s.realNames depth opened done todo = .ok place) : s.Bare place := by
  induction depth generalizing opened done todo place with
  | zero => exact bare_of_realNamesBy (fun _ _ _ _ _ hjump => by cases hjump) hdone htodo h
  | succ depth ih =>
    refine bare_of_realNamesBy (fun done name target place hdone hjump => ?_) hdone htodo h
    split at hjump
    · cases hjump
    · exact ih (hdone.base hat target) (fun _ => isPart_of_mem_parts) hjump

theorem passes_of_realNames (hdone : s.Bare done) (htodo : ∀ n ∈ todo, IsPart n)
    (h : s.realNames depth opened done todo = .ok way) (hp : s.Passes [] way place) :
    s.Passes [] done place ∨ s.Passes done todo place := by
  induction depth generalizing opened done todo way place with
  | zero =>
    exact passes_of_realNamesBy (fun _ _ _ _ _ hjump => by cases hjump)
      (fun _ _ _ _ _ hjump => by cases hjump) hdone htodo h hp
  | succ depth ih =>
    have hparts : ∀ target, ∀ n ∈ parts target, IsPart n := fun _ _ => isPart_of_mem_parts
    refine passes_of_realNamesBy (fun done name target place hdone hjump => ?_)
      (fun done name target way hdone hjump => ⟨fun place hp => ?_, fun rest place hp => ?_⟩)
      hdone htodo h hp
    · split at hjump
      · cases hjump
      · exact bare_of_realNames hat (hdone.base hat target) (hparts target) hjump
    · split at hjump
      · cases hjump
      · rcases ih (hdone.base hat target) (hparts target) hjump hp with hp | hp
        · split at hp
          · cases hp
          · exact .inl hp
        · exact .inr hp
    · split at hjump
      · cases hjump
      · exact (recedes_passes s place).realNames hjump hp

/-- What goes on from a resolved path keeps off hidden places if it did from the path, unless that leads
into a loop. -/
theorem unhidden_realPlace {path : String} (hloop : ¬s.Loops path)
    (h : ∀ place, s.Passes [] (s.names path ++ rest) place → hidden place = false) (place : List String)
    (hp : s.Passes [] (s.realPlace path ++ rest) place) : hidden place = false := by
  have hparts : ∀ n ∈ s.names path, IsPart n := fun _ hn => isPart_of_mem_parts hn
  obtain ⟨way, hway, hreal⟩ := realPlace_of_not_loops hloop
  have hbare := bare_of_realNames hat (bare_nil hat) hparts hway
  rw [hreal] at hp
  apply h place
  rcases hbare.passes hp with hp | hp
  · rcases passes_of_realNames hat (bare_nil hat) hparts hway hp with hp | hp
    · cases hp
    · exact hp.append rest
  · exact (recedes_passes s place).realNames hway hp

theorem Skirts.join_realPath {path : String} (hname : IsPart name) (hloop : ¬s.Loops path)
    (h : s.Skirts hidden (join path name)) : s.Skirts hidden (join (s.realPath path) name) := by
  intro place hp
  rw [names_join _ _ hname, names_realPath] at hp
  refine unhidden_realPlace hat hloop (fun place hp => h place ?_) place hp
  rwa [names_join _ _ hname]

end

theorem Skirts.of_join {path : String} (hname : IsPart name) (h : s.Skirts hidden (join path name)) :
    s.Skirts hidden path := by
  intro place hp
  apply h
  rw [names_join _ _ hname]
  exact hp.append [name]

section

variable {path : String} (hc : Closed hidden) (hroot : hidden [] = false)
include hc hroot

theorem realPath_skirting (hs : s.Sound) (h : s.Skirts hidden path) :
    (s.without hidden).realPath path = s.realPath path :=
  realPath_without hs hc hroot fun place hm => h place hm.passes

theorem locate_avoiding (h : s.Avoids hidden [] (s.names path)) :
    (s.without hidden).locate path = (s.locate path).map (foundWithout hidden) := by
  have hfollow := follow_without hc maxLinks hroot h
  have hnames : (s.without hidden).names path = s.names path := rfl
  rw [locate, locate, hnames, hfollow]
  cases s.follow maxLinks [] (s.names path) <;> rfl

/-- A path is resolved as before if neither it nor what becomes of it passes a hidden place. -/
theorem resolve_skirting (hs : s.Sound) (h : s.Skirts hidden path)
    (hreal : s.Skirts hidden (s.realPath path)) : (s.without hidden).resolve path = s.resolve path := by
  rw [resolve, resolve, realPath_skirting hc hroot hs h,
    locate_avoiding hc hroot (avoids_of_passes hreal)]
  cases s.locate (s.realPath path) with
  | error e => rfl
  | ok found => rfl

theorem read_avoiding (h : s.Avoids hidden [] (s.names path)) :
    (s.without hidden).read path = s.read path := by
  rw [read, read, locate_avoiding hc hroot h]
  cases s.locate path with
  | error e => rfl
  | ok found =>
    obtain ⟨place, e⟩ := found
    cases e <;> rfl

theorem isFile_avoiding (h : s.Avoids hidden [] (s.names path)) :
    (s.without hidden).isFile path = s.isFile path := by
  rw [isFile, isFile, entry?, entry?, locate_avoiding hc hroot h]
  cases s.locate path with
  | error e => rfl
  | ok found =>
    obtain ⟨place, e⟩ := found
    cases e <;> rfl

theorem isDir_avoiding (h : s.Avoids hidden [] (s.names path)) :
    (s.without hidden).isDir path = s.isDir path := by
  rw [isDir, isDir, entry?, entry?, locate_avoiding hc hroot h]
  cases s.locate path with
  | error e => rfl
  | ok found => exact Entry.isDir_without found.2

theorem makeDirs_skirting (hat : s.root.at? [] = some (.dir entries)) (h : s.Skirts hidden path) :
    (s.without hidden).makeDirs path = (s.makeDirs path).map (·.without hidden) := by
  have hway := makeWay_without hc hat hroot h
  have hnames : (s.without hidden).names path = s.names path := rfl
  have hdir := isDir_avoiding hc hroot (avoids_of_passes h)
  cases hs : s.isDir path with
  | true => rw [makeDirs, makeDirs, hdir, if_pos hs, if_pos hs, Except.map]
  | false =>
    rw [makeDirs_of_not_isDir hs, makeDirs_of_not_isDir (hdir.trans hs), hnames, hway]
    cases s.makeWay [] (s.names path) <;> rfl

theorem writeFile_skirting (h : s.Skirts hidden path) (content : ByteArray) :
    (s.without hidden).writeFile path content =
      (s.writeFile path content).map (·.without hidden) := by
  have havoids := avoids_of_passes h
  have hnames : (s.without hidden).names path = s.names path := rfl
  rw [writeFile, writeFile, hnames, writePlace_without hc hroot havoids]
  cases hp : s.writePlace maxLinks [] (s.names path) with
  | error fault => rfl
  | ok place =>
    have hput := putAt_without hc (havoids place (writePlace_ok hp).1) s (.file content)
    exact congrArg Except.ok hput.symm

end

theorem makeDirs_sameLinks {path : String} (hat : s.root.at? [] = some (.dir entries))
    (h : s.makeDirs path = .ok t) : SameLinks s t := by
  rw [makeDirs] at h
  split at h
  · cases h
    exact .refl _
  split at h
  · next hway =>
    cases h
    exact makeWay_sameLinks hat hway
  · cases h

theorem writeFile_sameLinks {path : String} {content : ByteArray}
    (h : s.writeFile path content = .ok t) : SameLinks s t := by
  rw [writeFile] at h
  split at h
  · next place hplace =>
    cases h
    refine (free_of_writePlace hplace).sameLinks fun rest target => ?_
    cases rest <;> simp [Entry.at?, Entry.child?]
  · cases h

end Files.Store

end GoAtlas
