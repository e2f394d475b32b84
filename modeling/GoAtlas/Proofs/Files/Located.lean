import GoAtlas.Proofs.Files.Contents
import GoAtlas.Proofs.Files.Writing

namespace GoAtlas.Files.Store

open GoAtlas.Path

variable {s t : Store} {done todo place way : List String} {links : Nat} {e new : Entry}
  {root dir name : String} {entries : List (String × Entry)} {content : ByteArray}

theorem followBy_onward (links : Nat)
    {jump : List String → List String → Except PathFault (List String × Entry)}
    (hjump : ∀ done todo place e, jump done todo = .ok (place, e) →
      ∃ left, ∀ more, jump done (todo ++ more) = s.follow left place more)
    (hlinks : s.followBy jump = s.follow links) (h : s.followBy jump done todo = .ok (place, e)) :
    ∃ left, ∀ more, s.followBy jump done (todo ++ more) = s.follow left place more := by
  fun_induction s.followBy jump done todo with
  | case1 done f hf =>
    cases h
    exact ⟨links, fun more => by rw [List.nil_append, hlinks]⟩
  | case3 done rest entries hat ih =>
    obtain ⟨left, hleft⟩ := ih h
    exact ⟨left, fun more => by rw [List.cons_append, followBy, hat, ← hleft]; rfl⟩
  | case5 done name rest entries hat hname target hl =>
    obtain ⟨left, hleft⟩ := hjump _ _ _ _ h
    refine ⟨left, fun more => ?_⟩
    rw [List.cons_append, followBy, hat, ← hleft, List.append_assoc]
    simp only [if_neg hname, hl]
  | case6 done name rest entries hat hname f hlink hl ih =>
    obtain ⟨left, hleft⟩ := ih h
    refine ⟨left, fun more => ?_⟩
    rw [List.cons_append, followBy, hat, ← hleft]
    cases f with
    | link target => exact (hlink target rfl).elim
    | file content => simp only [if_neg hname, hl]
    | dir entries => simp only [if_neg hname, hl]
  | _ => cases h

theorem follow_onward (h : s.follow links done todo = .ok (place, e)) :
    ∃ left, ∀ more, s.follow links done (todo ++ more) = s.follow left place more := by
  induction links generalizing done todo place e with
  | zero => exact followBy_onward 0 (by simp) rfl h
  | succ links ih => exact followBy_onward (links + 1) (fun _ _ _ _ h => ih h) rfl h

/-- Below the place that a path leads to, the path with the names on the way leads on. -/
theorem Sound.locate_foldl {f : Entry} (hs : s.Sound) (hroot : s.locate root = .ok (place, f))
    (hat : s.root.at? (place ++ way) = some e) (hlink : e.isLink = false) :
    s.locate (way.foldl join root) = .ok (place ++ way, e) := by
  have hpart : ∀ n ∈ way, IsPart n := fun n hn =>
    Entry.Proper.isPart hs.proper hat n (List.mem_append_right place hn)
  have hdown : ".." ∉ way := fun hn => hs.down hat (List.mem_append_right place hn)
  obtain ⟨left, hleft⟩ := follow_onward (follow_of_locate hroot)
  have hway := follow_append hat hlink hdown left []
  rw [List.append_nil, follow_nil left hat] at hway
  rw [Store.locate, names_foldl s root hpart, hleft, hway]

/-- Below a directory that a path leads to, a file is read by its name. -/
theorem Sound.read_join (hs : s.Sound) (hdir : s.locate dir = .ok (place, .dir entries))
    (hat : s.root.at? (place ++ [name]) = some (.file content)) :
    s.read (join dir name) = .ok content := by
  have hlocate := hs.locate_foldl hdir hat rfl
  rw [List.foldl_cons, List.foldl_nil] at hlocate
  rw [Store.read, hlocate]

/-- A new file is written to a directory that a path leads to. -/
theorem writeFile_join (hdir : s.locate dir = .ok (place, .dir entries)) (hname : IsPart name)
    (hdown : name ≠ "..") (hnone : entries.lookup name = none) (content : ByteArray) :
    s.writeFile (join dir name) content = .ok (s.putAt (place ++ [name]) (.file content)) := by
  have hplace : s.writePlace maxLinks [] (s.names (join dir name)) = .ok (place ++ [name]) := by
    rw [names_join s dir hname]
    unfold writePlace
    simp only [List.getLast?_concat, List.dropLast_concat, follow_of_locate hdir, if_neg hdown, hnone]
  rw [writeFile, hplace]
  rfl

theorem exists_of_visits_followBy
    {jump : List String → List String → Except PathFault (List String × Entry)}
    (hjump : ∀ done todo found, jump done todo = .ok found →
      ∀ place, s.Visits done todo place → ∃ e, s.root.at? place = some e)
    {found : List String × Entry} (h : s.followBy jump done todo = .ok found)
    (hv : s.Visits done todo place) : ∃ e, s.root.at? place = some e := by
  induction todo generalizing done with
  | nil => cases hv
  | cons name todo ih =>
    rw [followBy] at h
    split at h
    · next entries hat =>
      by_cases hname : name = ".."
      · subst hname
        rw [if_pos rfl] at h
        exact ih h hv.of_up
      · rw [if_neg hname] at h
        have hhere := Entry.at?_concat hat name
        split at h
        · cases h
        · next target hl =>
          rw [hl] at hhere
          cases hv with
          | up hat hv => exact (hname rfl).elim
          | look hat hup => exact ⟨_, hhere⟩
          | down hf hlink hup hv =>
            rw [hhere] at hf
            cases hf
            cases hlink
          | jump hf hup hv =>
            rw [hhere] at hf
            cases hf
            exact hjump _ _ _ h place hv
        · next f hlink hl =>
          rw [hl] at hhere
          cases hv with
          | up hat hv => exact (hname rfl).elim
          | look hat hup => exact ⟨_, hhere⟩
          | down hf hno hup hv => exact ih h hv
          | jump hf hup hv =>
            rw [hhere] at hf
            cases hf
            exact (hlink _ rfl).elim
    · cases h
    · cases h

theorem exists_of_visits {found : List String × Entry} (h : s.follow links done todo = .ok found)
    (hv : s.Visits done todo place) : ∃ e, s.root.at? place = some e := by
  induction links generalizing done todo found place with
  | zero => exact exists_of_visits_followBy (fun _ _ _ h => by cases h) h hv
  | succ links ih => exact exists_of_visits_followBy (fun _ _ _ h _ hv => ih h hv) h hv

def below (place way : List String) : Bool :=
  place.isPrefixOf way

theorem below_iff : below place way = true ↔ place <+: way := by
  rw [below, List.isPrefixOf_iff_prefix]

theorem closed_below (place : List String) : Closed (below place) :=
  fun _ more h => below_iff.mpr ((below_iff.mp h).trans (List.prefix_append _ more))

theorem not_below_of_at? (hnone : s.root.at? place = none) (hat : s.root.at? way = some e) :
    below place way = false := by
  cases h : below place way with
  | false => rfl
  | true =>
    obtain ⟨rest, rfl⟩ := below_iff.mp h
    rw [Entry.at?_append, hnone] at hat
    cases hat

/-- A name that nothing has in the directory to which a path leads, and by which no link leads. -/
structure Vacant (s : Store) (dir name : String) (way : List String) : Prop where
  isPart : IsPart name
  down : name ≠ ".."
  leads : ∃ entries, s.locate dir = .ok (way, .dir entries)
  none : s.root.at? (way ++ [name]) = none
  links : ∀ x, s.LeadsBy x → ¬way ++ [name] <+: x

namespace Vacant

variable (h : s.Vacant dir name way)
include h

theorem at? : ∃ entries, s.root.at? way = some (.dir entries) := by
  obtain ⟨entries, hlocate⟩ := h.leads
  exact ⟨entries, at?_of_locate hlocate⟩

theorem linksAvoid : s.LinksAvoid (below (way ++ [name])) := by
  intro other last target _ hat x hv
  cases hx : below (way ++ [name]) x with
  | false => rfl
  | true => exact (h.links x ⟨other, last, target, hat, hv⟩ (below_iff.mp hx)).elim

theorem unhidden (hat : s.root.at? place = some e) : below (way ++ [name]) place = false :=
  not_below_of_at? h.none hat

theorem without_putAt (new : Entry) :
    (s.putAt (way ++ [name]) new).without (below (way ++ [name])) =
      s.without (below (way ++ [name])) := by
  obtain ⟨entries, hat⟩ := h.at?
  exact Store.without_putAt hat (below_iff.mpr (List.prefix_refl _)) new []

/-- Whatever comes to the place, the path leads there. -/
theorem locate (hlink : new.isLink = false) :
    (s.putAt (way ++ [name]) new).locate (join dir name) = .ok (way ++ [name], new) := by
  obtain ⟨entries, hlocate⟩ := h.leads
  have hat : (s.putAt (way ++ [name]) new).root.at? (way ++ [name]) = some new := Entry.at?_put _ _ _
  have hc := closed_below (way ++ [name])
  have hroot : below (way ++ [name]) [] = false := hc.root (h.unhidden (at?_of_locate hlocate))
  have hfollow := follow_of_locate hlocate
  have havoids : s.Avoids (below (way ++ [name])) [] (s.names dir) := by
    intro place hv
    obtain ⟨e, he⟩ := exists_of_visits hfollow hv
    exact h.unhidden he
  have hwithout := follow_without hc maxLinks hroot havoids
  have havoids' : (s.putAt (way ++ [name]) new).Avoids (below (way ++ [name])) [] (s.names dir) := by
    apply Avoids.of_without hc hroot
    rw [h.without_putAt]
    exact havoids.without hc hroot
  have hwithout' := follow_without hc maxLinks hroot havoids'
  rw [h.without_putAt, hwithout, hfollow] at hwithout'
  cases hfound : (s.putAt (way ++ [name]) new).follow maxLinks [] (s.names dir) with
  | error fault =>
    rw [hfound] at hwithout'
    cases hwithout'
  | ok found =>
    obtain ⟨way', e⟩ := found
    rw [hfound] at hwithout'
    obtain rfl : way = way' := congrArg Prod.fst (Except.ok.inj hwithout')
    obtain ⟨left, hleft⟩ := follow_onward hfound
    have hlast := follow_append hat hlink (by simpa using h.down.symm) left []
    rw [List.append_nil, follow_nil left hat] at hlast
    rw [Store.locate, names_join _ _ h.isPart]
    have hnames : (s.putAt (way ++ [name]) new).names dir = s.names dir := rfl
    rw [hnames, hleft, hlast]

theorem makeNew : s.makeNew (join dir name) = .ok (s.putAt (way ++ [name]) (.dir [])) := by
  obtain ⟨entries, hlocate⟩ := h.leads
  have hnone := h.none
  rw [Entry.at?_concat (at?_of_locate hlocate)] at hnone
  simp only [Store.makeNew, names_join s dir h.isPart, List.dropLast_concat, List.getLast?_concat,
    follow_of_locate hlocate, hnone]
  rw [if_neg (by simp [h.down])]
  rfl

end Vacant

end GoAtlas.Files.Store
