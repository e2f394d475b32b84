import GoAtlas.Proofs.Graph.Paths

namespace GoAtlas.Graph

namespace Search

variable {g : Graph} {s s' t t' : Search} {u v w : String} {opened : List String}

def Met (s : Search) (v : String) : Prop :=
  (s.number.lookup v).isSome

/-- The number of a node that has been met. -/
def rank (s : Search) (v : String) : Nat :=
  (s.number.lookup v).getD 0

def Done (s : Search) (v : String) : Prop :=
  s.Met v ∧ v ∉ s.stack

theorem isNone_iff : (s.number.lookup v).isNone ↔ ¬s.Met v := by
  rw [Met, Option.isNone_iff_eq_none, Option.not_isSome_iff_eq_none]

theorem Met.lookup (h : s.Met v) : s.number.lookup v = some (s.rank v) := by
  obtain ⟨n, hn⟩ := Option.isSome_iff_exists.mp h
  rw [rank, hn, Option.getD_some]

theorem met_of_lookup {n : Nat} (h : s.number.lookup v = some n) : s.Met v := by
  rw [Met, h, Option.isSome_some]

theorem rank_of_lookup {n : Nat} (h : s.number.lookup v = some n) : s.rank v = n := by
  rw [rank, h, Option.getD_some]

/-- Nodes that have been met keep their numbers and their low links. -/
structure Keeps (s s' : Search) : Prop where
  number : ∀ v, s.Met v → s'.number.lookup v = s.number.lookup v
  low : ∀ v, s.Met v → s'.low.lookup v = s.low.lookup v

namespace Keeps

theorem met (h : s.Keeps s') (hv : s.Met v) : s'.Met v := by
  rwa [Met, h.number v hv]

theorem rank (h : s.Keeps s') (hv : s.Met v) : s'.rank v = s.rank v := by
  rw [Search.rank, Search.rank, h.number v hv]

theorem trans (h : s.Keeps t) (h' : t.Keeps t') : s.Keeps t' where
  number v hv := (h'.number v (h.met hv)).trans (h.number v hv)
  low v hv := (h'.low v (h.met hv)).trans (h.low v hv)

theorem lowered (h : s.Keeps t) (hv : ¬s.Met v) (n : Nat) :
    s.Keeps { t with low := t.low.put v n } where
  number := h.number
  low u hu := by
    have hne : u ≠ v := fun he => hv (he ▸ hu)
    rw [Dict.lookup_put, if_neg (by simpa using hne)]
    exact h.low u hu

end Keeps

/-- The parts of a search agree with each other: the marks with the stack, and the order of the stack
with the numbers. -/
structure Tidy (s : Search) : Prop where
  marked : ∀ v, v ∈ s.waiting ↔ v ∈ s.stack
  nodup : s.waiting.Nodup
  met : ∀ v ∈ s.stack, s.Met v
  bounded : ∀ v, s.Met v → s.rank v < s.count
  ordered : s.stack.Pairwise fun v w => s.rank w < s.rank v

/-- The cycles found are those all of whose nodes are done, and no path leads from one to a later
one. -/
structure Listed (g : Graph) (s : Search) : Prop where
  mem_iff : ∀ c, c ∈ s.found ↔ g.IsCycle c ∧ ∀ v ∈ c, s.Done v
  ordered : s.found.Pairwise fun c d => ∀ v ∈ c, ∀ w ∈ d, ¬g.Reaches v w

/-- The invariant of a search that is in the middle of the given nodes. -/
structure Holds (g : Graph) (opened : List String) (s : Search) : Prop extends s.Tidy where
  waits : ∀ v ∈ opened, v ∈ s.stack
  closed : ∀ v w, s.Done v → g.Edge v w → s.Done w
  left : ∀ v ∈ s.stack, v ∉ opened → ∀ w, g.Edge v w → s.Met w
  down : ∀ v ∈ opened, ∀ w ∈ s.stack, s.rank v ≤ s.rank w → g.Reaches v w
  up : ∀ w ∈ s.stack, ∃ v ∈ opened, s.rank v ≤ s.rank w ∧ g.Reaches w v
  listed : Listed g s

theorem Tidy.stack_nodup (h : s.Tidy) : s.stack.Nodup :=
  h.ordered.imp fun hlt he => by simp [he] at hlt

theorem Holds.done_of_reaches (h : Holds g opened s) (hv : s.Done v) (hw : g.Reaches v w) :
    s.Done w := by
  induction hw with
  | refl => exact hv
  | tail _ hedge ih => exact h.closed _ _ ih hedge

theorem Holds.withLow (h : Holds g opened s) (low : Dict String Nat) :
    Holds g opened { s with low } where
  marked := h.marked
  nodup := h.nodup
  met := h.met
  bounded := h.bounded
  ordered := h.ordered
  waits := h.waits
  closed := h.closed
  left := h.left
  down := h.down
  up := h.up
  listed := ⟨h.listed.mem_iff, h.listed.ordered⟩

theorem lookup_enter :
    (s.enter v).number.lookup u = if u == v then some s.count else s.number.lookup u :=
  Dict.lookup_put v u s.count s.number

theorem lookup_enter_self : (s.enter v).number.lookup v = some s.count := by
  rw [lookup_enter, if_pos (by simp)]

theorem lookup_enter_of_ne (h : u ≠ v) : (s.enter v).number.lookup u = s.number.lookup u := by
  rw [lookup_enter, if_neg (by simpa using h)]

theorem met_enter : (s.enter v).Met u ↔ u = v ∨ s.Met u := by
  by_cases h : u = v
  · rw [h]
    exact iff_of_true (met_of_lookup lookup_enter_self) (.inl rfl)
  · rw [Met, lookup_enter_of_ne h, or_iff_right h, Met]

theorem keeps_enter (hv : ¬s.Met v) : s.Keeps (s.enter v) := by
  have hne : ∀ u, s.Met u → ¬(u == v) = true := fun u hu he => hv (eq_of_beq he ▸ hu)
  constructor
  · intro u hu
    rw [lookup_enter, if_neg (hne u hu)]
  · intro u hu
    exact (Dict.lookup_put v u s.count s.low).trans (if_neg (hne u hu))

theorem done_enter (hv : ¬s.Met v) : (s.enter v).Done u ↔ s.Done u := by
  rw [Done, Done, met_enter, show (s.enter v).stack = v :: s.stack from rfl, List.mem_cons]
  constructor
  · rintro ⟨rfl | hu, hstack⟩
    · exact (hstack (.inl rfl)).elim
    · exact ⟨hu, fun h => hstack (.inr h)⟩
  · rintro ⟨hu, hstack⟩
    exact ⟨.inr hu, fun h => h.elim (fun he => hv (he ▸ hu)) hstack⟩

theorem Tidy.enter (h : s.Tidy) (hv : ¬s.Met v) : (s.enter v).Tidy := by
  have hkeeps := keeps_enter hv
  have hrank : (s.enter v).rank v = s.count := rank_of_lookup lookup_enter_self
  constructor
  · intro u
    exact List.mem_insert_iff.trans ((or_congr_right (h.marked u)).trans List.mem_cons.symm)
  · exact h.nodup.insert
  · intro u hu
    exact met_enter.mpr ((List.mem_cons.mp hu).imp_right (h.met u))
  · intro u hu
    obtain rfl | hu := met_enter.mp hu
    · rw [hrank]
      exact Nat.lt_succ_self _
    · rw [hkeeps.rank hu]
      exact Nat.lt_succ_of_lt (h.bounded u hu)
  · apply List.Pairwise.cons
    · intro u hu
      rw [hkeeps.rank (h.met u hu), hrank]
      exact h.bounded u (h.met u hu)
    · apply h.ordered.imp_of_mem
      intro u w hu hw hlt
      rwa [hkeeps.rank (h.met u hu), hkeeps.rank (h.met w hw)]

/-- A node that all open nodes lead to can be opened. -/
theorem Holds.enter (h : Holds g opened s) (hv : ¬s.Met v) (hreach : ∀ o ∈ opened, g.Reaches o v) :
    Holds g (v :: opened) (s.enter v) where
  toTidy := h.toTidy.enter hv
  waits u hu := List.mem_cons.mpr ((List.mem_cons.mp hu).imp_right (h.waits u))
  closed u w hu hedge := by
    rw [done_enter hv] at hu ⊢
    exact h.closed u w hu hedge
  left u hu hopened w hedge := by
    obtain rfl | hu := List.mem_cons.mp hu
    · exact (hopened List.mem_cons_self).elim
    · have hu' : u ∉ opened := fun hmem => hopened (List.mem_cons_of_mem _ hmem)
      exact met_enter.mpr (.inr (h.left u hu hu' w hedge))
  down u hu w hw hle := by
    have hkeeps := keeps_enter hv
    have hrank : (s.enter v).rank v = s.count := rank_of_lookup lookup_enter_self
    obtain rfl | hws := List.mem_cons.mp hw <;> obtain rfl | hus := List.mem_cons.mp hu
    · exact .refl
    · exact hreach u hus
    · -- what has been met before has a smaller number
      rw [hkeeps.rank (h.met w hws), hrank] at hle
      exact (not_le.mpr (h.bounded w (h.met w hws)) hle).elim
    · rw [hkeeps.rank (h.met w hws), hkeeps.rank (h.met u (h.waits u hus))] at hle
      exact h.down u hus w hws hle
  up w hw := by
    have hkeeps := keeps_enter hv
    obtain rfl | hw := List.mem_cons.mp hw
    · exact ⟨w, List.mem_cons_self, le_rfl, .refl⟩
    · obtain ⟨u, hu, hle, hpath⟩ := h.up w hw
      rw [← hkeeps.rank (h.met w hw), ← hkeeps.rank (h.met u (h.waits u hu))] at hle
      exact ⟨u, List.mem_cons_of_mem v hu, hle, hpath⟩
  listed := by
    constructor
    · intro c
      simp only [done_enter hv]
      exact h.listed.mem_iff c
    · exact h.listed.ordered

/-- A search from `v`, begun in `s`, has ended in `s'`: what it leaves on the stack is `above`, and no
edge leads from there further down than the low link of `v`. -/
structure Joined (g : Graph) (v : String) (s : Search) (above : List String) (n : Nat)
    (s' : Search) : Prop where
  keeps : s.Keeps s'
  met : s'.Met v
  stack : s'.stack = above ++ s.stack
  low : s'.low.lookup v = some n
  leads : s.count ≤ n ∨ ∃ u ∈ s.stack, s.rank u = n ∧ g.Reaches v u
  bound : ∀ u ∈ above, ∀ w ∈ s.stack, g.Edge u w → n ≤ s.rank w

/-- A search from `v`, begun in `s`, has come to `t`: the edges to `ws` have been followed, and
`above` waits above `v`. -/
structure Scanned (g : Graph) (v : String) (s : Search) (ws above : List String) (n : Nat)
    (t : Search) : Prop where
  keeps : s.Keeps t
  number : t.number.lookup v = some s.count
  stack : t.stack = above ++ v :: s.stack
  low : t.low.lookup v = some n
  leads : n = s.count ∨ ∃ u ∈ s.stack, s.rank u = n ∧ g.Reaches v u
  bound : ∀ u ∈ above, ∀ w ∈ s.stack, g.Edge u w → n ≤ s.rank w
  followed : ∀ w ∈ ws, t.Met w ∧ (w ∈ s.stack → n ≤ s.rank w)

theorem scanned_enter (hv : ¬s.Met v) : Scanned g v s [] [] s.count (s.enter v) where
  keeps := keeps_enter hv
  number := lookup_enter_self
  stack := rfl
  low := (Dict.lookup_put v v s.count s.low).trans (if_pos (by simp))
  leads := .inl rfl
  bound := by simp
  followed := by simp

section

variable {ws above : List String} {n : Nat}

theorem Scanned.rank_self (h : Scanned g v s ws above n t) : t.rank v = s.count :=
  rank_of_lookup h.number

theorem Scanned.le (h : Scanned g v s ws above n t) (hs : s.Tidy) : n ≤ s.count := by
  obtain rfl | ⟨u, hu, rfl, -⟩ := h.leads
  · exact le_rfl
  · exact (hs.bounded u (hs.met u hu)).le

/-- Nodes with smaller numbers than `v` were waiting before the search from it began. -/
theorem Scanned.mem_of_lt (h : Scanned g v s ws above n t) (ht : t.Tidy) (hu : u ∈ t.stack)
    (hlt : t.rank u < s.count) : u ∈ s.stack := by
  have hordered := ht.ordered
  rw [h.stack] at hu hordered
  rw [← h.rank_self] at hlt
  obtain hu | hu := List.mem_append.mp hu
  · exact (lt_asymm hlt ((List.pairwise_append.mp hordered).2.2 u hu v List.mem_cons_self)).elim
  · obtain rfl | hu := List.mem_cons.mp hu
    · exact (lt_irrefl _ hlt).elim
    · exact hu

theorem Scanned.mem_of_mem (h : Scanned g v s ws above n t) (hu : u ∈ s.stack) : u ∈ t.stack := by
  rw [h.stack]
  exact List.mem_append_right above (List.mem_cons_of_mem v hu)

theorem Scanned.lt_of_mem (h : Scanned g v s ws above n t) (hs : s.Tidy) (hu : u ∈ s.stack) :
    t.rank u < t.rank v := by
  rw [h.rank_self, h.keeps.rank (hs.met u hu)]
  exact hs.bounded u (hs.met u hu)

theorem entry_eq {d : Dict String Nat} (h : d.lookup v = some n) : entry d v = .ok n := by
  rw [entry, h]

theorem lower_eq {m : Nat} (h : s.low.lookup v = some n) :
    s.lower v m = .ok { s with low := s.low.put v (min n m) } := by
  rw [lower, entry_eq h]
  rfl

theorem Scanned.lowered (h : Scanned g v s ws above n t) (hs : s.Tidy) (ht : t.Tidy)
    (hv : ¬s.Met v) (hedge : g.Edge v w) (hw : w ∈ t.stack) :
    Scanned g v s (ws ++ [w]) above (min n (t.rank w))
      { t with low := t.low.put v (min n (t.rank w)) } where
  keeps := h.keeps.lowered hv _
  number := h.number
  stack := h.stack
  low := (Dict.lookup_put v v _ t.low).trans (if_pos (by simp))
  leads := by
    obtain hle | hlt := le_or_gt n (t.rank w)
    · rw [min_eq_left hle]
      exact h.leads
    · have hws := h.mem_of_lt ht hw (hlt.trans_le (h.le hs))
      rw [min_eq_right hlt.le, h.keeps.rank (hs.met w hws)]
      exact .inr ⟨w, hws, rfl, .single hedge⟩
  bound u hu x hx he := min_le_of_left_le (h.bound u hu x hx he)
  followed x hx := by
    obtain hx | hx := List.mem_append.mp hx
    · exact ⟨(h.followed x hx).1, fun hxs => min_le_of_left_le ((h.followed x hx).2 hxs)⟩
    · rw [List.mem_singleton.mp hx]
      refine ⟨ht.met w hw, fun hws => min_le_of_right_le ?_⟩
      exact (h.keeps.rank (hs.met w hws)).le

theorem Scanned.skipped (h : Scanned g v s ws above n t) (hw : t.Done w) :
    Scanned g v s (ws ++ [w]) above n t where
  keeps := h.keeps
  number := h.number
  stack := h.stack
  low := h.low
  leads := h.leads
  bound := h.bound
  followed x hx := by
    obtain hx | hx := List.mem_append.mp hx
    · exact h.followed x hx
    · rw [List.mem_singleton.mp hx]
      exact ⟨hw.1, fun hws => (hw.2 (h.mem_of_mem hws)).elim⟩

theorem Scanned.joined {above' : List String} {m : Nat} (h : Scanned g v s ws above n t)
    (hs : s.Tidy) (ht : t.Tidy) (hv : ¬s.Met v) (hedge : g.Edge v w) (hw : ¬t.Met w)
    (hj : Joined g w t above' m t') :
    Scanned g v s (ws ++ [w]) (above' ++ above) (min n m)
      { t' with low := t'.low.put v (min n m) } where
  keeps := (h.keeps.trans hj.keeps).lowered hv _
  number := (hj.keeps.number v (met_of_lookup h.number)).trans h.number
  stack := by rw [hj.stack, h.stack, List.append_assoc]
  low := (Dict.lookup_put v v _ t'.low).trans (if_pos (by simp))
  leads := by
    obtain hle | hlt := le_or_gt n m
    · rw [min_eq_left hle]
      exact h.leads
    · rw [min_eq_right hlt.le]
      obtain hcount | ⟨u, hu, rfl, hpath⟩ := hj.leads
      · have hbound := ht.bounded v (met_of_lookup h.number)
        have hle := h.le hs
        rw [h.rank_self] at hbound
        omega
      · have hus := h.mem_of_lt ht hu (hlt.trans_le (h.le hs))
        exact .inr ⟨u, hus, (h.keeps.rank (hs.met u hus)).symm, .head hedge hpath⟩
  bound u hu x hx he := by
    obtain hu | hu := List.mem_append.mp hu
    · apply min_le_of_right_le
      rw [← h.keeps.rank (hs.met x hx)]
      exact hj.bound u hu x (h.mem_of_mem hx) he
    · exact min_le_of_left_le (h.bound u hu x hx he)
  followed x hx := by
    obtain hx | hx := List.mem_append.mp hx
    · obtain ⟨hmet, hle⟩ := h.followed x hx
      exact ⟨hj.keeps.met hmet, fun hxs => min_le_of_left_le (hle hxs)⟩
    · rw [List.mem_singleton.mp hx]
      exact ⟨hj.met, fun hws => (hw (h.keeps.met (hs.met w hws))).elim⟩

/-- Following an edge from `v` brings the search from it one edge further. -/
theorem Scanned.follow {descend : String → Search → Except Breach Search}
    (h : Scanned g v s ws above n t) (hs : s.Tidy) (ht : Holds g (v :: opened) t) (hv : ¬s.Met v)
    (hedge : g.Edge v w)
    (hdescend : ¬t.Met w → ∃ t' above' m, descend w t = .ok t' ∧ Holds g (v :: opened) t' ∧
      Joined g w t above' m t') :
    ∃ t' above' m, Search.follow descend v t w = .ok t' ∧ Holds g (v :: opened) t' ∧
      Scanned g v s (ws ++ [w]) above' m t' := by
  by_cases hw : t.Met w
  · have hsome : ¬(t.number.lookup w).isNone = true := fun hnone => isNone_iff.mp hnone hw
    by_cases hwaiting : w ∈ t.waiting
    · refine ⟨_, above, _, ?_, ht.withLow _,
        h.lowered hs ht.toTidy hv hedge ((ht.marked w).mp hwaiting)⟩
      rw [Search.follow, if_neg hsome, if_pos hwaiting, entry_eq hw.lookup]
      exact lower_eq h.low
    · refine ⟨t, above, n, ?_, ht, h.skipped ⟨hw, fun hmem => hwaiting ((ht.marked w).mpr hmem)⟩⟩
      rw [Search.follow, if_neg hsome, if_neg hwaiting]
      rfl
  · obtain ⟨t', above', m, hdown, ht', hj⟩ := hdescend hw
    have hlow : t'.low.lookup v = some n :=
      (hj.keeps.low v (met_of_lookup h.number)).trans h.low
    refine ⟨_, above' ++ above, _, ?_, ht'.withLow _, h.joined hs ht.toTidy hv hedge hw hj⟩
    rw [Search.follow, if_pos (isNone_iff.mpr hw), hdown]
    change (entry t'.low w >>= t'.lower v) = _
    rw [entry_eq hj.low]
    exact lower_eq hlow

end

end Search

end GoAtlas.Graph
