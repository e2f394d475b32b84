import GoAtlas.Proofs.Graph.Search

namespace GoAtlas.Graph

namespace Search

variable {g : Graph} {s t : Search} {u v w : String} {opened ws above component : List String}
  {n : Nat}

theorem isClass_mergeSort (hnodup : component.Nodup) (hclass : ∀ w, w ∈ component ↔ g.Linked v w) :
    g.IsClass (component.mergeSort fun a b => decide (a ≤ b)) := by
  have hle := List.pairwise_mergeSort' (· ≤ ·) component
  have hne : (component.mergeSort fun a b => decide (a ≤ b)).Nodup :=
    (List.mergeSort_perm component _).nodup_iff.mpr hnodup
  constructor
  · exact (hle.and hne).imp fun h => lt_of_le_of_ne h.1 h.2
  · exact ⟨v, fun w => List.mem_mergeSort.trans (hclass w)⟩

theorem isCycle_mergeSort_iff (hnodup : component.Nodup)
    (hclass : ∀ w, w ∈ component ↔ g.Linked v w) :
    g.IsCycle (component.mergeSort fun a b => decide (a ≤ b)) ↔
      1 < component.length ∨ g.Edge v v := by
  have hv : v ∈ component := (hclass v).mpr ⟨.refl, .refl⟩
  rw [IsCycle, and_iff_right (isClass_mergeSort hnodup hclass), List.length_mergeSort]
  constructor
  · rintro (hlong | ⟨u, hu, hedge⟩)
    · exact .inl hlong
    · have hmem : v ∈ [u] := hu ▸ List.mem_mergeSort.mpr hv
      rw [List.mem_singleton.mp hmem]
      exact .inr hedge
  · rintro (hlong | hedge)
    · exact .inl hlong
    · by_cases hlong : 1 < component.length
      · exact .inl hlong
      · have hone : component.length = 1 := by
          have := List.length_pos_of_mem hv
          omega
        obtain ⟨u, rfl⟩ := List.length_eq_one_iff.mp hone
        rw [List.mem_singleton.mp hv] at hedge
        exact .inr ⟨u, List.mergeSort_singleton u, hedge⟩

/-- A component that nothing done before leads to is listed last. -/
theorem Listed.complete {rest left : List String} (h : Listed g t) (hnodup : component.Nodup)
    (hclass : ∀ w, w ∈ component ↔ g.Linked v w)
    (hdone : ∀ u, (t.complete g v component rest left).Done u ↔ t.Done u ∨ u ∈ component)
    (hapart : ∀ u w, t.Done u → w ∈ component → ¬g.Reaches u w) :
    Listed g (t.complete g v component rest left) := by
  have hcycle := isCycle_mergeSort_iff hnodup hclass
  rw [← mem_successors] at hcycle
  have hmem : ∀ c, c ∈ (t.complete g v component rest left).found ↔ c ∈ t.found ∨
      (g.IsCycle c ∧ c = component.mergeSort fun a b => decide (a ≤ b)) := by
    intro c
    rw [Search.complete]
    dsimp only
    split
    · next hlong =>
      rw [List.mem_append, List.mem_singleton]
      exact or_congr_right ⟨fun he => ⟨he ▸ hcycle.mpr hlong, he⟩, And.right⟩
    · next hshort =>
      refine (or_iff_left ?_).symm
      rintro ⟨hc, rfl⟩
      exact hshort (hcycle.mp hc)
  constructor
  · intro c
    rw [hmem c, h.mem_iff c]
    constructor
    · rintro (⟨hc, hall⟩ | ⟨hc, rfl⟩)
      · exact ⟨hc, fun u hu => (hdone u).mpr (.inl (hall u hu))⟩
      · exact ⟨hc, fun u hu => (hdone u).mpr (.inr (List.mem_mergeSort.mp hu))⟩
    · rintro ⟨hc, hall⟩
      by_cases hin : ∃ u ∈ c, u ∈ component
      · obtain ⟨u, hu, hu'⟩ := hin
        have hclass' := isClass_mergeSort hnodup hclass
        exact .inr ⟨hc, hc.1.eq_of_mem hclass' hu (List.mem_mergeSort.mpr hu')⟩
      · refine .inl ⟨hc, fun u hu => ?_⟩
        exact ((hdone u).mp (hall u hu)).resolve_right fun hu' => hin ⟨u, hu, hu'⟩
  · rw [Search.complete]
    dsimp only
    split
    · apply List.pairwise_append.mpr
      refine ⟨h.ordered, List.pairwise_singleton _ _, fun c hc d hd u hu w hw => ?_⟩
      rw [List.mem_singleton.mp hd] at hw
      exact hapart u w (((h.mem_iff c).mp hc).2 u hu) (List.mem_mergeSort.mp hw)
    · exact h.ordered

theorem takeOff_eq {root : String} {rest waiting : List String}
    (hnodup : (above ++ root :: rest).Nodup) (hwaiting : waiting.Nodup)
    (hmem : ∀ v ∈ above ++ [root], v ∈ waiting) :
    ∃ left, takeOff root (above ++ root :: rest) waiting = .ok (above ++ [root], rest, left) ∧
      left.Nodup ∧ ∀ v, v ∈ left ↔ v ∈ waiting ∧ v ∉ above ++ [root] := by
  induction above generalizing waiting with
  | nil =>
    refine ⟨waiting.erase root, ?_, hwaiting.erase root, fun v => ?_⟩
    · rw [List.nil_append, takeOff, if_pos (hmem root (by simp)), if_pos rfl]
      rfl
    · rw [hwaiting.mem_erase_iff, List.nil_append, List.mem_singleton, and_comm]
  | cons v above ih =>
    rw [List.cons_append, List.nodup_cons] at hnodup
    obtain ⟨hv, hnodup⟩ := hnodup
    have hroot : v ≠ root := fun he => hv (by simp [he])
    have hrest : ∀ u ∈ above ++ [root], u ∈ waiting.erase v := by
      intro u hu
      have hne : u ≠ v := by
        rintro rfl
        apply hv
        rw [List.append_cons]
        exact List.mem_append_left rest hu
      exact (hwaiting.mem_erase_iff).mpr ⟨hne, hmem u (List.mem_cons_of_mem v hu)⟩
    obtain ⟨left, htake, hleft, hin⟩ := ih hnodup (hwaiting.erase v) hrest
    refine ⟨left, ?_, hleft, fun u => ?_⟩
    · rw [List.cons_append, takeOff, if_pos (hmem v List.mem_cons_self), if_neg hroot, htake]
      rfl
    · rw [hin, hwaiting.mem_erase_iff, List.cons_append, List.mem_cons, not_or]
      exact ⟨fun h => ⟨h.1.2, h.1.1, h.2⟩, fun h => ⟨⟨h.2.1, h.1⟩, h.2.2⟩⟩

theorem leave_of_ne (hlow : t.low.lookup v = some n) (hnumber : t.number.lookup v = some s.count)
    (hne : n ≠ s.count) : t.leave g v = .ok t := by
  rw [leave, entry_eq hlow, entry_eq hnumber]
  exact if_neg hne

theorem leave_of_takeOff {rest left : List String} (hlow : t.low.lookup v = some n)
    (hnumber : t.number.lookup v = some n)
    (htake : takeOff v t.stack t.waiting = .ok (component, rest, left)) :
    t.leave g v = .ok (t.complete g v component rest left) := by
  rw [leave, entry_eq hlow, entry_eq hnumber]
  exact (if_pos rfl).trans (by rw [htake]; rfl)

/-- A component on top of the stack, from which edges lead only to itself and to what is done, can be
taken off. -/
theorem Holds.complete {rest left : List String} (h : Holds g (v :: opened) t)
    (hstack : t.stack = component ++ rest) (hwaits : ∀ o ∈ opened, o ∈ rest)
    (hclass : ∀ w, w ∈ component ↔ g.Linked v w)
    (hclosed : ∀ u ∈ component, ∀ w, g.Edge u w → w ∈ component ∨ t.Done w)
    (hleft : left.Nodup) (hmarked : ∀ u, u ∈ left ↔ u ∈ t.waiting ∧ u ∉ component) :
    Holds g opened (t.complete g v component rest left) := by
  have hnodup := h.stack_nodup
  rw [hstack] at hnodup
  have hapart : ∀ u ∈ component, u ∉ rest := fun u hu =>
    List.disjoint_of_nodup_append hnodup hu
  have hmem : ∀ u, u ∈ t.stack ↔ u ∈ component ∨ u ∈ rest := by simp [hstack]
  have hdone : ∀ u, t.Met u ∧ u ∉ rest ↔ t.Done u ∨ u ∈ component := by
    intro u
    have hmet := h.met u
    have := hapart u
    rw [Done, hmem] at *
    tauto
  have hmarks : ∀ u, u ∈ left ↔ u ∈ rest := by
    intro u
    have := hapart u
    rw [hmarked, h.marked, hmem]
    tauto
  have hv : v ∈ component := (hclass v).mpr ⟨.refl, .refl⟩
  refine
    { marked := hmarks, nodup := hleft, met := fun u hu => h.met u ((hmem u).mpr (.inr hu)),
      bounded := h.bounded, ordered := ?_, waits := hwaits, closed := fun u w hu hedge => ?_,
      left := fun u hu hopened w hedge => ?_, down := fun o ho u hu => ?_, up := fun u hu => ?_,
      listed := ?_ }
  · have hordered := h.ordered
    rw [hstack] at hordered
    exact (List.pairwise_append.mp hordered).2.1
  · obtain hu | hu := (hdone u).mp hu
    · exact (hdone w).mpr (.inl (h.closed u w hu hedge))
    · exact (hdone w).mpr (hclosed u hu w hedge).symm
  · have hne : u ≠ v := fun he => hapart v hv (he ▸ hu)
    have hnot := List.not_mem_cons_of_ne_of_not_mem hne hopened
    exact h.left u ((hmem u).mpr (.inr hu)) hnot w hedge
  · exact h.down o (List.mem_cons_of_mem v ho) u ((hmem u).mpr (.inr hu))
  · obtain ⟨o, ho, hle, hpath⟩ := h.up u ((hmem u).mpr (.inr hu))
    obtain rfl | ho := List.mem_cons.mp ho
    · have hordered := h.ordered
      rw [hstack] at hordered
      exact (not_lt.mpr hle ((List.pairwise_append.mp hordered).2.2 o hv u hu)).elim
    · exact ⟨o, ho, hle, hpath⟩
  · apply h.listed.complete hnodup.of_append_left hclass hdone
    intro u w hu hw hpath
    exact (h.done_of_reaches hu hpath).2 ((hmem w).mpr (.inl hw))

section

variable (h : Scanned g v s ws above n t) (hs : Holds g opened s) (ht : Holds g (v :: opened) t)
  (hws : ∀ w, g.Edge v w → w ∈ ws) (hreach : ∀ o ∈ opened, g.Reaches o v)

include h

theorem Scanned.stack_eq : t.stack = (above ++ [v]) ++ s.stack := by
  rw [h.stack, List.append_assoc, List.singleton_append]

theorem Scanned.mem_stack (hu : u ∈ above ++ [v]) : u ∈ t.stack := by
  rw [h.stack_eq]
  exact List.mem_append_left _ hu

include ht

theorem Scanned.nodup : ((above ++ [v]) ++ s.stack).Nodup := by
  rw [← h.stack_eq]
  exact ht.stack_nodup

theorem Scanned.not_mem (hu : u ∈ above ++ [v]) : u ∉ s.stack :=
  List.disjoint_of_nodup_append (h.nodup ht) hu

theorem Scanned.le_rank (hu : u ∈ above ++ [v]) : s.count ≤ t.rank u := by
  by_contra hlt
  exact h.not_mem ht hu (h.mem_of_lt ht.toTidy (h.mem_stack hu) (not_le.mp hlt))

include hs hws

/-- Where the nodes lead that the search from `v` has put on the stack, once all edges from `v` have
been followed. -/
theorem Scanned.edge (hu : u ∈ above ++ [v]) (hedge : g.Edge u w) :
    t.Met w ∧ (w ∈ s.stack → n ≤ s.rank w) := by
  obtain hu' | hu' := List.mem_append.mp hu
  · have hne : u ≠ v := fun he =>
      List.disjoint_of_nodup_append (h.nodup ht).of_append_left hu' (List.mem_singleton.mpr he)
    have hopened : u ∉ v :: opened :=
      List.not_mem_cons_of_ne_of_not_mem hne fun hmem => h.not_mem ht hu (hs.waits u hmem)
    exact ⟨ht.left u (h.mem_stack hu) hopened w hedge, fun hw => h.bound u hu' w hw hedge⟩
  · rw [List.mem_singleton.mp hu'] at hedge
    exact h.followed w (hws w hedge)

theorem Scanned.edge_of_first (hn : n = s.count) (hu : u ∈ above ++ [v]) (hedge : g.Edge u w) :
    w ∈ above ++ [v] ∨ t.Done w := by
  obtain ⟨hmet, hle⟩ := h.edge hs ht hws hu hedge
  by_cases hw : w ∈ t.stack
  · rw [h.stack_eq] at hw
    refine .inl ((List.mem_append.mp hw).resolve_right fun hws => ?_)
    have hlt := hs.bounded w (hs.met w hws)
    have := hle hws
    omega
  · exact .inr ⟨hmet, hw⟩

include hreach

theorem Scanned.mem_component_iff (hn : n = s.count) : w ∈ above ++ [v] ↔ g.Linked v w := by
  have hv : v ∈ t.stack := ht.waits v List.mem_cons_self
  constructor
  · intro hw
    have hstack := h.mem_stack hw
    have hle : t.rank v ≤ t.rank w := by
      rw [h.rank_self]
      exact h.le_rank ht hw
    obtain ⟨o, ho, -, hback⟩ := ht.up w hstack
    refine ⟨ht.down v List.mem_cons_self w hstack hle, ?_⟩
    obtain rfl | ho := List.mem_cons.mp ho
    · exact hback
    · exact hback.trans (hreach o ho)
  · rintro ⟨hpath, hback⟩
    have hin : w ∈ above ++ [v] ∨ t.Done w := by
      induction hpath with
      | refl => exact .inl (by simp)
      | @tail x y hpath hedge ih =>
        obtain hx | hx := ih (.head hedge hback)
        · exact h.edge_of_first hs ht hws hn hx hedge
        · exact .inr (ht.closed x y hx hedge)
    exact hin.resolve_right fun hw => (ht.done_of_reaches hw hback).2 hv

theorem Scanned.leave_first (hn : n = s.count) :
    ∃ s', t.leave g v = .ok s' ∧ Holds g opened s' ∧ Joined g v s [] n s' := by
  have hclass : ∀ w, w ∈ above ++ [v] ↔ g.Linked v w := fun w =>
    h.mem_component_iff hs ht hws hreach hn
  have hwaiting : ∀ u ∈ above ++ [v], u ∈ t.waiting := by
    intro u hu
    exact (ht.marked u).mpr (h.mem_stack hu)
  have hnodup := ht.stack_nodup
  rw [h.stack] at hnodup
  obtain ⟨left, htake, hleft, hmarked⟩ := takeOff_eq hnodup ht.nodup hwaiting
  rw [← h.stack] at htake
  refine ⟨_, leave_of_takeOff h.low (hn ▸ h.number) htake, ?_, ?_⟩
  · exact ht.complete h.stack_eq hs.waits hclass
      (fun u hu w => h.edge_of_first hs ht hws hn hu) hleft hmarked
  · exact ⟨⟨h.keeps.number, h.keeps.low⟩, met_of_lookup h.number, rfl, h.low, .inl hn.ge, by simp⟩

theorem Scanned.leave_other (hn : n ≠ s.count) :
    t.leave g v = .ok t ∧ Holds g opened t ∧ Joined g v s (above ++ [v]) n t := by
  obtain ⟨u, hu, hrank, hpath⟩ := h.leads.resolve_left hn
  have hlt : t.rank u < t.rank v := h.lt_of_mem hs.toTidy hu
  refine ⟨leave_of_ne h.low h.number hn, ?_, ?_⟩
  · refine { ht with waits := ?_, left := ?_, down := ?_, up := ?_ }
    · exact fun o ho => ht.waits o (List.mem_cons_of_mem v ho)
    · intro x hx hopened w hedge
      by_cases hxv : x = v
      · exact (h.followed w (hws w (hxv ▸ hedge))).1
      · exact ht.left x hx (List.not_mem_cons_of_ne_of_not_mem hxv hopened) w hedge
    · exact fun o ho => ht.down o (List.mem_cons_of_mem v ho)
    · intro x hx
      obtain ⟨o, ho, hle, hback⟩ := ht.up x hx
      obtain rfl | ho := List.mem_cons.mp ho
      · -- the way back to `v` goes on to a node below it, and from there to an open one
        obtain ⟨o', ho', hle', hback'⟩ := ht.up u (h.mem_of_mem hu)
        have hne : o' ≠ o := fun he => not_le.mpr hlt (he ▸ hle')
        refine ⟨o', (List.mem_cons.mp ho').resolve_left hne, ?_, (hback.trans hpath).trans hback'⟩
        omega
      · exact ⟨o, ho, hle, hback⟩
  · exact ⟨h.keeps, met_of_lookup h.number, h.stack_eq, h.low, .inr ⟨u, hu, hrank, hpath⟩,
      fun x hx w hw hedge => (h.edge hs ht hws hx hedge).2 hw⟩

end

def unmet (g : Graph) (s : Search) : List String :=
  g.vertices.filter fun v => (s.number.lookup v).isNone

theorem unmet_le (h : ∀ v, s.Met v → t.Met v) : (unmet g t).length ≤ (unmet g s).length := by
  apply (List.monotone_filter_right _ _).length_le
  intro v hv
  rw [isNone_iff] at hv ⊢
  exact fun hmet => hv (h v hmet)

theorem unmet_enter (hvertex : v ∈ g.vertices) (hv : ¬s.Met v) :
    (unmet g (s.enter v)).length < (unmet g s).length := by
  have hfilter : unmet g (s.enter v) = (unmet g s).filter fun u => u ≠ v := by
    rw [unmet, unmet, List.filter_filter]
    apply List.filter_congr
    intro u _
    rw [Bool.eq_iff_iff, Bool.and_eq_true, isNone_iff, isNone_iff, met_enter, not_or,
      decide_eq_true_iff]
  rw [hfilter, List.length_filter_lt_length_iff_exists]
  exact ⟨v, List.mem_filter.mpr ⟨hvertex, isNone_iff.mpr hv⟩, by simp⟩

end Search

open Search

variable {g : Graph} {s : Search} {v : String} {opened : List String}

/-- A step that brings a state one member further takes it through a list. -/
theorem foldlM_ok {α ε : Type} {f : α → String → Except ε α} {P : List String → α → Prop}
    (ws : List String)
    (hstep : ∀ done w a, w ∈ ws → P done a → ∃ b, f a w = .ok b ∧ P (done ++ [w]) b)
    {done : List String} {a : α} (ha : P done a) :
    ∃ b, ws.foldlM f a = .ok b ∧ P (done ++ ws) b := by
  induction ws generalizing done a with
  | nil => exact ⟨a, rfl, by rwa [List.append_nil]⟩
  | cons w ws ih =>
    obtain ⟨b, hb, hP⟩ := hstep done w a List.mem_cons_self ha
    have hrest := ih (fun done x a hx => hstep done x a (List.mem_cons_of_mem w hx)) hP
    rw [List.append_assoc, List.singleton_append] at hrest
    rw [List.foldlM_cons, hb]
    exact hrest

/-- A search from a node that has not been met, as deep as there are nodes not met, never fails. It
keeps the invariant, and the low link of the node is right. -/
theorem connect_ok {depth : Nat} (hs : Holds g opened s) (hv : ¬s.Met v) (hvertex : v ∈ g.vertices)
    (hreach : ∀ o ∈ opened, g.Reaches o v) (hdepth : (unmet g s).length ≤ depth) :
    ∃ s' above n, g.connect depth v s = .ok s' ∧ Holds g opened s' ∧ Joined g v s above n s' := by
  induction depth generalizing v s opened with
  | zero =>
    have := unmet_enter hvertex hv
    omega
  | succ depth ih =>
    have hless := unmet_enter hvertex hv
    -- the edges followed so far, with the search in the middle of `v`
    have hscan : ∃ t, (g.successors v).foldlM (follow (g.connect depth) v) (s.enter v) = .ok t ∧
        Holds g (v :: opened) t ∧ ∃ above n, Scanned g v s ([] ++ g.successors v) above n t := by
      apply foldlM_ok (P := fun ws t =>
        Holds g (v :: opened) t ∧ ∃ above n, Scanned g v s ws above n t)
      · rintro ws w t hw ⟨ht, above, n, hscan⟩
        have hedge := mem_successors.mp hw
        have hmet : ∀ u, (s.enter v).Met u → t.Met u := fun u hu =>
          (met_enter.mp hu).elim (fun he => he ▸ met_of_lookup hscan.number) hscan.keeps.met
        have hopen : ∀ o ∈ v :: opened, g.Reaches o w := by
          intro o ho
          obtain rfl | ho := List.mem_cons.mp ho
          · exact .single hedge
          · exact (hreach o ho).tail hedge
        have hle : (unmet g t).length ≤ (unmet g (s.enter v)).length := unmet_le hmet
        obtain ⟨t', above', m, hfollow, ht', hscan'⟩ := hscan.follow hs.toTidy ht hv hedge
          fun hw => ih ht hw hedge.mem_vertices hopen (by omega)
        exact ⟨t', hfollow, ht', above', m, hscan'⟩
      · exact ⟨hs.enter hv hreach, [], s.count, scanned_enter hv⟩
    obtain ⟨t, hfold, ht, above, n, hscan⟩ := hscan
    have hws : ∀ w, g.Edge v w → w ∈ [] ++ g.successors v := fun w hedge => mem_successors.mpr hedge
    have hconnect : g.connect (depth + 1) v s = t.leave g v := by
      rw [connect, hfold]
      rfl
    rw [hconnect]
    by_cases hn : n = s.count
    · obtain ⟨s', hleave, hs', hj⟩ := hscan.leave_first hs ht hws hreach hn
      exact ⟨s', [], n, hleave, hs', hj⟩
    · obtain ⟨hleave, hs', hj⟩ := hscan.leave_other hs ht hws hreach hn
      exact ⟨t, above ++ [v], n, hleave, hs', hj⟩

end GoAtlas.Graph
