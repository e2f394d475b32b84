import GoAtlas.Proofs.Graph.Components
import Mathlib

namespace GoAtlas.Graph

open Search

variable {g g' : Graph} {s s' : Search} {v : String}

theorem holds_empty (g : Graph) : Holds g [] {} := by
  have hdone : ∀ v, ¬Done {} v := by
    rintro v ⟨hmet, -⟩
    cases hmet
  refine
    { marked := fun v => Iff.rfl, nodup := List.nodup_nil, met := by simp,
      bounded := fun v hv => (hdone v ⟨hv, List.not_mem_nil⟩).elim,
      ordered := List.Pairwise.nil, waits := by simp, closed := fun v w hv => (hdone v hv).elim,
      left := by simp, down := by simp, up := by simp, listed := ⟨fun c => ?_, List.Pairwise.nil⟩ }
  constructor
  · intro hc
    cases hc
  · rintro ⟨hc, hall⟩
    obtain ⟨v, hv⟩ := List.exists_mem_of_ne_nil c hc.1.ne_nil
    exact (hdone v (hall v hv)).elim

theorem connectAll_ok {depth : Nat} {vs : List String} (hvs : ∀ v ∈ vs, v ∈ g.vertices)
    (hdepth : g.vertices.length ≤ depth) :
    ∃ s, g.connectAll depth vs = .ok s ∧ Holds g [] s ∧ ∀ v ∈ vs, s.Met v := by
  have hall : ∃ s, g.connectAll depth vs = .ok s ∧ Holds g [] s ∧ ∀ v ∈ [] ++ vs, s.Met v := by
    apply foldlM_ok (P := fun done s => Holds g [] s ∧ ∀ v ∈ done, s.Met v)
    · rintro done v s hv ⟨hs, hdone⟩
      by_cases hmet : s.Met v
      · refine ⟨s, if_neg fun hnone => isNone_iff.mp hnone hmet, hs, fun u hu => ?_⟩
        obtain hu | hu := List.mem_append.mp hu
        · exact hdone u hu
        · rwa [List.mem_singleton.mp hu]
      · have hunmet : (unmet g s).length ≤ depth := (List.length_filter_le _ _).trans hdepth
        obtain ⟨s', above, n, hconnect, hs', hj⟩ :=
          connect_ok hs hmet (hvs v hv) (by simp) hunmet
        refine ⟨s', (if_pos (isNone_iff.mpr hmet)).trans hconnect, hs', fun u hu => ?_⟩
        obtain hu | hu := List.mem_append.mp hu
        · exact hj.keeps.met (hdone u hu)
        · rw [List.mem_singleton.mp hu]
          exact hj.met
    · exact ⟨holds_empty g, by simp⟩
  simpa using hall

theorem Search.Holds.stack_eq_nil (h : Holds g [] s) : s.stack = [] := by
  rw [List.eq_nil_iff_forall_not_mem]
  intro v hv
  obtain ⟨o, ho, -⟩ := h.up v hv
  cases ho

theorem Search.Holds.mem_found_iff (h : Holds g [] s) (hmet : ∀ v ∈ g.nodes, s.Met v)
    (c : List String) : c ∈ s.found ↔ g.IsCycle c := by
  rw [h.listed.mem_iff, and_iff_left_iff_imp]
  intro hc v hv
  obtain ⟨w, hedge⟩ := hc.exists_edge hv
  rw [Done, h.stack_eq_nil]
  exact ⟨hmet v hedge.mem_nodes, List.not_mem_nil⟩

theorem exists_of_bind {ε α β : Type} {x : Except ε α} {f : α → Except ε β} {b : β}
    (h : x >>= f = .ok b) : ∃ a, x = .ok a ∧ f a = .ok b := by
  cases x with
  | error e => cases h
  | ok a => exact ⟨a, rfl, h⟩

theorem follow_mono {descend descend' : String → Search → Except Breach Search}
    (h : ∀ w s s', descend w s = .ok s' → descend' w s = .ok s') {w : String}
    (hs : Search.follow descend v s w = .ok s') : Search.follow descend' v s w = .ok s' := by
  rw [Search.follow] at hs ⊢
  split
  · next hnone =>
    rw [if_pos hnone] at hs
    obtain ⟨t, ht, hlower⟩ := exists_of_bind hs
    rw [h w s t ht]
    exact hlower
  · next hsome => rwa [if_neg hsome] at hs

theorem foldlM_mono {ε α : Type} {f f' : α → String → Except ε α}
    (h : ∀ a w b, f a w = .ok b → f' a w = .ok b) {ws : List String} {a b : α}
    (hb : ws.foldlM f a = .ok b) : ws.foldlM f' a = .ok b := by
  induction ws generalizing a with
  | nil => exact hb
  | cons w ws ih =>
    rw [List.foldlM_cons] at hb
    obtain ⟨t, ht, hrest⟩ := exists_of_bind hb
    rw [List.foldlM_cons, h a w t ht]
    exact ih hrest

theorem connect_mono {depth : Nat} (h : g.connect depth v s = .ok s') :
    g.connect (depth + 1) v s = .ok s' := by
  induction depth generalizing v s s' with
  | zero => cases h
  | succ depth ih =>
    rw [connect] at h
    obtain ⟨t, ht, hleave⟩ := exists_of_bind h
    rw [connect, foldlM_mono (fun a w b => follow_mono fun w s s' => ih) ht]
    exact hleave

theorem connectAll_mono {depth depth' : Nat} {vs : List String} (hle : depth ≤ depth')
    (h : g.connectAll depth vs = .ok s) : g.connectAll depth' vs = .ok s := by
  induction hle with
  | refl => exact h
  | step _ ih =>
    apply foldlM_mono _ ih
    intro t v t' ht
    split
    · next hnone =>
      rw [if_pos hnone] at ht
      exact connect_mono ht
    · next hsome => rwa [if_neg hsome] at ht

theorem search_ok (g : Graph) :
    ∃ s, g.search = .ok s ∧ Holds g [] s ∧ ∀ v ∈ g.nodes, s.Met v := by
  have hvertices : ∀ v ∈ sortedSet g.nodes, v ∈ g.vertices := fun v hv =>
    mem_vertices_of_mem_nodes (mem_sortedSet.mp hv)
  obtain ⟨s, hs, hholds, hmet⟩ := connectAll_ok hvertices le_rfl
  exact ⟨s, hs, hholds, fun v hv => hmet v (mem_sortedSet.mpr hv)⟩

theorem cycles_eq (h : g.search = .ok s) : g.cycles = s.found := by
  rw [cycles, h]

/-- The search ends in the same state however deep it may go, and comes across no breach; each cycle
is listed once, and nothing else is. -/
theorem cycles_exact (g : Graph) :
    (∃ s, (∀ depth, g.vertices.length ≤ depth →
      g.connectAll depth (sortedSet g.nodes) = .ok s) ∧ g.cycles = s.found) ∧
    g.cycles.Nodup ∧ ∀ c, c ∈ g.cycles ↔ g.IsCycle c := by
  obtain ⟨s, hs, hholds, hmet⟩ := search_ok g
  rw [cycles_eq hs]
  refine ⟨⟨s, fun depth hle => connectAll_mono hle hs, rfl⟩, ?_, hholds.mem_found_iff hmet⟩
  apply hholds.listed.ordered.imp_of_mem
  intro c d hc _ hapart he
  obtain ⟨v, hv⟩ := List.exists_mem_of_ne_nil c ((hholds.mem_found_iff hmet c).mp hc).1.ne_nil
  exact hapart v hv v (he ▸ hv) .refl

theorem edge_iff_mem (hnodup : g.nodes.Nodup) {w : String} :
    g.Edge v w ↔ ∃ targets, (v, targets) ∈ g ∧ w ∈ targets := by
  constructor
  · rintro ⟨targets, hlookup, hw⟩
    exact ⟨targets, Dict.mem_of_lookup hlookup, hw⟩
  · rintro ⟨targets, hmem, hw⟩
    obtain ⟨before, after, rfl⟩ := List.append_of_mem hmem
    rw [nodes, List.map_append, List.nodup_append] at hnodup
    refine ⟨targets, List.lookup_eq_some_iff.mpr ⟨before, after, rfl, fun e he => ?_⟩, hw⟩
    simpa using (hnodup.2.2 e.1 (List.mem_map_of_mem he) v (by simp)).symm

theorem edge_iff_of_perm (hnodup : g.nodes.Nodup) (hperm : g'.Perm g) (v w : String) :
    g'.Edge v w ↔ g.Edge v w := by
  have hnodup' : g'.nodes.Nodup := (hperm.map Prod.fst).nodup_iff.mpr hnodup
  rw [edge_iff_mem hnodup, edge_iff_mem hnodup']
  simp only [hperm.mem_iff]

theorem successors_congr (h : ∀ v w, g'.Edge v w ↔ g.Edge v w) (v : String) :
    g'.successors v = g.successors v :=
  (sortedSet_sorted _).eq_of_mem_iff (sortedSet_sorted _) fun w =>
    mem_successors.trans ((h v w).trans mem_successors.symm)

theorem connect_congr (h : ∀ v, g'.successors v = g.successors v) (depth : Nat) :
    g'.connect depth = g.connect depth := by
  induction depth with
  | zero => rfl
  | succ depth ih =>
    funext v s
    simp only [connect, leave, complete, h, ih]

theorem cycles_congr (hnodes : ∀ v, v ∈ g'.nodes ↔ v ∈ g.nodes)
    (hedges : ∀ v w, g'.Edge v w ↔ g.Edge v w) : g'.cycles = g.cycles := by
  obtain ⟨s, hs, -⟩ := search_ok g
  obtain ⟨s', hs', -⟩ := search_ok g'
  -- the bounds on the depth may differ, but neither is felt
  have hdeep := connectAll_mono (le_max_left g.vertices.length g'.vertices.length) hs
  have hdeep' := connectAll_mono (le_max_right g.vertices.length g'.vertices.length) hs'
  rw [connectAll, connect_congr (successors_congr hedges), sortedSet_congr hnodes] at hdeep'
  have hsame : s' = s := Except.ok.inj (hdeep'.symm.trans hdeep)
  rw [cycles_eq hs, cycles_eq hs', hsame]

/-- A cycle stands after all others that it leads to, and the list is the same for any two graphs
with the same nodes and the same edges. -/
theorem cycles_ordered (g : Graph) :
    (∀ (i j : Nat) (c d : List String), g.cycles[i]? = some c → g.cycles[j]? = some d → c ≠ d →
      (∃ v ∈ c, ∃ w ∈ d, g.Reaches v w) → j < i) ∧
    ∀ g' : Graph, (∀ v, v ∈ g'.nodes ↔ v ∈ g.nodes) → (∀ v w, g'.Edge v w ↔ g.Edge v w) →
      g'.cycles = g.cycles := by
  refine ⟨fun i j c d hi hj hne ⟨v, hv, w, hw, hpath⟩ => ?_, fun g' => cycles_congr⟩
  obtain ⟨s, hs, hholds, -⟩ := search_ok g
  rw [cycles_eq hs] at hi hj
  obtain ⟨hi', rfl⟩ := List.getElem?_eq_some_iff.mp hi
  obtain ⟨hj', rfl⟩ := List.getElem?_eq_some_iff.mp hj
  obtain hlt | rfl | hlt := lt_trichotomy i j
  · exact (List.pairwise_iff_getElem.mp hholds.listed.ordered i j hi' hj' hlt v hv w hw hpath).elim
  · exact (hne rfl).elim
  · exact hlt

/-- Two cycles, the second met first and leading to the first through a node on neither. -/
def chained : Graph :=
  [("z", ["y", "z"]), ("a", ["b"]), ("b", ["m", "a"]), ("m", ["y"]), ("y", ["z"])]

theorem cycles_ordered_chained : chained.cycles = [["y", "z"], ["a", "b"]] ∧
    cycles chained.reverse = chained.cycles := by
  refine ⟨by cbv, (cycles_ordered chained).2 chained.reverse (fun v => ?_) ?_⟩
  · simp [nodes]
  · exact edge_iff_of_perm (by decide) (List.reverse_perm chained)

end GoAtlas.Graph
