import GoAtlas.Proofs.Reference.Walk
import GoAtlas.Proofs.Syntax.Marks

namespace GoAtlas

namespace Syntax

/-- All nodes lie inside their parents, and follow one another there without overlap. -/
structure Tree.Orderly (t : Tree) : Prop where
  inside : ∀ u ∈ t.walk, ∀ c ∈ u.children,
    u.start ≤ c.start ∧ c.start ≤ c.stop ∧ c.stop ≤ u.stop
  apart : ∀ u ∈ t.walk, u.children.Pairwise fun c d => c.stop ≤ d.start

instance (t : Tree) : Decidable t.Orderly :=
  decidable_of_iff
    ((∀ u ∈ t.walk, ∀ c ∈ u.children, u.start ≤ c.start ∧ c.start ≤ c.stop ∧ c.stop ≤ u.stop) ∧
      ∀ u ∈ t.walk, u.children.Pairwise fun c d => c.stop ≤ d.start)
    ⟨fun h => ⟨h.1, h.2⟩, fun h => ⟨h.inside, h.apart⟩⟩

namespace Tree.Orderly

variable {t c u : Tree}

theorem child (h : t.Orderly) (hc : c ∈ t.children) : c.Orderly where
  inside u hu := h.inside u (child_mem_walk hc hu)
  apart u hu := h.apart u (child_mem_walk hc hu)

theorem within (h : t.Orderly) (hle : t.start ≤ t.stop) (hu : u ∈ t.walk) :
    t.start ≤ u.start ∧ u.start ≤ u.stop ∧ u.stop ≤ t.stop := by
  induction t using by_children with
  | h t ih =>
    rcases mem_walk_iff.mp hu with rfl | ⟨c, hc, hu⟩
    · exact ⟨Nat.le_refl _, hle, Nat.le_refl _⟩
    · obtain ⟨hstart, hchild, hstop⟩ := h.inside t (self_mem_walk t) c hc
      obtain ⟨hstart', hu', hstop'⟩ := ih c hc (h.child hc) hchild hu
      exact ⟨hstart.trans hstart', hu', hstop'.trans hstop⟩

theorem sorted (h : t.Orderly) : t.walk.Pairwise fun u v => u.start ≤ v.start := by
  induction t using by_children with
  | h t ih =>
    have hinside := h.inside t (self_mem_walk t)
    rw [walk_eq, List.pairwise_cons, List.pairwise_flatMap]
    refine ⟨fun u hu => ?_, fun c hc => ih c hc (h.child hc), ?_⟩
    · obtain ⟨c, hc, hu⟩ := List.mem_flatMap.mp hu
      exact (hinside c hc).1.trans ((h.child hc).within (hinside c hc).2.1 hu).1
    · refine (h.apart t (self_mem_walk t)).imp_of_mem fun {c d} hc hd hapart u hu v hv => ?_
      have hu := (h.child hc).within (hinside c hc).2.1 hu
      have hv := (h.child hd).within (hinside d hd).2.1 hv
      calc u.start ≤ u.stop := hu.2.1
        _ ≤ c.stop := hu.2.2
        _ ≤ d.start := hapart
        _ ≤ v.start := hv.1

end Tree.Orderly

end Syntax

namespace Reference

open Syntax

/-- A prefix that goes on as long as `p` holds has in it all that satisfies `q`, where `p` cannot hold of
one of these once it has failed. -/
theorem filter_takeWhile {α : Type} {p q : α → Bool} {l : List α}
    (h : l.Pairwise fun a b => q b = true → p b = true → p a = true) :
    (l.takeWhile p).filter q = (l.filter p).filter q := by
  induction l with
  | nil => rfl
  | cons a l ih =>
    obtain ⟨hhead, htail⟩ := List.pairwise_cons.mp h
    by_cases ha : p a = true
    · rw [List.takeWhile_cons_of_pos ha, List.filter_cons_of_pos ha, List.filter_cons,
        List.filter_cons, ih htail]
    · rw [List.takeWhile_cons_of_neg ha, List.filter_cons_of_neg ha, List.filter_filter, eq_comm,
        List.filter_nil, List.filter_eq_nil_iff]
      intro b hb hqp
      obtain ⟨hq, hp⟩ := Bool.and_eq_true_iff.mp hqp
      exact ha (hhead b hb hq hp)

theorem getLast?_filter_iff {α : Type} {p : α → Bool} {l : List α} {a : α} :
    (l.filter p).getLast? = some a ↔
      ∃ before after, l = before ++ a :: after ∧ p a = true ∧ ∀ b ∈ after, ¬ p b = true := by
  constructor
  · intro h
    obtain ⟨found, hfound⟩ := List.getLast?_eq_some_iff.mp h
    obtain ⟨before, rest, rfl, -, hrest⟩ := List.filter_eq_append_iff.mp hfound
    obtain ⟨between, after, rfl, -, ha, hafter⟩ := List.filter_eq_cons_iff.mp hrest
    exact ⟨before ++ between, after, by rw [List.append_assoc], ha,
      fun b hb => List.filter_eq_nil_iff.mp hafter b hb⟩
  · rintro ⟨before, after, rfl, ha, hafter⟩
    rw [List.filter_append, List.filter_cons_of_pos ha, List.filter_eq_nil_iff.mpr hafter,
      List.getLast?_concat]

variable {root : Tree} {s u : Site} {offset : Int}

def Site.Covers (s : Site) (offset : Int) : Prop :=
  s.isIdentifier ∧ (s.node.start : Int) ≤ offset ∧ offset < s.node.stop

instance (s : Site) (offset : Int) : Decidable (s.Covers offset) :=
  inferInstanceAs (Decidable (_ ∧ _))

def Starts (root : Tree) : Prop :=
  (Site.ofTree root).Pairwise fun s u => u.isIdentifier → s.node.start ≤ u.node.start

theorem Starts.identifierAt? (h : Starts root) (offset : Int) :
    identifierAt? root offset = ((Site.ofTree root).filter fun s => s.Covers offset).getLast? := by
  rw [Reference.identifierAt?, filter_takeWhile, List.filter_filter]
  · congr 1
    refine List.filter_congr fun s _ => ?_
    grind [Site.Covers]
  · refine h.imp fun {s u} hstart hq hp => ?_
    have hle := hstart (Bool.and_eq_true_iff.mp hq).1
    simp only [decide_eq_true_eq] at hp ⊢
    omega

theorem starts_of_orderly (h : root.Orderly) : Starts root := by
  have hsorted := h.sorted
  rw [← Site.map_node_walk ⟨root, none, none⟩, List.pairwise_map] at hsorted
  refine hsorted.imp ?_
  intro s u hle _
  exact hle

theorem root_start_le {size : Nat} (h : Parsed size root)
    (hs : s ∈ sitesOf (some root) none root.children) (hi : s.isIdentifier) :
    root.start ≤ s.node.start := by
  obtain ⟨t, ht, hw⟩ := Tree.exists_of_mem_walkAll (mem_walkAll_of_mem_sitesOf hs)
  rcases h.start t ht with ⟨sp, rfl⟩ | hle
  · obtain hn : s.node = .node .comment none sp [] := List.mem_singleton.mp hw
    rw [Site.isIdentifier, hn] at hi
    cases hi
  · exact hle.trans (Tree.walk_within t (h.row.mem ht).2.2.1 _ hw).1

theorem starts_of_parsed {size : Nat} (h : Parsed size root) : Starts root := by
  have hsorted := Tree.walkAll_sorted root.children _ _ _ h.row
  rw [← map_node_sitesOf root.children (some root) none, List.pairwise_map] at hsorted
  rw [Starts, Site.ofTree_eq, sites_eq_cons, List.pairwise_cons]
  refine ⟨fun u hu hi => root_start_le h hu hi, hsorted.imp ?_⟩
  intro s u hle _
  exact hle

/-- The search finds an identifier where there is one, and then the last of the walk. -/
structure FindsLast (root : Tree) : Prop where
  isSome_iff : ∀ offset : Int, (identifierAt? root offset).isSome ↔
    ∃ t ∈ root.walk, t.kind.isIdentifier ∧ (t.start : Int) ≤ offset ∧ offset < t.stop
  eq_some_iff : ∀ (offset : Int) s, identifierAt? root offset = some s ↔
    ∃ before after, Site.ofTree root = before ++ s :: after ∧ s.Covers offset ∧
      ∀ u ∈ after, ¬ u.Covers offset

theorem Starts.findsLast (h : Starts root) : FindsLast root where
  isSome_iff offset := by
    rw [h.identifierAt?, List.getLast?_isSome, ← Site.map_node_walk ⟨root, none, none⟩]
    constructor
    · intro hne
      obtain ⟨s, hs⟩ := List.exists_mem_of_ne_nil _ hne
      obtain ⟨hmem, hcovers⟩ := List.mem_filter.mp hs
      exact ⟨s.node, List.mem_map_of_mem hmem, of_decide_eq_true hcovers⟩
    · rintro ⟨t, ht, hcovers⟩
      obtain ⟨s, hs, rfl⟩ := List.mem_map.mp ht
      exact List.ne_nil_of_mem (List.mem_filter.mpr ⟨hs, decide_eq_true hcovers⟩)
  eq_some_iff offset s := by
    rw [h.identifierAt?, getLast?_filter_iff]
    simp only [decide_eq_true_eq]

theorem identifierAt?_exact : (∀ root : Tree, root.Orderly → FindsLast root) ∧
    ∀ source root, parse? source = some root → FindsLast root := by
  refine ⟨fun root h => ?_, fun source root h => ?_⟩
  · exact (starts_of_orderly h).findsLast
  · exact (starts_of_parsed (parse?_parsed h)).findsLast

/-- A selector whose three words follow each other without a gap. -/
def selector : Tree :=
  .node .selectorExpression none ⟨4, 7, ⟨0, 4⟩, ⟨0, 7⟩⟩
    [.node .identifier (some .operand) ⟨4, 5, ⟨0, 4⟩, ⟨0, 5⟩⟩ [],
      .node (.token ".") none ⟨5, 6, ⟨0, 5⟩, ⟨0, 6⟩⟩ [],
      .node .fieldIdentifier (some .field) ⟨6, 7, ⟨0, 6⟩, ⟨0, 7⟩⟩ []]

/-- A comment in front of a file, which its root does not reach back to. -/
def commented : ByteArray :=
  "// c\npackage p\n".toUTF8

theorem identifierAt?_exact_adjacent : selector.Orderly ∧
    ((identifierAt? selector 4).isSome ∧ (identifierAt? selector 5).isSome = false ∧
      (identifierAt? selector 6).isSome ∧ (identifierAt? selector 7).isSome = false) ∧
    ∃ root, parse? commented = some root ∧ ¬ root.Orderly ∧ FindsLast root := by
  have horderly : selector.Orderly := by decide
  have hfinds := identifierAt?_exact.1 selector horderly
  refine ⟨horderly, ⟨?_, ?_, ?_, ?_⟩, ?_⟩
  · exact (hfinds.isSome_iff 4).mpr (by decide)
  · exact Bool.eq_false_iff.mpr (mt (hfinds.isSome_iff 5).mp (by decide))
  · exact (hfinds.isSome_iff 6).mpr (by decide)
  · exact Bool.eq_false_iff.mpr (mt (hfinds.isSome_iff 7).mp (by decide))
  · obtain ⟨root, hroot, horderly⟩ : ∃ root ∈ parse? commented, ¬root.Orderly := by decide +kernel
    exact ⟨root, hroot, horderly, identifierAt?_exact.2 commented root hroot⟩

end Reference

end GoAtlas
