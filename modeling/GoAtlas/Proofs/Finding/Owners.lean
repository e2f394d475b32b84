import GoAtlas.Proofs.Finding.Anchors
import GoAtlas.Proofs.Finding.Decisions

namespace GoAtlas

open Syntax

namespace Syntax

variable {C : Ground} {k c : Kind} {a b : Nat} {t u v : Tree} {ts above around : List Tree}
  {f : Option Field}

theorem Kind.outer_parts (hk : k ≠ .sourceFile) :
    (k.parts.all fun q => [functionDeclaration, methodDeclaration, sourceFile].all fun c =>
      !q.2 c || (!c.isFunction && c != .sourceFile)) = true := by
  cases k <;> first | rfl | exact (hk rfl).elim

theorem Kind.not_outer_of_admits (h : k.admits f c) (hk : k ≠ .sourceFile) :
    c.isFunction = false ∧ c ≠ .sourceFile := by
  have hinner := holds_of_admits (P := fun _ c => !c.isFunction && c != .sourceFile)
    [functionDeclaration, methodDeclaration, sourceFile]
    (fun _ c hc => by cases c <;> first | (cases hc; done) | simp)
    (fun c hc => by cases c <;> first | rfl | cases hc) (outer_parts hk) h
  simpa using hinner

namespace Tree

theorem Laid.not_isFunction (h : t.Laid C) (hk : t.kind.isFunction = false)
    (hne : t.kind ≠ .sourceFile) (hu : u ∈ t.walk) : u.kind.isFunction = false := by
  induction t using Tree.by_children with
  | h t ih =>
    rcases mem_walk_iff.mp hu with rfl | ⟨c, hc, hu⟩
    · exact hk
    · obtain ⟨-, -, hlaid, hadmits⟩ := h.row.mem hc
      obtain ⟨hck, hcne⟩ := Kind.not_outer_of_admits hadmits hne
      exact ih c hc hlaid hck hcne hu

mutual
/-- The nodes of a tree in the order of its walk, each with the nodes around it, the closest first. -/
def lineage (above : List Tree) : Tree → List (Tree × List Tree)
  | .node k f s cs => (.node k f s cs, above) :: lineageAll (.node k f s cs :: above) cs

def lineageAll (above : List Tree) : List Tree → List (Tree × List Tree)
  | [] => []
  | t :: ts => t.lineage above ++ lineageAll above ts
end

theorem lineageAll_eq : lineageAll above ts = ts.flatMap (lineage above) := by
  induction ts with
  | nil => rfl
  | cons t ts ih => rw [lineageAll, ih, List.flatMap_cons]

theorem mem_lineage : (u, around) ∈ t.lineage above ↔
    (u = t ∧ around = above) ∨ ∃ c ∈ t.children, (u, around) ∈ c.lineage (t :: above) := by
  obtain ⟨k, f, s, cs⟩ := t
  rw [lineage, lineageAll_eq, List.mem_cons, List.mem_flatMap, Prod.mk.injEq]
  rfl

theorem mem_walk_iff_lineage : u ∈ t.walk ↔ ∃ around, (u, around) ∈ t.lineage above := by
  induction t using Tree.by_children generalizing above with
  | h t ih =>
    rw [mem_walk_iff]
    constructor
    · rintro (rfl | ⟨c, hc, hu⟩)
      · exact ⟨above, mem_lineage.mpr (.inl ⟨rfl, rfl⟩)⟩
      · obtain ⟨around, hu⟩ := (ih c hc).mp hu
        exact ⟨around, mem_lineage.mpr (.inr ⟨c, hc, hu⟩)⟩
    · rintro ⟨around, hu⟩
      rcases mem_lineage.mp hu with ⟨rfl, -⟩ | ⟨c, hc, hu⟩
      · exact .inl rfl
      · exact .inr ⟨c, hc, (ih c hc).mpr ⟨around, hu⟩⟩

theorem around_of_lineage (h : (u, around) ∈ t.lineage above) : ∃ inner, around = inner ++ above ∧
    (u = t ∨ t ∈ inner) ∧ ∀ v ∈ inner, v ∈ t.walk ∧ u ∈ v.walk := by
  induction t using Tree.by_children generalizing above with
  | h t ih =>
    rcases mem_lineage.mp h with ⟨rfl, rfl⟩ | ⟨c, hc, hu⟩
    · exact ⟨[], rfl, .inl rfl, by simp⟩
    · obtain ⟨inner, rfl, -, hinner⟩ := ih c hc hu
      have hwalk := child_mem_walk hc (mem_walk_iff_lineage.mpr ⟨_, hu⟩)
      refine ⟨inner ++ [t], by simp, .inr (by simp), fun v hv => ?_⟩
      rcases List.mem_append.mp hv with hv | hv
      · exact ⟨child_mem_walk hc (hinner v hv).1, (hinner v hv).2⟩
      · rw [List.mem_singleton.mp hv]
        exact ⟨t.self_mem_walk, hwalk⟩

end Tree

theorem Row.lineage_child (h : Row C k a b t.children) (hv : v ∈ t.children) (hu : u ∈ v.walk)
    (hfilled : u.start < u.stop) (hl : (u, around) ∈ t.lineage above) :
    (u, around) ∈ v.lineage (t :: above) := by
  rcases Tree.mem_lineage.mp hl with ⟨rfl, -⟩ | ⟨c, hc, hl⟩
  · have hle := Tree.sizeOf_le_of_mem_walk hu
    have hlt := Tree.sizeOf_lt_of_mem_children hv
    omega
  · have hcovers : ∀ {w : Tree}, w ∈ t.children → u ∈ w.walk → w.Covers u.start := fun hw hu =>
      Tree.Laid.covers (h.mem hw).2.2.1 hu ⟨Nat.le_refl _, hfilled⟩
    have hwalk := Tree.mem_walk_iff_lineage.mpr ⟨_, hl⟩
    rwa [Row.covers_eq h hv hc (hcovers hv hu) (hcovers hc hwalk)]

theorem Row.head_eq (h : Row C k a b ts) (hu : u ∈ Tree.walkAll ts) (hv : v ∈ Tree.walkAll ts)
    (hku : u.kind.isHeaded) (hkv : v.kind.isHeaded) (he : u.start = v.start) : u = v := by
  have hstarts := (Tree.headsAll_ordered ts k a b h).imp Nat.ne_of_lt
  exact List.inj_on_of_nodup_map (List.pairwise_map.mpr hstarts) (List.mem_filter.mpr ⟨hu, hku⟩)
    (List.mem_filter.mpr ⟨hv, hkv⟩) he

end Syntax

namespace Finding

variable {f : SourceFile} {t body : Tree} {above : List Tree} {b : String × Tree × Tree}

/-- The innermost function among the nodes around a node: a declaration, a method or a literal. -/
def owner? (above : List Tree) : Option Tree :=
  above.find? fun t => t.kind.isFunction || t.kind = .funcLiteral

/-- A function around a node is looked at for returned errors. -/
def Inspected (f : SourceFile) (above : List Tree) : Prop :=
  ∃ b ∈ bodies f, returnsError f.content b.2.1 = true ∧ b.2.2 ∈ above

/-- The innermost function around a node has an error result. -/
def OwnedByFallible (f : SourceFile) (above : List Tree) : Prop :=
  ∃ g, owner? above = some g ∧ returnsError f.content g = true

/-- A node has a fault that a severity setting keeps. -/
def Faulty (setting : Severity) (f : SourceFile) (t : Tree) : Prop :=
  ∃ fault ∈ (returned t).filterMap (returnFault? f.content), setting.keeps fault.severity = true

/-- A finding of a file stands at a node. -/
def Wrapping.Reported (setting : Severity) (f : SourceFile) (t : Tree) : Prop :=
  ∃ w ∈ inFile setting f, w.tag.At f t.start

instance (setting : Severity) (f : SourceFile) (t : Tree) : Decidable (Wrapping.Reported setting f t) :=
  inferInstanceAs (Decidable (∃ w ∈ Wrapping.inFile setting f, w.tag.At f t.start))

theorem Wrapping.mem_inFile {setting : Severity} {w : Wrapping} : w ∈ inFile setting f ↔
    ∃ b ∈ bodies f, returnsError f.content b.2.1 = true ∧ ∃ t ∈ b.2.2.walk,
      t.kind = .returnStatement ∧ w ∈ inStatement f b.1 t ∧ setting.keeps w.fault.severity = true := by
  simp only [inFile, List.mem_flatMap, List.mem_filter, decide_eq_true_eq]
  constructor
  · rintro ⟨b, ⟨hb, herror⟩, ⟨t, ⟨ht, hk⟩, hw⟩, hkeeps⟩
    exact ⟨b, hb, herror, t, ht, hk, hw, hkeeps⟩
  · rintro ⟨b, hb, herror, t, ht, hk, hw, hkeeps⟩
    exact ⟨b, ⟨hb, herror⟩, ⟨t, ⟨ht, hk⟩, hw⟩, hkeeps⟩

theorem Wrapping.at_of_mem {w : Wrapping} {name : String} (h : w ∈ inStatement f name t) :
    w.tag.At f t.start := by
  obtain ⟨fault, -, rfl⟩ := List.mem_map.mp h
  exact Location.tag_at f name _ t.start

theorem child_of_body (hb : b ∈ bodies f) : b.2.1 ∈ f.tree.children :=
  (List.mem_filter.mp (List.mem_filter.mp (mem_bodies.mp hb).1).1).1

theorem walk_of_body (hb : b ∈ bodies f) (ht : t ∈ b.2.2.walk) : t ∈ Tree.walkAll f.tree.children :=
  Tree.mem_walkAll (child_of_body hb)
    (Tree.walk_trans _ (Tree.part_walk (mem_bodies.mp hb).2.1) ht)

theorem mem_of_around (hl : (t, above) ∈ f.tree.lineage []) (hmem : body ∈ above) :
    t ∈ body.walk := by
  obtain ⟨inner, rfl, -, hinner⟩ := Tree.around_of_lineage hl
  rw [List.append_nil] at hmem
  exact (hinner body hmem).2

section

variable (hf : parse? f.content = some f.tree)
include hf

/-- Around a return statement in a body are nodes of the body, the body among them, then the function
and the file. -/
theorem around_return (hb : b ∈ bodies f) (ht : t ∈ b.2.2.walk) (hk : t.kind = .returnStatement)
    (hl : (t, above) ∈ f.tree.lineage []) : ∃ inner, above = inner ++ [b.2.1, f.tree] ∧
      b.2.2 ∈ inner ∧ ∀ v ∈ inner, v ∈ b.2.2.walk := by
  obtain ⟨hfunction, hbody, -⟩ := mem_bodies.mp hb
  have hlies := lies_function hf hfunction
  have hfilled : t.start < t.stop := ((lies_body hf hb).walk ht).signed.filled (by rw [hk]; rfl)
  have hwalk := Tree.walk_trans _ (Tree.part_walk hbody) ht
  have hl := Row.lineage_child (parse?_parsed hf).row (child_of_body hb) hwalk hfilled hl
  have hl := Row.lineage_child hlies.row (mem_of_part? hbody).1 ht hfilled hl
  obtain ⟨inner, rfl, hself, hinner⟩ := Tree.around_of_lineage hl
  refine ⟨inner, rfl, hself.resolve_left ?_, fun v hv => (hinner v hv).1⟩
  rintro rfl
  have hblock := (body_of_function hlies (List.mem_filter.mp hfunction).2 hbody).1
  rw [hk] at hblock
  cases hblock

theorem owner_of_inspected (hk : t.kind = .returnStatement)
    (hl : (t, above) ∈ f.tree.lineage []) (h : Inspected f above) :
    ∃ g, owner? above = some g ∧ (g.kind = .funcLiteral ∨ returnsError f.content g = true) := by
  obtain ⟨b, hb, herror, hmem⟩ := h
  obtain ⟨inner, rfl, -, hinner⟩ := around_return hf hb (mem_of_around hl hmem) hk hl
  have hfunction := (mem_bodies.mp hb).1
  have hkind := (List.mem_filter.mp hfunction).2
  obtain ⟨hblock, hlaid⟩ := body_of_function (lies_function hf hfunction) hkind (mem_bodies.mp hb).2.1
  rw [owner?, List.find?_append]
  cases hg : inner.find? fun t => t.kind.isFunction || t.kind = .funcLiteral with
  | none => exact ⟨b.2.1, by simp [hkind], .inr herror⟩
  | some g =>
    have hnot : g.kind.isFunction = false :=
      hlaid.not_isFunction (by rw [hblock]; rfl) (by simp [hblock])
        (hinner g (List.mem_of_find?_eq_some hg))
    have hg := List.find?_some hg
    exact ⟨g, rfl, .inl (by simpa [hnot] using hg)⟩

namespace Wrapping

theorem reported_iff {setting : Severity} (hk : t.kind = .returnStatement)
    (hl : (t, above) ∈ f.tree.lineage []) :
    Reported setting f t ↔ Faulty setting f t ∧ Inspected f above := by
  constructor
  · rintro ⟨w, hw, hat⟩
    obtain ⟨b, hb, herror, u, hu, hku, hw, hkeeps⟩ := mem_inFile.mp hw
    have hstart := hat.eq (at_of_mem hw) ⟨rfl, rfl, rfl⟩
    have hne : t ≠ f.tree := by
      rintro rfl
      rw [(parse?_parsed hf).kind] at hk
      cases hk
    have hwalk := (Tree.mem_walk_iff.mp (Tree.mem_walk_iff_lineage.mpr ⟨above, hl⟩)).resolve_left hne
    obtain ⟨c, hc, ht⟩ := hwalk
    obtain rfl : t = u := Row.head_eq (parse?_parsed hf).row (Tree.mem_walkAll hc ht)
      (walk_of_body hb hu) (by rw [hk]; rfl) (by rw [hku]; rfl) hstart
    obtain ⟨fault, hfault, rfl⟩ := List.mem_map.mp hw
    obtain ⟨inner, rfl, hmem, -⟩ := around_return hf hb hu hk hl
    exact ⟨⟨fault, hfault, hkeeps⟩, b, hb, herror, List.mem_append_left _ hmem⟩
  · rintro ⟨⟨fault, hfault, hkeeps⟩, b, hb, herror, hmem⟩
    have hw := List.mem_map_of_mem (f := fun fault =>
      (⟨Location.of f b.1 t.start, fault, Text.strip (f.text t)⟩ : Wrapping)) hfault
    exact ⟨_, mem_inFile.mpr ⟨b, hb, herror, t, mem_of_around hl hmem, hk, hw, hkeeps⟩,
      at_of_mem hw⟩

/-- Every finding stands at a return statement. A return statement is reported exactly if it has a fault
that is kept and stands in the body of a function at the top level with an error result. Its innermost
function then has an error result as well, unless that is a literal without one. -/
theorem reported_exact (setting : Severity) :
    (∀ w ∈ inFile setting f, ∃ t above, (t, above) ∈ f.tree.lineage [] ∧
      t.kind = .returnStatement ∧ w.tag.At f t.start) ∧
    ∀ t above, (t, above) ∈ f.tree.lineage [] → t.kind = .returnStatement →
      (Reported setting f t ↔ Faulty setting f t ∧ Inspected f above) ∧
      (Reported setting f t → (¬ OwnedByFallible f above ↔
        ∃ g, owner? above = some g ∧ g.kind = .funcLiteral ∧ returnsError f.content g = false)) := by
  refine ⟨fun w hw => ?_, fun t above hl hk => ⟨reported_iff hf hk hl, fun hreported => ?_⟩⟩
  · obtain ⟨b, hb, -, t, ht, hk, hw, -⟩ := mem_inFile.mp hw
    have hwalk : t ∈ f.tree.walk := by
      refine Tree.walk_trans _ (Tree.child_walk (child_of_body hb)) ?_
      exact Tree.walk_trans _ (Tree.part_walk (mem_bodies.mp hb).2.1) ht
    obtain ⟨above, hl⟩ := Tree.mem_walk_iff_lineage.mp hwalk
    exact ⟨t, above, hl, hk, at_of_mem hw⟩
  · obtain ⟨g, hg, hcases⟩ := owner_of_inspected hf hk hl ((reported_iff hf hk hl).mp hreported).2
    constructor
    · intro hnot
      have herror : ¬ returnsError f.content g = true := fun herror => hnot ⟨g, hg, herror⟩
      exact ⟨g, hg, hcases.resolve_right herror, Bool.eq_false_iff.mpr herror⟩
    · rintro ⟨g', hg', -, herror'⟩ ⟨g'', hg'', herror''⟩
      obtain rfl := Option.some.inj (hg'.symm.trans hg'')
      simp [herror'] at herror''

end Wrapping

end

def nested : ByteArray :=
  ("package p\n\nfunc f() error \x7b\n\tg := func() int \x7b\n\t\treturn err\n\t\x7d\n"
    ++ "\treturn err\n\x7d\n").toUTF8

def nestedFile (tree : Tree) : SourceFile :=
  ⟨"p.go", nested, tree, Source.Registry.slotFor {} "p.go" nested⟩

/-- Both return statements are reported, the first of which belongs to the literal. -/
theorem Wrapping.reported_exact_nested : ∃ tree, parse? nested = some tree ∧
    let f := nestedFile tree
    ∃ t t' above above', (t, above) ∈ tree.lineage [] ∧ (t', above') ∈ tree.lineage [] ∧
      Reported .critical f t ∧ Inspected f above ∧ ¬ OwnedByFallible f above ∧
      Reported .critical f t' ∧ Inspected f above' ∧ OwnedByFallible f above' := by
  obtain ⟨tree, htree, ⟨p, hp, hk, hreported, g, hg, herror⟩, p', hp', hk', hreported', howned⟩ :
      ∃ tree ∈ parse? nested,
        (∃ p ∈ tree.lineage [], p.1.kind = .returnStatement ∧ Reported .critical (nestedFile tree) p.1 ∧
          ∃ g ∈ owner? p.2, returnsError nested g = false) ∧
        ∃ p ∈ tree.lineage [], p.1.kind = .returnStatement ∧ Reported .critical (nestedFile tree) p.1 ∧
          ∃ g ∈ owner? p.2, returnsError nested g = true := by
    decide +kernel
  obtain ⟨-, hexact⟩ := reported_exact (f := nestedFile tree) htree .critical
  have hinspected := ((hexact p.1 p.2 hp hk).1.mp hreported).2
  have hinspected' := ((hexact p'.1 p'.2 hp' hk').1.mp hreported').2
  refine ⟨tree, htree, p.1, p'.1, p.2, p'.2, hp, hp', hreported, hinspected, ?_, hreported',
    hinspected', howned⟩
  rintro ⟨g', hg', herror'⟩
  obtain rfl := Option.some.inj (hg.symm.trans hg')
  exact Bool.false_ne_true (herror.symm.trans herror')

end Finding

end GoAtlas
