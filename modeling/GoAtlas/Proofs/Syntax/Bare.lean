import GoAtlas.Proofs.Syntax.Marks
import GoAtlas.Syntax.Declaration
import GoAtlas.Syntax.Statement

namespace GoAtlas.Syntax

variable {C : Ground} {k K : Kind} {a b : Nat} {t u c : Tree} {ts : List Tree} {f : Field}

theorem Kind.not_admits_comment : k.admits (some f) .comment = false := by
  have hparts : (k.parts.any fun q => q.1.isSome && q.2 .comment) = false := by cases k <;> rfl
  rw [Kind.admits, Bool.or_eq_false_iff, List.any_eq_false]
  refine ⟨by simp, fun q hq h => ?_⟩
  simp only [Bool.and_eq_true, decide_eq_true_eq] at h
  have := List.any_eq_false.mp hparts q hq
  simp [h.1, h.2] at this

namespace Tree

mutual
/-- A tree without the comments in it. -/
def bare : Tree → Tree
  | .node k f s cs => .node k f s (bareAll cs)

def bareAll : List Tree → List Tree
  | [] => []
  | t :: ts => if t.isComment then bareAll ts else t.bare :: bareAll ts
end

@[simp] theorem kind_bare (t : Tree) : t.bare.kind = t.kind := by
  cases t
  rw [bare, kind, kind]

@[simp] theorem field_bare (t : Tree) : t.bare.field = t.field := by
  cases t
  rw [bare, field, field]

@[simp] theorem span_bare (t : Tree) : t.bare.span = t.span := by
  cases t
  rw [bare, span, span]

@[simp] theorem start_bare (t : Tree) : t.bare.start = t.start := by
  rw [start, start, span_bare]

@[simp] theorem stop_bare (t : Tree) : t.bare.stop = t.stop := by
  rw [stop, stop, span_bare]

@[simp] theorem text_bare (source : ByteArray) (t : Tree) : t.bare.text source = t.text source := by
  rw [text, text, start_bare, stop_bare]

@[simp] theorem isComment_bare (t : Tree) : t.bare.isComment = t.isComment := by
  rw [isComment, isComment, kind_bare]

theorem text?_bare (source : ByteArray) (o : Option Tree) :
    text? source (o.map bare) = text? source o := by
  cases o with
  | none => rfl
  | some t => exact text_bare source t

theorem bareAll_eq (ts : List Tree) : bareAll ts = (dropComments ts).map bare := by
  induction ts with
  | nil => rfl
  | cons t ts ih =>
    rw [bareAll, ih, dropComments, dropComments, List.filter_cons]
    cases t.isComment <;> rfl

theorem flatMap_dropComments {α : Type} {g : Tree → List α}
    (h : ∀ c ∈ ts, c.isComment = true → g c = []) :
    (dropComments ts).flatMap g = ts.flatMap g := by
  induction ts with
  | nil => rfl
  | cons c ts ih =>
    rw [dropComments, List.filter_cons, List.flatMap_cons,
      ← ih fun d hd => h d (List.mem_cons_of_mem c hd)]
    cases hc : c.isComment with
    | false => rfl
    | true =>
      rw [h c List.mem_cons_self hc]
      rfl

theorem children_bare (t : Tree) : t.bare.children = (dropComments t.children).map bare := by
  cases t
  rw [bare, children, children, bareAll_eq]

mutual
theorem isComment_of_mem_walk_bare :
    (t : Tree) → ∀ u ∈ t.bare.walk, u = t.bare ∨ u.isComment = false
  | .node k f s cs, u, hu => by
    rw [bare, walk, List.mem_cons] at hu
    rw [bare]
    exact hu.imp_right (isComment_of_mem_walkAll_bareAll cs u)

theorem isComment_of_mem_walkAll_bareAll :
    (ts : List Tree) → ∀ u ∈ walkAll (bareAll ts), u.isComment = false
  | [], u, hu => absurd hu List.not_mem_nil
  | t :: ts, u, hu => by
    rw [bareAll] at hu
    cases hc : t.isComment with
    | true =>
      rw [if_pos hc] at hu
      exact isComment_of_mem_walkAll_bareAll ts u hu
    | false =>
      rw [if_neg (by rw [hc]; exact Bool.false_ne_true), walkAll, List.mem_append] at hu
      rcases hu with hu | hu
      · rcases isComment_of_mem_walk_bare t u hu with rfl | hu
        · rw [isComment_bare, hc]
        · exact hu
      · exact isComment_of_mem_walkAll_bareAll ts u hu
end

section

variable {P : Tree → Bool} (hP : ∀ t : Tree, P t.bare = P t)
include hP

theorem filter_bareAll : (bareAll ts).filter P = (dropComments (ts.filter P)).map bare := by
  have hcomp : P ∘ bare = P := funext hP
  rw [bareAll_eq, List.filter_map, hcomp, dropComments, dropComments, List.filter_comm]

theorem filter_children_bare (hc : ∀ c ∈ t.children, c.isComment = true → P c = false) :
    t.bare.children.filter P = (t.children.filter P).map bare := by
  rw [children_bare, ← bareAll_eq, filter_bareAll hP, dropComments, List.filter_eq_self.mpr]
  intro c hmem
  obtain ⟨hmem, hpick⟩ := List.mem_filter.mp hmem
  cases hcomment : c.isComment with
  | true => simp [hc c hmem hcomment] at hpick
  | false => rfl

theorem find?_children_bare (hc : ∀ c ∈ t.children, c.isComment = true → P c = false) :
    t.bare.children.find? P = (t.children.find? P).map bare := by
  rw [← List.head?_filter, filter_children_bare hP hc, List.head?_map, List.head?_filter]

end

theorem named_bare (t : Tree) : t.bare.named = (dropComments t.named).map bare := by
  rw [named, children_bare, ← bareAll_eq, filter_bareAll (fun t => by rw [kind_bare]), named]

theorem named_filter_bare {P : Tree → Bool} (hP : ∀ t : Tree, P t.bare = P t)
    (hc : ∀ c : Tree, c.isComment = true → P c = false) :
    t.bare.named.filter P = (t.named.filter P).map bare := by
  rw [named, named, List.filter_filter, List.filter_filter]
  exact filter_children_bare (fun t => by rw [hP, kind_bare]) fun c _ h => by rw [hc c h, Bool.false_and]

theorem named_find?_bare {P : Tree → Bool} (hP : ∀ t : Tree, P t.bare = P t)
    (hc : ∀ c : Tree, c.isComment = true → P c = false) :
    t.bare.named.find? P = (t.named.find? P).map bare := by
  rw [← List.head?_filter, named_filter_bare hP hc, List.head?_map, List.head?_filter]

theorem expressions_bare (t : Tree) : t.bare.expressions = t.expressions.map bare := by
  rw [expressions, expressions, kind_bare]
  split
  · rw [named_bare, dropComments, List.filter_eq_self.mpr]
    intro c hc
    obtain ⟨d, hd, rfl⟩ := List.mem_map.mp hc
    rw [isComment_bare]
    exact (List.mem_filter.mp hd).2
  · rfl

theorem expressions?_bare (o : Option Tree) :
    expressions? (o.map bare) = (expressions? o).map bare := by
  cases o with
  | none => rfl
  | some t => exact expressions_bare t

theorem functions_bare (root : Tree) : root.bare.functions = root.functions.map bare :=
  named_filter_bare (fun t => by rw [kind_bare]) fun c hc => by rw [of_decide_eq_true hc]; rfl

theorem isTypeSpec_bare (t : Tree) : t.bare.isTypeSpec = t.isTypeSpec := by
  rw [isTypeSpec, isTypeSpec, kind_bare]

theorem typeSpecs_bare (t : Tree) : t.bare.typeSpecs = t.typeSpecs.map bare :=
  named_filter_bare isTypeSpec_bare fun c hc => by rw [isTypeSpec, of_decide_eq_true hc]; rfl

theorem isClause_bare (t : Tree) : t.bare.isClause = t.isClause := by
  rw [isClause, isClause, kind_bare]

theorem clauses_bare (t : Tree) : t.bare.clauses = t.clauses.map bare :=
  named_filter_bare isClause_bare fun c hc => by rw [isClause, of_decide_eq_true hc]

theorem specs_bare (hk : k ≠ .comment) (t : Tree) : t.bare.specs k = (t.specs k).map bare := by
  have hstep : ∀ c : Tree, (if c.kind = k then [c.bare]
      else if c.kind = .varSpecList || c.kind = .importSpecList then
        c.bare.named.filter (·.kind = k) else []) =
      (if c.kind = k then [c] else if c.kind = .varSpecList || c.kind = .importSpecList then
        c.named.filter (·.kind = k) else []).map bare := by
    intro c
    split
    · rfl
    · split
      · refine named_filter_bare (fun t => by rw [kind_bare]) fun d hd => ?_
        rw [of_decide_eq_true hd, decide_eq_false hk.symm]
      · rfl
  rw [specs, specs, named_bare, List.flatMap_map, List.map_flatMap]
  simp only [kind_bare, hstep]
  refine flatMap_dropComments fun c _ hc => ?_
  rw [show c.kind = .comment from of_decide_eq_true hc, if_neg hk.symm]
  rfl

def Silent (t : Tree) : Prop :=
  ∀ c ∈ t.children, c.isComment = true → c.field = none

end Tree

theorem Row.silent (h : Row C k a b t.children) : t.Silent := by
  intro c hc hcomment
  have hadmits := (h.mem hc).2.2.2
  rw [of_decide_eq_true hcomment] at hadmits
  cases hf : c.field with
  | none => rfl
  | some f =>
    rw [hf, Kind.not_admits_comment] at hadmits
    cases hadmits

theorem Tree.Laid.silent (h : t.Laid C) : t.Silent :=
  h.row.silent

namespace Tree

theorem part?_bare (h : t.Silent) : t.bare.part? f = (t.part? f).map bare :=
  find?_children_bare (fun t => by rw [field_bare]) fun c hc hcomment => by simp [h c hc hcomment]

theorem parts_bare (h : t.Silent) : t.bare.parts f = (t.parts f).map bare :=
  filter_children_bare (fun t => by rw [field_bare]) fun c hc hcomment => by simp [h c hc hcomment]

theorem Laid.parts_comment (h : t.Laid C) (hc : t.isComment = true) : t.parts f = [] := by
  rw [parts, List.filter_eq_nil_iff]
  intro c hmem hf
  have hadmits := (h.row.mem hmem).2.2.2
  rw [of_decide_eq_true hf, show t.kind = .comment from of_decide_eq_true hc] at hadmits
  exact Kind.not_admits rfl hadmits

theorem operator_bare (source : ByteArray) (h : t.Silent) :
    t.bare.operator source = t.operator source := by
  rw [operator, operator, part?_bare h, text?_bare]

mutual
/-- The nodes of a kind other than signs and comments are those that are left. -/
theorem walk_bare (hK : K.isFiller = false) : (t : Tree) → t.Laid C →
    t.bare.walk.filter (·.kind = K) = (t.walk.filter (·.kind = K)).map bare
  | .node k f s cs, h => by
    have hcs := walkAll_bare hK cs k _ _ h.2.2.2.2
    have hkind : ∀ cs : List Tree, (node k f s cs).kind = k := fun _ => rfl
    rw [bare, walk, walk, List.filter_cons, List.filter_cons, hcs, hkind, hkind]
    split
    · rw [List.map_cons, bare]
    · rfl

theorem walkAll_bare (hK : K.isFiller = false) : (ts : List Tree) → ∀ k a b, Row C k a b ts →
    (walkAll (bareAll ts)).filter (·.kind = K) = ((walkAll ts).filter (·.kind = K)).map bare
  | [], _, _, _, _ => rfl
  | t :: ts, k, a, b, h => by
    have hts := walkAll_bare hK ts k _ _ h.2.2.2
    rw [bareAll, walkAll, List.filter_append, List.map_append, ← hts]
    cases hc : t.isComment with
    | false =>
      rw [if_neg Bool.false_ne_true, walkAll, List.filter_append, walk_bare hK t h.2.1]
    | true =>
      have hfiller : t.kind.isFiller = true := by rw [of_decide_eq_true hc]; rfl
      have hnone : t.walk.filter (·.kind = K) = [] := by
        rw [List.filter_eq_nil_iff]
        intro u hu he
        have := walk_filler t h.2.1 hfiller u hu
        rw [of_decide_eq_true he, hK] at this
        cases this
      rw [if_pos rfl, hnone, List.map_nil, List.nil_append]
end

end Tree

end GoAtlas.Syntax
