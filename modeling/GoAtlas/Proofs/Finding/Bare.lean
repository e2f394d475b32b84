import GoAtlas.Proofs.Finding.Decisions
import GoAtlas.Proofs.Symbol.Bare

namespace GoAtlas

open Syntax

namespace Syntax.Tree

variable {C : Ground} {t u : Tree}

theorem withinFirst?_eq (sees : Kind → Bool) (ts : List Tree) :
    withinFirst? sees ts = (ts.find? fun c => sees c.kind).bind (within? sees) := by
  induction ts with
  | nil => rfl
  | cons t ts ih =>
    rw [withinFirst?, ih, List.find?_cons]
    cases sees t.kind <;> rfl

theorem within?_eq (sees : Kind → Bool) (t : Tree) : t.within? sees =
    if t.kind = .parenthesizedExpression then
      (t.children.find? fun c => sees c.kind).bind (within? sees)
    else some t := by
  cases t
  rw [within?, withinFirst?_eq]
  rfl

theorem within?_bare (t : Tree) :
    t.bare.within? Kind.isNamed = (t.within? Kind.isMeant).map bare := by
  induction t using Tree.by_children with
  | h t ih =>
    rw [within?_eq, within?_eq, kind_bare, children_bare, ← bareAll_eq,
      find?_named_bareAll]
    split
    · cases hc : t.children.find? fun c => c.kind.isMeant with
      | none => rfl
      | some c => exact ih c (List.mem_of_find?_eq_some hc)
    · rfl

theorem within?_walk {sees : Kind → Bool} (h : t.within? sees = some u) : u ∈ t.walk := by
  induction t using Tree.by_children with
  | h t ih =>
    rw [within?_eq] at h
    split at h
    · obtain ⟨c, hc, h⟩ := Option.bind_eq_some_iff.mp h
      have hc := List.mem_of_find?_eq_some hc
      exact child_mem_walk hc (ih c hc h)
    · rw [← Option.some.inj h]
      exact t.self_mem_walk

theorem find?_leading (h : t.Clear) (hw : t.isWrapper = true) :
    (t.children.find? fun c => c.kind.isMeant && c.kind != .labelName) = t.leading? := by
  cases hl : t.leading? with
  | none =>
    rw [leading?, List.find?_eq_none] at hl
    rw [List.find?_eq_none]
    intro c hc hmeant
    apply hl c hc
    simp only [Kind.isMeant, Bool.and_eq_true] at hmeant ⊢
    exact ⟨hmeant.1.1, hmeant.2⟩
  | some c =>
    have hcomment : c.kind ≠ .comment := of_decide_eq_false (h hw c hl)
    rw [leading?, List.find?_eq_some_iff_append] at hl
    obtain ⟨hc, before, after, hsplit, hbefore⟩ := hl
    simp only [Bool.and_eq_true, bne_iff_ne, Bool.not_eq_true', Bool.and_eq_false_iff] at hc hbefore
    rw [List.find?_eq_some_iff_append]
    refine ⟨by simp [Kind.isMeant, hc, hcomment], before, after, hsplit, fun d hd => ?_⟩
    rcases hbefore d hd with hd | hd
    · simp [Kind.isMeant, hd]
    · simp [hd]

theorem Clear.uncommented (h : t.Clear) : t.Uncommented :=
  fun hk => head_of_clear h (by rw [isWrapper, hk])

end Syntax.Tree

namespace Finding

variable {C : Ground} {source : ByteArray} {t u body target value : Tree}

/-- The introduction a target and its expression make, by the children that are seen. -/
def introduced? (sees : Kind → Bool) (source : ByteArray) (target value : Tree) :
    Option Introduction :=
  (value.within? sees).bind fun e => ((e.part? .left).bind (·.within? sees)).bind fun left =>
    if target.kind = .identifier ∧ target.text source ≠ "_" ∧ e.kind = .binaryExpression ∧
        (e.operator source = "==" ∨ e.operator source = "!=") ∧ left.kind = .identifier then
      some ⟨target.text source, left.text source, e.operator source,
        Tree.text? source (e.part? .right)⟩
    else none

/-- The introductions in a body, by the children that are seen. -/
def introductions (sees : Kind → Bool) (source : ByteArray) (body : Tree) : List Introduction :=
  (body.walk.filter (·.kind = .shortVarDeclaration)).flatMap fun t =>
    let targets := Tree.expressions? (t.part? .left)
    let values := Tree.expressions? (t.part? .right)
    if targets.length = values.length then
      (targets.zip values).filterMap fun p => introduced? sees source p.1 p.2
    else []

theorem introduced?_isNamed (source : ByteArray) (target value : Tree) :
    introduced? Kind.isNamed source target value = Introduction.of? source target value := by
  unfold introduced? Introduction.of?
  simp only [Tree.within?_isNamed]
  cases value.core? with
  | none => simp
  | some e =>
    cases hleft : (e.part? .left).bind Tree.core? with
    | none => simp [hleft]
    | some left =>
      simp only [Option.bind_some, Option.bind_eq_bind, hleft]
      grind

theorem introductions_isNamed (source : ByteArray) (body : Tree) :
    introductions Kind.isNamed source body = Introduction.inBody source body := by
  unfold introductions Introduction.inBody Introduction.ofStatement
  simp only [introduced?_isNamed]

theorem introduced?_bare (h : value.Laid C) :
    introduced? Kind.isNamed source target.bare value.bare =
      introduced? Kind.isMeant source target value := by
  rw [introduced?, introduced?, Tree.within?_bare]
  cases he : value.within? Kind.isMeant with
  | none => rfl
  | some e =>
    have hsilent := (Tree.walk_within value h e (Tree.within?_walk he)).2.2.silent
    rw [Option.map_some, Option.bind_some, Option.bind_some, Tree.part?_bare hsilent]
    cases e.part? .left with
    | none => rfl
    | some l =>
      rw [Option.map_some, Option.bind_some, Option.bind_some, Tree.within?_bare]
      cases l.within? Kind.isMeant with
      | none => rfl
      | some left =>
        rw [Option.map_some, Option.bind_some, Option.bind_some, Tree.kind_bare, Tree.kind_bare,
          Tree.kind_bare, Tree.text_bare, Tree.text_bare, Tree.operator_bare source hsilent,
          Tree.part?_bare hsilent, Tree.text?_bare]

theorem introductions_bare (h : body.Laid C) :
    introductions Kind.isNamed source body.bare = introductions Kind.isMeant source body := by
  rw [introductions, introductions, Tree.walk_bare rfl body h, List.flatMap_map]
  refine List.flatMap_congr fun t ht => ?_
  have hl := (Tree.walk_within body h t (List.mem_filter.mp ht).1).2.2
  dsimp only
  rw [Tree.part?_bare hl.silent, Tree.part?_bare hl.silent, Tree.expressions?_bare,
    Tree.expressions?_bare, List.length_map, List.length_map]
  split
  · rw [List.zip_map, List.filterMap_map]
    refine List.filterMap_congr fun p hp => ?_
    have hwalk := Tree.expressions?_walk (List.of_mem_zip (a := p.1) (b := p.2) hp).2
    exact introduced?_bare (Tree.walk_within t hl p.2 hwalk).2.2
  · rfl

theorem introductions_isMeant (source : ByteArray) (h : ∀ u ∈ body.walk, u.Clear) :
    introductions Kind.isMeant source body = introductions Kind.isNamed source body := by
  have hwithin : ∀ v ∈ body.walk, v.within? Kind.isMeant = v.within? Kind.isNamed := fun v hv =>
    Tree.within?_isMeant v fun u hu => (h u (Tree.walk_trans body hv hu)).uncommented
  have hvalue : ∀ target, ∀ value ∈ body.walk, introduced? Kind.isMeant source target value =
      introduced? Kind.isNamed source target value := by
    intro target value hv
    rw [introduced?, introduced?, hwithin value hv]
    cases he : value.within? Kind.isNamed with
    | none => rfl
    | some e =>
      rw [Option.bind_some, Option.bind_some]
      cases hl : e.part? .left with
      | none => rfl
      | some l =>
        have hwalk := Tree.walk_trans _ (Tree.within?_walk he) (Tree.part_walk hl)
        rw [Option.bind_some, Option.bind_some, hwithin l (Tree.walk_trans _ hv hwalk)]
  refine List.flatMap_congr fun t ht => ?_
  dsimp only
  split
  · refine List.filterMap_congr fun p hp => hvalue p.1 p.2 ?_
    have hwalk := Tree.expressions?_walk (List.of_mem_zip (a := p.1) (b := p.2) hp).2
    exact Tree.walk_trans body (List.mem_filter.mp ht).1 hwalk
  · rfl

/-- The names that are whole conditions, by the children that are seen, each with the start of the first
statement testing it. -/
def testedIn (sees : Kind → Bool) (source : ByteArray) (body : Tree) : Dict String Nat :=
  (body.walk.filter (·.kind = .ifStatement)).foldl
    (fun d t => ((tested? sees source t).map fun name => d.addNew name t.start).getD d) []

theorem testedIn_isNamed (source : ByteArray) (body : Tree) :
    testedIn Kind.isNamed source body = conditions source body := by
  rw [testedIn, conditions]
  refine List.foldl_ext _ _ _ fun d t ht => ?_
  rw [tested?_isNamed, if_pos (of_decide_eq_true (List.mem_filter.mp ht).2)]
  cases conditionName? source t <;> rfl

theorem tested?_bare (h : t.Laid C) :
    tested? Kind.isNamed source t.bare = tested? Kind.isMeant source t := by
  rw [tested?, tested?, Tree.kind_bare, Tree.part?_bare h.silent]
  cases t.part? .condition with
  | none => rfl
  | some e =>
    rw [Option.map_some, Option.bind_some, Option.bind_some, Tree.within?_bare]
    cases e.within? Kind.isMeant with
    | none => rfl
    | some v => simp only [Option.map_some, Option.filter_some, Tree.kind_bare, apply_ite (Option.map _),
        Tree.text_bare, Option.map_none]

theorem testedIn_bare (h : body.Laid C) :
    testedIn Kind.isNamed source body.bare = testedIn Kind.isMeant source body := by
  rw [testedIn, testedIn, Tree.walk_bare rfl body h, List.foldl_map]
  refine List.foldl_ext _ _ _ fun d t ht => ?_
  rw [tested?_bare (Tree.walk_within body h t (List.mem_filter.mp ht).1).2.2, Tree.start_bare]

theorem testedIn_isMeant (source : ByteArray) (h : ∀ u ∈ body.walk, u.Clear) :
    testedIn Kind.isMeant source body = testedIn Kind.isNamed source body := by
  refine List.foldl_ext _ _ _ fun d t ht => ?_
  have htested : tested? Kind.isMeant source t = tested? Kind.isNamed source t := by
    rw [tested?, tested?]
    cases he : t.part? .condition with
    | none => rfl
    | some e =>
      have hwalk := Tree.walk_trans body (List.mem_filter.mp ht).1 (Tree.part_walk he)
      rw [Option.bind_some, Option.bind_some, Tree.within?_isMeant e fun u hu =>
        (h u (Tree.walk_trans body hwalk hu)).uncommented]
  rw [htested]

/-- The children that are counted next, and how: behind a label the first that is seen. -/
def nextWithin (sees : Kind → Bool) (t : Tree) : Count → List (Count × Tree)
  | .statement depth =>
    if t.kind = .labeledStatement then
      (t.children.find? fun c => sees c.kind && c.kind != .labelName).toList.map (.statement depth, ·)
    else (Count.statement depth).next t
  | .contents depth => (Count.contents depth).next t
  | .literals depth => (Count.literals depth).next t

theorem nextWithin_isNamed (t : Tree) (count : Count) :
    nextWithin Kind.isNamed t count = count.next t := by
  cases count with
  | literals depth => rfl
  | contents depth => rfl
  | statement depth =>
    rw [nextWithin]
    split
    · next hk =>
      rw [Count.next, hk]
      rfl
    · rfl

theorem mem_children_of_mem_nextWithin {sees : Kind → Bool} {count : Count} {x : Count × Tree}
    (h : x ∈ nextWithin sees t count) : x.2 ∈ t.children := by
  cases count with
  | literals depth =>
    rw [nextWithin] at h
    exact mem_children_of_mem_next h
  | contents depth =>
    rw [nextWithin] at h
    exact mem_children_of_mem_next h
  | statement depth =>
    rw [nextWithin] at h
    split at h
    · obtain ⟨c, hc, rfl⟩ := List.mem_map.mp h
      exact List.mem_of_find?_eq_some (Option.mem_toList.mp hc)
    · exact mem_children_of_mem_next h

/-- What statements add to the measures, by the children that are seen behind labels. -/
def tallyWithin (sees : Kind → Bool) (source : ByteArray) (count : Count) (t : Tree) : Tally :=
  count.own source t
    + ((nextWithin sees t count).attach.map fun x => tallyWithin sees source x.1.1 x.1.2).sum
termination_by sizeOf t
decreasing_by exact Tree.sizeOf_lt_of_mem_children (mem_children_of_mem_nextWithin x.2)

theorem tallyWithin_eq (sees : Kind → Bool) (source : ByteArray) (count : Count) (t : Tree) :
    tallyWithin sees source count t = count.own source t
      + ((nextWithin sees t count).map fun x => tallyWithin sees source x.1 x.2).sum := by
  rw [tallyWithin, List.map_subtype (g := fun x => tallyWithin sees source x.1 x.2) fun _ _ => rfl,
    List.unattach_attach]

theorem tallyWithin_isNamed (source : ByteArray) (count : Count) (t : Tree) :
    tallyWithin Kind.isNamed source count t = tally source count t := by
  induction t using Tree.by_children generalizing count with
  | h t ih =>
    rw [tallyWithin_eq, tally_eq, nextWithin_isNamed]
    congr 2
    exact List.map_congr_left fun x hx => ih x.2 (mem_children_of_mem_next hx) x.1

theorem tallyWithin_isMeant (source : ByteArray) (count : Count) (h : ∀ u ∈ t.walk, u.Clear) :
    tallyWithin Kind.isMeant source count t = tallyWithin Kind.isNamed source count t := by
  induction t using Tree.by_children generalizing count with
  | h t ih =>
    have hnext : nextWithin Kind.isMeant t count = nextWithin Kind.isNamed t count := by
      cases count with
      | literals depth => rfl
      | contents depth => rfl
      | statement depth =>
        rw [nextWithin, nextWithin]
        split
        · next hk =>
          rw [Tree.find?_leading (h t t.self_mem_walk) (by rw [Tree.isWrapper, hk])]
          rfl
        · rfl
    rw [tallyWithin_eq, tallyWithin_eq, hnext]
    congr 2
    refine List.map_congr_left fun x hx => ih x.2 (mem_children_of_mem_nextWithin hx) x.1 ?_
    exact fun u hu => h u (Tree.child_mem_walk (mem_children_of_mem_nextWithin hx) hu)

theorem own_filler (source : ByteArray) (count : Count) (hk : t.kind.isFiller) :
    count.own source t = 0 := by
  have hkind : t.kind = .comment ∨ ∃ text, t.kind = .token text := by
    cases hkind : t.kind <;> rw [hkind] at hk
    case comment => exact .inl rfl
    case token text => exact .inr ⟨text, rfl⟩
    all_goals cases hk
  rcases hkind with hkind | ⟨text, hkind⟩ <;> cases count <;> simp only [Count.own, hkind] <;> rfl

theorem tallyWithin_filler (sees : Kind → Bool) (source : ByteArray) (count : Count) (h : t.Laid C)
    (hk : t.kind.isFiller) : tallyWithin sees source count t = 0 := by
  induction t using Tree.by_children generalizing count with
  | h t ih =>
    rw [tallyWithin_eq, own_filler source count hk, zero_add]
    refine List.sum_eq_zero fun y hy => ?_
    obtain ⟨x, hx, rfl⟩ := List.mem_map.mp hy
    have hc := mem_children_of_mem_nextWithin hx
    exact ih x.2 hc x.1 (h.row.mem hc).2.2.1 (Tree.walk_filler t h hk x.2 (Tree.child_walk hc))

theorem own_bare (source : ByteArray) (count : Count) (h : t.Laid C) :
    count.own source t.bare = count.own source t := by
  have helse : elsePaths t.bare = elsePaths t := by
    rw [elsePaths, elsePaths, Tree.part?_bare h.silent]
    cases t.part? .alternative with
    | none => rfl
    | some a =>
      rw [Option.map_some]
      dsimp only
      rw [Tree.kind_bare]
  have hclauses : t.bare.clauses.length = t.clauses.length := by
    rw [Tree.clauses_bare, List.length_map]
  have hswitch : switchPaths t.bare = switchPaths t := by
    have hwritten : (t.bare.clauses.filter (·.kind != .defaultCase)).length =
        (t.clauses.filter (·.kind != .defaultCase)).length := by
      rw [Tree.clauses_bare, List.filter_map, List.length_map]
      congr 2
      funext c
      rw [Function.comp_apply, Tree.kind_bare]
    rw [switchPaths, switchPaths, hclauses, hwritten]
  have hshort : shortVariables source t.bare = shortVariables source t := by
    rw [shortVariables, shortVariables, Tree.part?_bare h.silent, Tree.expressions?_bare,
      List.filter_map, List.length_map]
    congr 2
    funext e
    rw [Function.comp_apply, Tree.kind_bare, Tree.text_bare]
  have hdeclared : declaredVariables t.bare = declaredVariables t := by
    rw [declaredVariables, declaredVariables, Tree.specs_bare (by decide), List.flatMap_map,
      List.length_flatMap, List.length_flatMap]
    congr 1
    refine List.map_congr_left fun spec hspec => ?_
    have hwalk := Naming.spec_mem_walk hspec spec.self_mem_walk
    rw [Tree.parts_bare (Tree.walk_within t h spec hwalk).2.2.silent, List.length_map]
  cases count with
  | literals depth => rw [Count.own, Count.own, Tree.kind_bare]
  | contents depth => rfl
  | statement depth =>
    rw [Count.own, Count.own, Tree.kind_bare, helse, hclauses, hswitch, hshort, hdeclared]

def uncommented (l : List (Count × Tree)) : List (Count × Tree) :=
  (l.filter fun x => !x.2.isComment).map fun x => (x.1, x.2.bare)

theorem uncommented_append (l l' : List (Count × Tree)) :
    uncommented (l ++ l') = uncommented l ++ uncommented l' := by
  rw [uncommented, List.filter_append, List.map_append]
  rfl

theorem select_bareAll {pick : Tree → Option Count} (hpick : ∀ t : Tree, pick t.bare = pick t)
    (ts : List Tree) : Count.select pick (Tree.bareAll ts) = uncommented (Count.select pick ts) := by
  induction ts with
  | nil => rfl
  | cons t ts ih =>
    have hcons : Count.select pick (t :: ts) = ((pick t).map (·, t)).toList ++ Count.select pick ts := by
      rw [Count.select, List.filterMap_cons]
      cases pick t <;> rfl
    rw [hcons, uncommented_append, ← ih, Tree.bareAll]
    cases hc : t.isComment with
    | true => cases pick t <;> simp [uncommented, hc]
    | false =>
      rw [if_neg Bool.false_ne_true, Count.select, List.filterMap_cons, hpick]
      cases pick t <;> simp [uncommented, hc, Count.select]

theorem Count.select_children_bare {pick : Tree → Option Count} (hpick : ∀ t : Tree, pick t.bare = pick t)
    (t : Tree) : select pick t.bare.children = uncommented (select pick t.children) := by
  rw [Tree.children_bare, ← Tree.bareAll_eq, select_bareAll hpick]

theorem Count.ofLiterals_bare (depth : Nat) (t : Tree) : ofLiterals depth t.bare = ofLiterals depth t := by
  rw [ofLiterals, ofLiterals, Tree.kind_bare]

theorem Count.ofStatements_bare (depth : Nat) (t : Tree) :
    ofStatements depth t.bare = ofStatements depth t := by
  rw [ofStatements, ofStatements, Tree.kind_bare, Tree.isClauseHead, Tree.isClauseHead,
    Tree.field_bare]

theorem Count.inPart_bare (f : Field) (count : Count) (t : Tree) :
    inPart f count t.bare = inPart f count t := by
  rw [inPart, inPart, Tree.field_bare]

theorem Count.ofAlternative_bare (depth : Nat) (t : Tree) :
    ofAlternative depth t.bare = ofAlternative depth t := by
  rw [ofAlternative, ofAlternative, Tree.field_bare, Tree.kind_bare]

theorem Count.ofClauses_bare (depth : Nat) (t : Tree) : ofClauses depth t.bare = ofClauses depth t := by
  rw [ofClauses, ofClauses, Tree.isClause_bare]

theorem Count.labeled?_bare (t : Tree) : labeled? t.bare.children =
    (t.children.find? fun c => c.kind.isMeant && c.kind != .labelName).map Tree.bare := by
  rw [labeled?, Tree.children_bare, ← Tree.bareAll_eq,
    Tree.find?_bareAll fun t => by rw [Tree.kind_bare]]
  congr 2
  funext c
  rw [Kind.isMeant, Bool.and_right_comm]
  rfl

theorem next_bare (t : Tree) (count : Count) :
    count.next t.bare = uncommented (nextWithin Kind.isMeant t count) := by
  cases count with
  | literals depth =>
    rw [nextWithin, Count.next, Count.next, Tree.kind_bare,
      Count.select_children_bare (Count.ofLiterals_bare depth)]
    split <;> rfl
  | contents depth => exact Count.select_children_bare (Count.ofStatements_bare depth) t
  | statement depth =>
    rw [nextWithin]
    split
    · next hk =>
      rw [Count.next, Tree.kind_bare, hk]
      dsimp only
      rw [Count.labeled?_bare]
      cases hc : t.children.find? fun c => c.kind.isMeant && c.kind != .labelName with
      | none => rfl
      | some c =>
        have hmeant := List.find?_some hc
        simp only [Kind.isMeant, Bool.and_eq_true, bne_iff_ne] at hmeant
        simp [uncommented, Tree.isComment, hmeant.1.2]
    · rw [Count.next, Count.next, Tree.kind_bare]
      split
      · rw [uncommented_append, uncommented_append, uncommented_append,
          Count.select_children_bare (Count.inPart_bare _ _),
          Count.select_children_bare (Count.inPart_bare _ _),
          Count.select_children_bare (Count.inPart_bare _ _),
          Count.select_children_bare (Count.ofAlternative_bare depth)]
      · exact Count.select_children_bare (Count.inPart_bare _ _) t
      · exact Count.select_children_bare (Count.ofClauses_bare _) t
      · exact Count.select_children_bare (Count.ofClauses_bare _) t
      · exact Count.select_children_bare (Count.ofClauses_bare _) t
      · exact Count.select_children_bare (Count.ofStatements_bare depth) t
      · contradiction
      · rfl
      · exact Count.select_children_bare (Count.ofLiterals_bare depth) t

theorem sum_uncommented {l : List (Count × Tree)} {g g' : Count × Tree → Tally}
    (hcomment : ∀ x ∈ l, x.2.isComment = true → g x = 0)
    (hother : ∀ x ∈ l, g' (x.1, x.2.bare) = g x) :
    ((uncommented l).map g').sum = (l.map g).sum := by
  induction l with
  | nil => rfl
  | cons x l ih =>
    have ih := ih (fun y hy => hcomment y (List.mem_cons_of_mem x hy))
      fun y hy => hother y (List.mem_cons_of_mem x hy)
    rw [show x :: l = [x] ++ l from rfl, uncommented_append, List.map_append, List.sum_append, ih]
    congr 1
    cases hc : x.2.isComment with
    | true => simp [uncommented, hc, hcomment x List.mem_cons_self hc]
    | false => simp [uncommented, hc, hother x List.mem_cons_self]

theorem tally_bare (source : ByteArray) (count : Count) (h : t.Laid C) :
    tally source count t.bare = tallyWithin Kind.isMeant source count t := by
  induction t using Tree.by_children generalizing count with
  | h t ih =>
    rw [tally_eq, own_bare source count h, next_bare, tallyWithin_eq]
    congr 1
    refine sum_uncommented (fun x hx hc => ?_) fun x hx => ?_
    · have hl := (h.row.mem (mem_children_of_mem_nextWithin hx)).2.2.1
      exact tallyWithin_filler _ source x.1 hl (by rw [of_decide_eq_true hc]; rfl)
    · have hc := mem_children_of_mem_nextWithin hx
      exact ih x.2 hc x.1 (h.row.mem hc).2.2.1

/-- The measures of a function, by the children that are seen behind labels. -/
def Metrics.within? (sees : Kind → Bool) (source : ByteArray) (t : Tree) : Option Metrics :=
  (t.part? .body).map fun body =>
    let tally := tallyWithin sees source (.contents 0) body
    let parameters := ((t.part? .parameters).map Tree.named).getD []
    { paths := 1 + tally.paths
      effort := tally.effort
      lines := lineCount body
      parameters := (parameters.flatMap (·.parts .name)).length
      locals := tally.locals
      blocks := tally.blocks
      depth := tally.depth }

theorem Metrics.within?_isNamed (source : ByteArray) (t : Tree) :
    within? Kind.isNamed source t = ofFunction? source t := by
  rw [within?, ofFunction?]
  simp only [tallyWithin_isNamed]

theorem Metrics.within?_isMeant (source : ByteArray) (h : ∀ u ∈ t.walk, u.Clear) :
    within? Kind.isMeant source t = within? Kind.isNamed source t := by
  rw [within?, within?]
  cases hb : t.part? .body with
  | none => rfl
  | some body =>
    have hclear : ∀ u ∈ body.walk, u.Clear := fun u hu => h u (Tree.walk_trans t (Tree.part_walk hb) hu)
    simp only [Option.map_some, tallyWithin_isMeant source _ hclear]

theorem Metrics.ofFunction?_bare (source : ByteArray) (h : t.Laid C) :
    ofFunction? source t.bare = within? Kind.isMeant source t := by
  have hparameters : ∀ o : Option Tree, (∀ l ∈ o, l.Laid C) →
      ((((o.map Tree.bare).map Tree.named).getD []).flatMap (·.parts .name)).length =
        (((o.map Tree.named).getD []).flatMap (·.parts .name)).length := by
    intro o ho
    cases o with
    | none => rfl
    | some l =>
      have hchild : ∀ c ∈ l.named, c.Laid C := fun c hc =>
        ((ho l rfl).row.mem (List.mem_filter.mp hc).1).2.2.1
      simp only [Option.map_some, Option.getD_some]
      rw [Tree.named_bare, List.flatMap_map, ← Tree.flatMap_dropComments fun c hc hcomment =>
        (hchild c hc).parts_comment hcomment, List.length_flatMap, List.length_flatMap]
      congr 1
      refine List.map_congr_left fun c hc => ?_
      rw [Tree.parts_bare (hchild c (List.mem_filter.mp hc).1).silent, List.length_map]
  rw [ofFunction?, within?, Tree.part?_bare h.silent, Tree.part?_bare h.silent]
  cases hb : t.part? .body with
  | none => rfl
  | some body =>
    dsimp only [Option.map_some]
    rw [tally_bare source _ (h.part? hb).1, hparameters _ fun l hl => (h.part? hl).1, lineCount,
      Tree.span_bare]
    rfl

variable {f : SourceFile}

/-- What is read off a function without comments is what is read past them. -/
structure ReadPast (f : SourceFile) (t : Tree) : Prop where
  symbol : ∀ package, Symbol.ofFunction? f.bare package t.bare =
    (Symbol.ofFunction? f package t).map fun s =>
      { s with receiver := Symbol.receiverWithin? Kind.isMeant f.content t }
  metrics : Metrics.ofFunction? f.content t.bare = Metrics.within? Kind.isMeant f.content t
  introductions : ∀ body, t.part? .body = some body →
    Introduction.inBody f.content body.bare = introductions Kind.isMeant f.content body
  conditions : ∀ body, t.part? .body = some body →
    conditions f.content body.bare = testedIn Kind.isMeant f.content body

/-- What is read off a function is the same without comments. -/
structure ReadAlike (f : SourceFile) (t : Tree) : Prop where
  symbol : ∀ package, Symbol.ofFunction? f.bare package t.bare = Symbol.ofFunction? f package t
  metrics : Metrics.ofFunction? f.content t.bare = Metrics.ofFunction? f.content t
  introductions : ∀ body, t.part? .body = some body →
    Introduction.inBody f.content body.bare = Introduction.inBody f.content body
  conditions : ∀ body, t.part? .body = some body →
    conditions f.content body.bare = conditions f.content body

theorem readPast (h : t.Laid C) : ReadPast f t where
  symbol package := Symbol.ofFunction?_bare h
  metrics := Metrics.ofFunction?_bare f.content h
  introductions body hb := by rw [← introductions_isNamed, introductions_bare (h.part? hb).1]
  conditions body hb := by rw [← testedIn_isNamed, testedIn_bare (h.part? hb).1]

theorem readAlike (h : t.Laid C) (hclear : ∀ u ∈ t.walk, u.Clear) : ReadAlike f t := by
  have hpast := readPast (f := f) h
  have hbody : ∀ body, t.part? .body = some body → ∀ u ∈ body.walk, u.Clear := fun body hb u hu =>
    hclear u (Tree.walk_trans t (Tree.part_walk hb) hu)
  constructor
  case symbol =>
    exact fun package =>
      Symbol.ofFunction?_bare_of_same h (Symbol.receiverWithin?_isMeant f.content hclear)
  case metrics =>
    rw [hpast.metrics, Metrics.within?_isMeant f.content hclear, Metrics.within?_isNamed]
  case introductions =>
    intro body hb
    rw [hpast.introductions body hb, introductions_isMeant f.content (hbody body hb),
      introductions_isNamed]
  case conditions =>
    intro body hb
    rw [hpast.conditions body hb, testedIn_isMeant f.content (hbody body hb), testedIn_isNamed]

/-- Comments are seen in three places only: a comment is taken for the type under a pointer or in
parentheses, for the expression in parentheses, and for the statement behind a label. Without comments a
file has the same functions, types, variables and constants, its methods with their receivers read past
comments, and each function the introductions, conditions and measures that are read past them. These are
the readings with comments wherever none is the first of the children meant in those places. -/
theorem readings_bare (hf : parse? f.content = some f.tree) :
    f.bare.functions = f.functions.map Tree.bare ∧
    (∀ package table, (SymbolTable.addFile package table f.bare).apartFromMethods =
      (SymbolTable.addFile package table f).apartFromMethods) ∧
    ((∀ t ∈ f.functions, Symbol.receiverWithin? Kind.isMeant f.content t =
        Symbol.receiverWithin? Kind.isNamed f.content t) →
      ∀ package table, SymbolTable.addFile package table f.bare = SymbolTable.addFile package table f) ∧
    ∀ t ∈ f.functions, ReadPast f t ∧ ((∀ u ∈ t.walk, u.Clear) → ReadAlike f t) := by
  refine ⟨Tree.functions_bare f.tree, fun package => SymbolTable.apart_addFile_bare hf,
    fun h package table => SymbolTable.addFile_bare_of_same hf table h, fun t ht => ?_⟩
  have hl := SymbolTable.laid_of_named hf (List.mem_filter.mp ht).1
  exact ⟨readPast hl, readAlike hl⟩

def scribbled : ByteArray :=
  "package p\nfunc (r */**/T) f() \x7b\nL: // why\nif (/**/ c) \x7b\n\x7d\n\x7d\n".toUTF8

def scribbledFile (tree : Tree) : SourceFile :=
  ⟨"p.go", scribbled, tree, Source.Registry.slotFor {} "p.go" scribbled⟩

/-- The receiver is taken to be the comment, the condition has no name and is not counted. Past the
comments all three are found. -/
theorem readings_bare_scribbled : ∃ tree, parse? scribbled = some tree ∧
    let f := scribbledFile tree
    ∃ t body s m, f.functions = [t] ∧ t.part? .body = some body ∧
      Symbol.ofFunction? f "p" t = some s ∧ s.receiver = some "/**/" ∧
      Symbol.ofFunction? f.bare "p" t.bare = some { s with receiver := some "T" } ∧
      (Metrics.ofFunction? f.content t).map (·.paths) = some 1 ∧
      Metrics.within? Kind.isMeant f.content t = some m ∧ m.paths = 2 ∧
      (conditions f.content body).map (·.1) = [] ∧
      (testedIn Kind.isMeant f.content body).map (·.1) = ["c"] := by
  obtain ⟨tree, htree, hone, hall⟩ :
      ∃ tree ∈ parse? scribbled, (scribbledFile tree).functions.length = 1 ∧
        ∀ t ∈ (scribbledFile tree).functions,
          (∃ s ∈ Symbol.ofFunction? (scribbledFile tree) "p" t, s.receiver = some "/**/") ∧
          Symbol.receiverWithin? Kind.isMeant scribbled t = some "T" ∧
          (∃ body ∈ t.part? .body, (conditions scribbled body).map (·.1) = [] ∧
            (conditions scribbled body.bare).map (·.1) = ["c"]) ∧
          (Metrics.ofFunction? scribbled t).map (·.paths) = some 1 ∧
          ∃ m ∈ Metrics.ofFunction? scribbled t.bare, m.paths = 2 := by
    decide +kernel
  obtain ⟨t, hfunctions⟩ := List.length_eq_one_iff.mp hone
  have ht : t ∈ (scribbledFile tree).functions := by simp [hfunctions]
  obtain ⟨⟨s, hs, hreceiver⟩, hmeant, ⟨body, hbody, hconditions, htested⟩, hpaths, m, hm, hcounted⟩ :=
    hall t ht
  have hs : Symbol.ofFunction? (scribbledFile tree) "p" t = some s := hs
  obtain ⟨-, -, -, hread⟩ := readings_bare (f := scribbledFile tree) htree
  have hpast := (hread t ht).1
  refine ⟨tree, htree, t, body, s, m, hfunctions, hbody, hs, hreceiver, ?_, ?_, ?_, hcounted,
    hconditions, ?_⟩
  · rw [hpast.symbol "p", hs]
    exact congrArg (fun r => some { s with receiver := r }) hmeant
  · exact hpaths
  · rw [← hpast.metrics]
    exact hm
  · rw [← hpast.conditions body hbody]
    exact htested

end Finding

end GoAtlas
