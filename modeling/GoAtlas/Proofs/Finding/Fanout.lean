import GoAtlas.Proofs.Finding.Anchors

namespace GoAtlas

open Syntax

namespace Syntax

/-- Kinds of nodes other than signs and comments. -/
def Kind.isMeant (k : Kind) : Bool :=
  k.isNamed && k != .comment

namespace Tree

mutual
/-- What stands inside any parentheses: at each step the first child of a kind that is seen. -/
def within? (sees : Kind → Bool) : Tree → Option Tree
  | .node k f s cs =>
    if k = .parenthesizedExpression then withinFirst? sees cs else some (.node k f s cs)

def withinFirst? (sees : Kind → Bool) : List Tree → Option Tree
  | [] => none
  | t :: ts => if sees t.kind then within? sees t else withinFirst? sees ts
end

mutual
theorem within?_isNamed : (t : Tree) → t.within? Kind.isNamed = t.core?
  | .node k f s cs => by rw [within?, core?, withinFirst?_isNamed cs]

theorem withinFirst?_isNamed :
    (ts : List Tree) → withinFirst? Kind.isNamed ts = coreOfFirst? ts
  | [] => rfl
  | t :: ts => by rw [withinFirst?, coreOfFirst?, within?_isNamed t, withinFirst?_isNamed ts]
end

/-- A node in parentheses has no comment in front of what it means. -/
def Uncommented (t : Tree) : Prop :=
  t.kind = .parenthesizedExpression → (t.named.head?.map (·.kind)) ≠ some .comment

mutual
theorem within?_isMeant : (t : Tree) → (∀ u ∈ t.walk, u.Uncommented) →
    t.within? Kind.isMeant = t.within? Kind.isNamed
  | .node k f s cs, h => by
    rw [within?, within?]
    split
    · next hk =>
      have hfirst := h (.node k f s cs) (self_mem_walk _) hk
      exact withinFirst?_isMeant cs hfirst fun u hu => h u (List.mem_cons_of_mem _ hu)
    · rfl

theorem withinFirst?_isMeant : (ts : List Tree) →
    ((ts.filter (·.kind.isNamed)).head?.map (·.kind)) ≠ some .comment →
    (∀ u ∈ walkAll ts, u.Uncommented) →
    withinFirst? Kind.isMeant ts = withinFirst? Kind.isNamed ts
  | [], _, _ => rfl
  | t :: ts, hfirst, h => by
    rw [withinFirst?, withinFirst?]
    have ht := within?_isMeant t fun u hu => h u (List.mem_append_left _ hu)
    cases hk : t.kind.isNamed with
    | false =>
      have hmeant : t.kind.isMeant = false := by simp [Kind.isMeant, hk]
      rw [List.filter_cons, if_neg (by simp [hk])] at hfirst
      rw [hmeant]
      exact withinFirst?_isMeant ts hfirst fun u hu => h u (List.mem_append_right _ hu)
    | true =>
      rw [List.filter_cons, if_pos hk] at hfirst
      have hmeant : t.kind.isMeant = true := by simpa [Kind.isMeant, hk] using hfirst
      rw [hmeant]
      exact ht
end

end Tree

end Syntax

namespace Finding

variable {C : Ground} {source : ByteArray} {f : SourceFile} {t u body : Tree}

/-- The name a target is given by comparing a variable with a value, and that of the variable. -/
def compared? (sees : Kind → Bool) (source : ByteArray) (target value : Tree) :
    Option (String × String) :=
  (value.within? sees).bind fun e => ((e.part? .left).bind (·.within? sees)).bind fun left =>
    if target.kind = .identifier ∧ target.text source ≠ "_" ∧ e.kind = .binaryExpression ∧
        (e.operator source = "==" ∨ e.operator source = "!=") ∧ left.kind = .identifier then
      some (target.text source, left.text source)
    else none

/-- The names introduced by comparisons in short declarations, in the order of the walk, each with the
variable that is compared. -/
def comparisons (sees : Kind → Bool) (source : ByteArray) (body : Tree) : List (String × String) :=
  (body.walk.filter (·.kind = .shortVarDeclaration)).flatMap fun t =>
    let targets := Tree.expressions? (t.part? .left)
    let values := Tree.expressions? (t.part? .right)
    if targets.length = values.length then
      (targets.zip values).filterMap fun (target, value) => compared? sees source target value
    else []

/-- The name that is the whole condition of a statement. -/
def tested? (sees : Kind → Bool) (source : ByteArray) (t : Tree) : Option String :=
  if t.kind = .ifStatement then
    (((t.part? .condition).bind (·.within? sees)).filter (·.kind = .identifier)).map (·.text source)
  else none

/-- The variables that are compared, in the order in which they first are. -/
def comparedIn (sees : Kind → Bool) (source : ByteArray) (body : Tree) : List String :=
  ((comparisons sees source body).map (·.2)).eraseDups

/-- The names introduced by comparing a variable, in the order in which they first are. -/
def namesOf (sees : Kind → Bool) (source : ByteArray) (body : Tree) (subject : String) :
    List String :=
  (((comparisons sees source body).filter (·.2 == subject)).map (·.1)).eraseDups

def testedNames (sees : Kind → Bool) (source : ByteArray) (body : Tree) (subject : String) :
    List String :=
  (namesOf sees source body subject).filter fun name =>
    body.walk.any fun t => tested? sees source t == some name

/-- The variables of which enough names are conditions; two are the least that are enough. -/
def fannedOut (sees : Kind → Bool) (least : Int) (source : ByteArray) (body : Tree) : List String :=
  (comparedIn sees source body).filter fun subject =>
    max least 2 ≤ (testedNames sees source body subject).length

/-- A statement tests a name introduced by comparing a variable. -/
def Tests (sees : Kind → Bool) (source : ByteArray) (body : Tree) (subject : String) (t : Tree) :
    Prop :=
  ∃ name ∈ namesOf sees source body subject, tested? sees source t = some name

/-- What is reported of a body: a finding for each variable of which enough names are tested, in the order
of the variables, at the first statement that tests one of them. -/
structure Reports (sees : Kind → Bool) (least : Int) (f : SourceFile) (function : String) (body : Tree)
    (found : List Switchable) : Prop where
  subjects : found.map (·.subject) = fannedOut sees least f.content body
  names : ∀ s ∈ found, s.names = namesOf sees f.content body s.subject
  branches : ∀ s ∈ found, s.branches = (testedNames sees f.content body s.subject).length
  place : ∀ s ∈ found, ∃ t ∈ body.walk, Tests sees f.content body s.subject t ∧
    s.location = Location.of f function t.start ∧
    ∀ u ∈ body.walk, Tests sees f.content body s.subject u → u = t ∨ t.start < u.start

theorem bind_within?_isNamed (o : Option Tree) :
    o.bind (·.within? Kind.isNamed) = o.bind Tree.core? :=
  congrArg o.bind (funext Tree.within?_isNamed)

theorem compared?_isNamed (source : ByteArray) (target value : Tree) :
    compared? Kind.isNamed source target value =
      (Introduction.of? source target value).map fun i => (i.name, i.subject) := by
  unfold compared? Introduction.of?
  simp only [Tree.within?_isNamed]
  cases value.core? with
  | none => simp
  | some e =>
    cases hleft : (e.part? .left).bind Tree.core? with
    | none => simp [hleft]
    | some left =>
      simp only [Option.bind_some, Option.bind_eq_bind, hleft]
      grind

theorem comparisons_isNamed (source : ByteArray) (body : Tree) :
    comparisons Kind.isNamed source body =
      (Introduction.inBody source body).map fun i => (i.name, i.subject) := by
  unfold comparisons Introduction.inBody
  rw [List.map_flatMap]
  congr 1
  funext t
  unfold Introduction.ofStatement
  dsimp only
  split
  · simp only [List.map_filterMap, compared?_isNamed]
  · rfl

theorem tested?_isNamed (source : ByteArray) (t : Tree) :
    tested? Kind.isNamed source t =
      if t.kind = .ifStatement then conditionName? source t else none := by
  rw [tested?, conditionName?, bind_within?_isNamed]

namespace Switchable

variable {least : Nat} {function subject name : String} {n : Nat} {s : Switchable}

/-- What is found in a body. -/
def inBody (least : Nat) (f : SourceFile) (function : String) (body : Tree) : List Switchable :=
  (groups (Introduction.inBody f.content body)).filterMap fun (subject, group) =>
    ofGroup? least f function (conditions f.content body) subject group

def groupOf (source : ByteArray) (body : Tree) (subject : String) : List Introduction :=
  ((groups (Introduction.inBody source body)).lookup subject).getD []

theorem comparedIn_isNamed (source : ByteArray) (body : Tree) :
    comparedIn Kind.isNamed source body =
      ((Introduction.inBody source body).map (·.subject)).eraseDups := by
  rw [comparedIn, comparisons_isNamed, List.map_map]
  rfl

theorem namesOf_isNamed (source : ByteArray) (body : Tree) (subject : String) :
    namesOf Kind.isNamed source body subject = (groupOf source body subject).map (·.name) := by
  rw [groupOf, names_groups, namesOf, comparisons_isNamed, List.filter_map, List.map_map]
  rfl

theorem isSome_lookup_conditions (source : ByteArray) (body : Tree) (name : String) :
    ((conditions source body).lookup name).isSome =
      body.walk.any fun t => tested? Kind.isNamed source t == some name := by
  rw [lookup_conditions, Option.isSome_map, List.isSome_find?, List.any_filter]
  congr 1
  funext t
  rw [tested?_isNamed]
  by_cases hk : t.kind = .ifStatement <;> simp [hk]

theorem length_used (source : ByteArray) (body : Tree) (subject : String) :
    ((groupOf source body subject).filterMap fun i => (conditions source body).lookup i.name).length
      = (testedNames Kind.isNamed source body subject).length := by
  rw [List.length_filterMap_eq_countP, testedNames, ← List.countP_eq_length_filter, namesOf_isNamed,
    List.countP_map]
  simp only [isSome_lookup_conditions]
  rfl

theorem ifs_lt (h : body.Laid C) :
    (body.walk.filter (·.kind = .ifStatement)).Pairwise fun t u => t.start < u.start := by
  refine h.heads_lt List.filter_sublist fun t ht => ?_
  rw [of_decide_eq_true (List.mem_filter.mp ht).2]
  rfl

theorem tested?_eq_some_iff : tested? Kind.isNamed source t = some name ↔
    t.kind = .ifStatement ∧ conditionName? source t = some name := by
  rw [tested?_isNamed]
  split
  · next hk => exact (and_iff_right hk).symm
  · next hk => exact ⟨nofun, fun h => (hk h.1).elim⟩

/-- A condition leads to the first statement that tests it. -/
theorem first_of_lookup (h : body.Laid C) (hn : (conditions source body).lookup name = some n) :
    ∃ t ∈ body.walk, tested? Kind.isNamed source t = some name ∧ t.start = n ∧
      ∀ u ∈ body.walk, tested? Kind.isNamed source u = some name → n ≤ u.start := by
  rw [lookup_conditions] at hn
  obtain ⟨t, ht, rfl⟩ := Option.map_eq_some_iff.mp hn
  obtain ⟨hname, before, after, hsplit, hbefore⟩ := List.find?_eq_some_iff_append.mp ht
  have hmem : t ∈ body.walk.filter (·.kind = .ifStatement) := List.mem_of_find?_eq_some ht
  obtain ⟨hwalk, hk⟩ := List.mem_filter.mp hmem
  refine ⟨t, hwalk, tested?_eq_some_iff.mpr ⟨of_decide_eq_true hk, by simpa using hname⟩, rfl, ?_⟩
  intro u hu htested
  obtain ⟨hk, hcondition⟩ := tested?_eq_some_iff.mp htested
  have hu : u ∈ before ++ t :: after := hsplit ▸ List.mem_filter.mpr ⟨hu, decide_eq_true hk⟩
  have hlt := hsplit ▸ ifs_lt h
  rcases List.mem_append.mp hu with hu | hu
  · have hnot := hbefore u hu
    simp [hcondition] at hnot
  · rcases List.mem_cons.mp hu with rfl | hu
    · exact Nat.le_refl _
    · exact (List.rel_of_pairwise_cons (List.pairwise_append.mp hlt).2.1 hu).le

/-- Statements that test something and start at the same byte are the same. -/
theorem eq_of_start (h : body.Laid C) (ht : t ∈ body.walk) (hu : u ∈ body.walk)
    (htk : t.kind = .ifStatement) (huk : u.kind = .ifStatement) (he : t.start = u.start) : t = u := by
  have ht : t ∈ body.walk.filter (·.kind = .ifStatement) :=
    List.mem_filter.mpr ⟨ht, decide_eq_true htk⟩
  have hu : u ∈ body.walk.filter (·.kind = .ifStatement) :=
    List.mem_filter.mpr ⟨hu, decide_eq_true huk⟩
  have hnodup : ((body.walk.filter (·.kind = .ifStatement)).map (·.start)).Nodup :=
    List.pairwise_map.mpr ((ifs_lt h).imp Nat.ne_of_lt)
  exact List.inj_on_of_nodup_map hnodup ht hu he

theorem place_of_min? (h : body.Laid C) (hn : ((groupOf source body subject).filterMap fun i =>
      (conditions source body).lookup i.name).min? = some n) :
    ∃ t ∈ body.walk, Tests Kind.isNamed source body subject t ∧ t.start = n ∧
      ∀ u ∈ body.walk, Tests Kind.isNamed source body subject u → u = t ∨ t.start < u.start := by
  obtain ⟨hmem, hleast⟩ := List.min?_eq_some_iff.mp hn
  obtain ⟨i, hi, hlookup⟩ := List.mem_filterMap.mp hmem
  obtain ⟨t, ht, htested, rfl, -⟩ := first_of_lookup h hlookup
  have hname : i.name ∈ namesOf Kind.isNamed source body subject := by
    rw [namesOf_isNamed]
    exact List.mem_map_of_mem hi
  refine ⟨t, ht, ⟨i.name, hname, htested⟩, rfl, ?_⟩
  rintro u hu ⟨name, hname, hutested⟩
  rw [namesOf_isNamed] at hname
  obtain ⟨j, hj, rfl⟩ := List.mem_map.mp hname
  have hsome : ((conditions source body).lookup j.name).isSome := by
    rw [isSome_lookup_conditions, List.any_eq_true]
    exact ⟨u, hu, beq_iff_eq.mpr hutested⟩
  obtain ⟨m, hm⟩ := Option.isSome_iff_exists.mp hsome
  obtain ⟨-, -, -, -, hfirst⟩ := first_of_lookup h hm
  have hle : t.start ≤ u.start :=
    (hleast m (List.mem_filterMap.mpr ⟨j, hj, hm⟩)).trans (hfirst u hu hutested)
  rcases hle.lt_or_eq with hlt | he
  · exact .inr hlt
  · have hk := (tested?_eq_some_iff.mp htested).1
    exact .inl (eq_of_start h ht hu hk (tested?_eq_some_iff.mp hutested).1 he).symm

theorem minimum_le_iff (least : Int) (k : Nat) : minimum least ≤ k ↔ max least 2 ≤ (k : Int) := by
  unfold minimum
  omega

theorem inBody_eq (least : Nat) (f : SourceFile) (function : String) (body : Tree) :
    inBody least f function body = (comparedIn Kind.isNamed f.content body).filterMap fun subject =>
      ofGroup? least f function (conditions f.content body) subject
        (groupOf f.content body subject) := by
  rw [inBody, groups_eq, List.filterMap_map, comparedIn_isNamed]
  rfl

theorem reports_inBody (h : body.Laid C) (least : Int) (function : String) :
    Reports Kind.isNamed least f function body (inBody (minimum least) f function body) := by
  have hparts : ∀ s ∈ inBody (minimum least) f function body,
      ofGroup? (minimum least) f function (conditions f.content body) s.subject
        (groupOf f.content body s.subject) = some s := by
    intro s hs
    rw [inBody_eq] at hs
    obtain ⟨subject, -, hs⟩ := List.mem_filterMap.mp hs
    rw [(parts_of_ofGroup? hs).1]
    exact hs
  refine ⟨?_, fun s hs => ?_, fun s hs => ?_, fun s hs => ?_⟩
  · have hpos : 0 < minimum least := by
      unfold minimum
      omega
    rw [inBody_eq, List.map_filterMap, fannedOut, ← List.filterMap_eq_filter]
    congr 1
    funext subject
    simp only [subject_ofGroup? hpos, length_used, minimum_le_iff, Option.guard]
  · rw [(parts_of_ofGroup? (hparts s hs)).2.1, namesOf_isNamed]
  · rw [(parts_of_ofGroup? (hparts s hs)).2.2.1, length_used]
  · obtain ⟨-, -, -, n, hn, hlocation⟩ := parts_of_ofGroup? (hparts s hs)
    obtain ⟨t, ht, htests, rfl, hfirst⟩ := place_of_min? h hn
    exact ⟨t, ht, htests, hlocation, hfirst⟩

section

variable (h : ∀ t ∈ body.walk, t.within? Kind.isMeant = t.within? Kind.isNamed)
include h

theorem compared?_isMeant (source : ByteArray) (target : Tree) {value : Tree}
    (hvalue : value ∈ body.walk) :
    compared? Kind.isMeant source target value = compared? Kind.isNamed source target value := by
  rw [compared?, compared?, h value hvalue]
  refine Option.bind_congr fun e he => ?_
  have he : e ∈ body.walk :=
    Tree.walk_trans body hvalue (Tree.core_walk value (Tree.within?_isNamed value ▸ he))
  cases hleft : e.part? .left with
  | none => rfl
  | some left =>
    have hleft : left ∈ body.walk := Tree.walk_trans body he (Tree.part_walk hleft)
    rw [Option.bind_some, Option.bind_some, h left hleft]

theorem comparisons_isMeant (source : ByteArray) :
    comparisons Kind.isMeant source body = comparisons Kind.isNamed source body := by
  refine List.flatMap_congr fun t ht => ?_
  dsimp only
  split
  · refine List.filterMap_congr fun pair hpair => ?_
    obtain ⟨target, value⟩ := pair
    have hvalue := (List.of_mem_zip hpair).2
    exact compared?_isMeant h source target
      (Tree.walk_trans body (List.mem_filter.mp ht).1 (Tree.expressions?_walk hvalue))
  · rfl

theorem tested?_isMeant (source : ByteArray) (ht : t ∈ body.walk) :
    tested? Kind.isMeant source t = tested? Kind.isNamed source t := by
  unfold tested?
  cases hcondition : t.part? .condition with
  | none => rfl
  | some c =>
    rw [Option.bind_some, Option.bind_some, h c (Tree.walk_trans body ht (Tree.part_walk hcondition))]

theorem reports_isMeant {least : Int} {function : String} {found : List Switchable}
    (hr : Reports Kind.isNamed least f function body found) :
    Reports Kind.isMeant least f function body found := by
  have hcompared : comparedIn Kind.isMeant f.content body = comparedIn Kind.isNamed f.content body := by
    rw [comparedIn, comparisons_isMeant h, comparedIn]
  have hnames : namesOf Kind.isMeant f.content body = namesOf Kind.isNamed f.content body := by
    funext subject
    rw [namesOf, comparisons_isMeant h, namesOf]
  have htested : testedNames Kind.isMeant f.content body = testedNames Kind.isNamed f.content body := by
    funext subject
    rw [testedNames, testedNames, hnames]
    refine List.filter_congr fun name _ => ?_
    rw [Bool.eq_iff_iff, List.any_eq_true, List.any_eq_true]
    refine exists_congr fun t => and_congr_right fun ht => ?_
    rw [tested?_isMeant h f.content ht]
  have htests : ∀ subject, ∀ t ∈ body.walk, Tests Kind.isMeant f.content body subject t ↔
      Tests Kind.isNamed f.content body subject t := by
    intro subject t ht
    rw [Tests, Tests, hnames, tested?_isMeant h f.content ht]
  refine ⟨?_, ?_, ?_, ?_⟩
  · rw [fannedOut, hcompared, htested]
    exact hr.subjects
  · rw [hnames]
    exact hr.names
  · rw [htested]
    exact hr.branches
  · intro s hs
    obtain ⟨t, ht, htest, hlocation, hfirst⟩ := hr.place s hs
    exact ⟨t, ht, (htests _ t ht).mpr htest, hlocation,
      fun u hu hutest => hfirst u hu ((htests _ u hu).mp hutest)⟩

end

/-- What is found in a file is found in the bodies of its functions, one after the other. In each of them
it is what is to be reported, comments being seen in parentheses; and even if they are not, unless one
stands there in front of what is meant. -/
theorem inFile_exact (hf : parse? f.content = some f.tree) (least : Int) :
    inFile (minimum least) f =
      (bodies f).flatMap (fun b => inBody (minimum least) f b.1 b.2.2) ∧
    ∀ b ∈ bodies f,
      Reports Kind.isNamed least f b.1 b.2.2 (inBody (minimum least) f b.1 b.2.2) ∧
      ((∀ t ∈ b.2.2.walk, t.Uncommented) →
        Reports Kind.isMeant least f b.1 b.2.2 (inBody (minimum least) f b.1 b.2.2)) := by
  refine ⟨rfl, fun b hb => ?_⟩
  have hr := reports_inBody (f := f) (lies_body hf hb) least b.1
  refine ⟨hr, fun hnone => reports_isMeant (fun t ht => Tree.within?_isMeant t fun u hu => ?_) hr⟩
  exact hnone u (Tree.walk_trans _ ht hu)

def annotated : ByteArray :=
  ("package p\nfunc f() \x7b\na, b, c := k == 1, k == 2, k == 3\n"
    ++ "if b \x7b\n\x7d\nif a \x7b\n\x7d\nif (/**/ c) \x7b\n\x7d\n\x7d\n").toUTF8

def annotatedFile (tree : Tree) : SourceFile :=
  ⟨"p.go", annotated, tree, Source.Registry.slotFor {} "p.go" annotated⟩

/-- The two conditions without a comment are counted. The third is not, although it would be if comments
were not seen. -/
theorem inFile_exact_annotated : ∃ tree, parse? annotated = some tree ∧
    let f := annotatedFile tree
    ∃ b s, bodies f = [b] ∧ inFile (minimum 1) f = [s] ∧ s.subject = "k" ∧
      s.names = ["a", "b", "c"] ∧ s.branches = 2 ∧ ¬ Reports Kind.isMeant 1 f b.1 b.2.2 [s] := by
  obtain ⟨tree, htree, hone, hall⟩ :
      ∃ tree ∈ parse? annotated, (bodies (annotatedFile tree)).length = 1 ∧
        ∀ b ∈ bodies (annotatedFile tree), fannedOut Kind.isNamed 1 annotated b.2.2 = ["k"] ∧
          namesOf Kind.isNamed annotated b.2.2 "k" = ["a", "b", "c"] ∧
          (testedNames Kind.isNamed annotated b.2.2 "k").length = 2 ∧
          (testedNames Kind.isMeant annotated b.2.2 "k").length = 3 := by
    decide +kernel
  obtain ⟨b, hbodies⟩ := List.length_eq_one_iff.mp hone
  obtain ⟨hsubjects, hnames, hbranches, hmeant⟩ := hall b (by simp [hbodies])
  obtain ⟨hfile, hreports⟩ := inFile_exact (f := annotatedFile tree) htree 1
  have hr := (hreports b (by simp [hbodies])).1
  obtain ⟨s, hs, hsubject⟩ := List.map_eq_singleton_iff.mp (hr.subjects.trans hsubjects)
  rw [hs] at hr
  have hmem := List.mem_singleton_self s
  refine ⟨tree, htree, b, s, hbodies, ?_, hsubject, ?_, ?_, fun h => ?_⟩
  · rw [hfile, hbodies, List.flatMap_singleton, hs]
  · rw [hr.names s hmem, hsubject]
    exact hnames
  · rw [hr.branches s hmem, hsubject]
    exact hbranches
  · have hcount := (hr.branches s hmem).symm.trans (h.branches s hmem)
    rw [hsubject, show (annotatedFile tree).content = annotated from rfl, hbranches, hmeant] at hcount
    cases hcount

end Switchable

end Finding

end GoAtlas
