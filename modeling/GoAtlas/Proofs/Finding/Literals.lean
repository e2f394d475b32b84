import GoAtlas.Proofs.Finding.Decisions

namespace GoAtlas.Finding

open Syntax
open Finding.Count

variable {source source' : ByteArray} {t t' : Tree} {ts ts' : List Tree} {count : Count} {f : Field}
  {C : Ground}

mutual
/-- Whether two nodes have the same shape and the same names, whatever the function literals hold. -/
def isAlike (source source' : ByteArray) : Tree → Tree → Bool
  | .node k f s cs, .node k' f' s' cs' =>
    k = k' && f = f' && (k = .funcLiteral ||
      (k != .identifier
        || source.extract s.start s.stop = source'.extract s'.start s'.stop)
      && areAlike source source' cs cs')

def areAlike (source source' : ByteArray) : List Tree → List Tree → Bool
  | [], [] => true
  | t :: ts, t' :: ts' => isAlike source source' t t' && areAlike source source' ts ts'
  | _, _ => false
end

/-- Nodes that differ at most in what their function literals hold. -/
abbrev Alike (source source' : ByteArray) (t t' : Tree) : Prop :=
  isAlike source source' t t'

theorem areAlike_iff :
    areAlike source source' ts ts' = true ↔ List.Forall₂ (Alike source source') ts ts' := by
  induction ts generalizing ts' with
  | nil =>
    rw [List.forall₂_nil_left_iff]
    cases ts' <;> simp [areAlike]
  | cons t ts ih =>
    cases ts' with
    | nil => simp [areAlike]
    | cons t' ts' => rw [areAlike, Bool.and_eq_true, ih, List.forall₂_cons]

theorem alike_iff : Alike source source' t t' ↔ t.kind = t'.kind ∧ t.field = t'.field ∧
    (t.kind ≠ .funcLiteral →
      (t.kind = .identifier → source.extract t.start t.stop = source'.extract t'.start t'.stop) ∧
      List.Forall₂ (Alike source source') t.children t'.children) := by
  obtain ⟨k, f, s, cs⟩ := t
  obtain ⟨k', f', s', cs'⟩ := t'
  rw [Alike, isAlike, ← areAlike_iff]
  simp only [Bool.and_eq_true, Bool.or_eq_true, decide_eq_true_eq, bne_iff_ne, and_assoc,
    ne_eq, not_not, Decidable.or_iff_not_imp_left]
  rfl

namespace Alike

variable (h : Alike source source' t t')
include h

theorem kind : t.kind = t'.kind :=
  (alike_iff.mp h).1

theorem field : t.field = t'.field :=
  (alike_iff.mp h).2.1

theorem children (hk : t.kind ≠ .funcLiteral) :
    List.Forall₂ (Alike source source') t.children t'.children :=
  ((alike_iff.mp h).2.2 hk).2

theorem text (hk : t.kind = .identifier) : t.text source = t'.text source' :=
  congrArg Text.Utf8.decode (((alike_iff.mp h).2.2 (by simp [hk])).1 hk)

end Alike

def ByMark {α : Type} (p : Tree → α) : Prop :=
  ∀ t t' : Tree, t.kind = t'.kind → t.field = t'.field → p t = p t'

section
variable {p : Tree → Bool} (hp : ByMark p) (h : List.Forall₂ (Alike source source') ts ts')
include hp h

theorem filter_alike : List.Forall₂ (Alike source source') (ts.filter p) (ts'.filter p) := by
  apply List.rel_filter _ h
  intro t t' ht
  dsimp only
  rw [hp t t' ht.kind ht.field]

theorem find?_alike : (ts.find? p = none ∧ ts'.find? p = none) ∨
    ∃ u u', ts.find? p = some u ∧ ts'.find? p = some u' ∧ Alike source source' u u' := by
  induction h with
  | nil => exact .inl ⟨rfl, rfl⟩
  | @cons t t' _ _ ht _ ih =>
    rw [List.find?_cons, List.find?_cons, ← hp t t' ht.kind ht.field]
    split
    · exact .inr ⟨t, t', rfl, rfl, ht⟩
    · exact ih

end

theorem select_alike {select? : Tree → Option Count} (hselect : ByMark select?)
    (h : List.Forall₂ (Alike source source') ts ts') :
    List.Forall₂ (fun x y => x.1 = y.1 ∧ Alike source source' x.2 y.2) (select select? ts)
      (select select? ts') := by
  apply List.rel_filterMap _ h
  intro t t' ht
  dsimp only
  rw [hselect t t' ht.kind ht.field]
  cases select? t' with
  | none => exact .none
  | some count => exact .some ⟨rfl, ht⟩

theorem kind_byMark {α : Type} (p : Kind → α) : ByMark (p ·.kind) :=
  fun _ _ hk _ => congrArg p hk

theorem isClause_byMark : ByMark Tree.isClause := by
  intro t t' hk _
  rw [Tree.isClause, Tree.isClause, hk]

theorem field_byMark (f : Field) : ByMark (fun t => decide (t.field = some f)) :=
  fun _ _ _ hf => congrArg (fun g => decide (g = some f)) hf

theorem ofLiterals_byMark (d : Nat) : ByMark (ofLiterals d) := by
  intro t t' hk _
  rw [ofLiterals, ofLiterals, hk]

theorem ofClauses_byMark (d : Nat) : ByMark (ofClauses d) := by
  intro t t' hk hf
  rw [ofClauses, ofClauses, isClause_byMark t t' hk hf]

theorem ofStatements_byMark (d : Nat) : ByMark (ofStatements d) := by
  intro t t' hk hf
  rw [ofStatements, ofStatements, Tree.isClauseHead, Tree.isClauseHead, hk, hf]

theorem inPart_byMark (f : Field) (count : Count) : ByMark (inPart f count) := by
  intro t t' _ hf
  rw [inPart, inPart, hf]

theorem ofAlternative_byMark (d : Nat) : ByMark (ofAlternative d) := by
  intro t t' hk hf
  rw [ofAlternative, ofAlternative, hk, hf]

namespace Alike

variable (h : Alike source source' t t') (hk : t.kind ≠ .funcLiteral)
include h hk

theorem named : List.Forall₂ (Alike source source') t.named t'.named :=
  filter_alike (kind_byMark Kind.isNamed) (h.children hk)

theorem part? (f : Field) : (t.part? f = none ∧ t'.part? f = none) ∨
    ∃ u u', t.part? f = some u ∧ t'.part? f = some u' ∧ Alike source source' u u' :=
  find?_alike (field_byMark f) (h.children hk)

theorem parts (f : Field) : List.Forall₂ (Alike source source') (t.parts f) (t'.parts f) :=
  filter_alike (field_byMark f) (h.children hk)

theorem clauses : List.Forall₂ (Alike source source') t.clauses t'.clauses :=
  filter_alike isClause_byMark (h.named hk)

end Alike

section
variable (h : Alike source source' t t')
include h

theorem elsePaths_alike (hk : t.kind ≠ .funcLiteral) : elsePaths t = elsePaths t' := by
  rw [elsePaths, elsePaths]
  obtain ⟨hnone, hnone'⟩ | ⟨a, a', ha, ha', halike⟩ := h.part? hk .alternative
  · rw [hnone, hnone']
  · rw [ha, ha']
    dsimp only
    rw [halike.kind]

theorem switchPaths_alike (hk : t.kind ≠ .funcLiteral) : switchPaths t = switchPaths t' := by
  have hclauses := h.clauses hk
  have hwritten := filter_alike (kind_byMark (· != .defaultCase)) hclauses
  rw [switchPaths, switchPaths, hclauses.length_eq, hwritten.length_eq]

theorem expressions_alike :
    List.Forall₂ (Alike source source') t.expressions t'.expressions := by
  rw [Tree.expressions, Tree.expressions, ← h.kind]
  split
  · next hk =>
    exact filter_alike (kind_byMark fun k => !decide (k = .comment)) (h.named (by simp [hk]))
  · exact .cons h .nil

theorem shortVariables_alike (hk : t.kind ≠ .funcLiteral) :
    shortVariables source t = shortVariables source' t' := by
  have hnames : List.Forall₂ (Alike source source') (Tree.expressions? (t.part? .left))
      (Tree.expressions? (t'.part? .left)) := by
    obtain ⟨hnone, hnone'⟩ | ⟨a, a', ha, ha', halike⟩ := h.part? hk .left
    · rw [hnone, hnone']
      exact .nil
    · rw [ha, ha']
      exact expressions_alike halike
  apply List.Forall₂.length_eq
  apply List.rel_filter _ hnames
  intro u u' hu
  simp only [Bool.and_eq_true, decide_eq_true_eq, ← hu.kind]
  constructor
  · rintro ⟨hidentifier, htext⟩
    exact ⟨hidentifier, hu.text hidentifier ▸ htext⟩
  · rintro ⟨hidentifier, htext⟩
    exact ⟨hidentifier, hu.text hidentifier ▸ htext⟩

theorem specs_alike (hk : t.kind ≠ .funcLiteral) (k : Kind) :
    List.Forall₂ (fun u u' => u.kind = k ∧ Alike source source' u u') (t.specs k) (t'.specs k) := by
  apply List.rel_flatMap (h.named hk)
  intro u u' hu
  dsimp only
  rw [← hu.kind]
  split
  · next hkind => exact .cons ⟨hkind, hu⟩ .nil
  · split
    · next hlist =>
      have hlist : u.kind ≠ .funcLiteral := by
        intro hliteral
        rw [hliteral] at hlist
        cases hlist
      apply (List.forall₂_and_left _ _).mpr
      constructor
      · intro v hv
        exact of_decide_eq_true (List.mem_filter.mp hv).2
      · exact filter_alike (kind_byMark (decide <| · = k)) (hu.named hlist)
    · exact .nil

theorem declaredVariables_alike (hk : t.kind ≠ .funcLiteral) :
    declaredVariables t = declaredVariables t' := by
  apply List.Forall₂.length_eq (R := Alike source source')
  apply List.rel_flatMap (specs_alike h hk .varSpec)
  rintro u u' ⟨hkind, hu⟩
  exact hu.parts (by simp [hkind]) .name

theorem own_alike (count : Count) : count.own source t = count.own source' t' := by
  cases count with
  | literals d => rw [own, own, h.kind]
  | contents d => rfl
  | statement d =>
    rw [own, own, ← h.kind]
    split
    · next hk => rw [elsePaths_alike h (by simp [hk])]
    · rfl
    · next hk => rw [switchPaths_alike h (by simp [hk])]
    · next hk => rw [switchPaths_alike h (by simp [hk])]
    · next hk => rw [(h.clauses (by simp [hk])).length_eq]
    · rfl
    · rfl
    · rfl
    · rfl
    · rfl
    · apply congrArg fun n : Nat => ({ locals := n } : Tally)
      split
      · next hk => exact shortVariables_alike h (by simp [hk])
      · split
        · next hk => exact declaredVariables_alike h (by simp [hk])
        · rfl

end

/-- The contents of a node are only counted if it is no function literal. -/
def Count.Fits (count : Count) (t : Tree) : Prop :=
  ∀ d, count = .contents d → t.kind ≠ .funcLiteral

/-- A selector that counts no contents of function literals. -/
def Count.Proper (select? : Tree → Option Count) : Prop :=
  ∀ t count, select? t = some count → count.Fits t

theorem fits_of_select {select? : Tree → Option Count} (hselect : Proper select?)
    {x : Count × Tree} (hx : x ∈ select select? ts) : x.1.Fits x.2 :=
  hselect x.2 x.1 (mem_select hx).2

theorem fits_statement (d : Nat) (t : Tree) : (Count.statement d).Fits t :=
  fun _ h => by cases h

theorem fits_literals (d : Nat) (t : Tree) : (Count.literals d).Fits t :=
  fun _ h => by cases h

theorem ofLiterals_proper (d : Nat) : Proper (ofLiterals d) := by
  intro t count h
  obtain ⟨-, h⟩ := Option.ite_none_right_eq_some.mp h
  cases h
  exact fits_literals d t

theorem ofClauses_proper (d : Nat) : Proper (ofClauses d) := by
  intro t count h _ _ hk
  obtain ⟨hclause, -⟩ := Option.ite_none_right_eq_some.mp h
  rw [Tree.isClause, hk] at hclause
  cases hclause

theorem ofStatements_proper (d : Nat) : Proper (ofStatements d) := by
  intro t count h
  obtain ⟨-, h⟩ := Option.ite_none_right_eq_some.mp h
  cases h
  split
  · next hk => exact fun _ _ hliteral => by simp [hk] at hliteral
  · exact fits_statement d t

theorem inPart_proper {count : Count} (hfits : ∀ t, count.Fits t) (f : Field) :
    Proper (inPart f count) := by
  intro t c h
  obtain ⟨-, h⟩ := Option.ite_none_right_eq_some.mp h
  cases h
  exact hfits t

theorem ofAlternative_proper (d : Nat) : Proper (ofAlternative d) := by
  intro t count h
  obtain ⟨-, h⟩ := Option.ite_none_right_eq_some.mp h
  cases h
  exact fits_statement _ t

theorem fits_next {x : Count × Tree} (hx : x ∈ count.next t) : x.1.Fits x.2 := by
  cases count with
  | literals d =>
    rw [next] at hx
    split at hx
    · cases hx
    · exact fits_of_select (ofLiterals_proper d) hx
  | contents d => exact fits_of_select (ofStatements_proper d) hx
  | statement d =>
    rw [next] at hx
    split at hx
    · simp only [List.mem_append] at hx
      rcases hx with ((hx | hx) | hx) | hx
      · exact fits_of_select (inPart_proper (fits_statement _) _) hx
      · exact fits_of_select (inPart_proper (fits_literals _) _) hx
      · exact fits_of_select (inPart_proper (fits_statement _) _) hx
      · exact fits_of_select (ofAlternative_proper d) hx
    · exact fits_of_select (inPart_proper (fits_statement _) _) hx
    · exact fits_of_select (ofClauses_proper _) hx
    · exact fits_of_select (ofClauses_proper _) hx
    · exact fits_of_select (ofClauses_proper _) hx
    · exact fits_of_select (ofStatements_proper d) hx
    · obtain ⟨u, -, rfl⟩ := List.mem_map.mp hx
      exact fits_statement d u
    · cases hx
    · exact fits_of_select (ofLiterals_proper d) hx

theorem next_alike (h : Alike source source' t t') (hfits : count.Fits t) :
    List.Forall₂ (fun x y => x.1 = y.1 ∧ Alike source source' x.2 y.2) (count.next t)
      (count.next t') := by
  cases count with
  | literals d =>
    rw [next, next, ← h.kind]
    split
    · exact .nil
    · next hk => exact select_alike (ofLiterals_byMark d) (h.children hk)
  | contents d => exact select_alike (ofStatements_byMark d) (h.children (hfits d rfl))
  | statement d =>
    rw [next, next, ← h.kind]
    split
    · next hk =>
      have hchildren := h.children (by simp [hk])
      apply List.rel_append
      · apply List.rel_append
        · apply List.rel_append
          · exact select_alike (inPart_byMark _ _) hchildren
          · exact select_alike (inPart_byMark _ _) hchildren
        · exact select_alike (inPart_byMark _ _) hchildren
      · exact select_alike (ofAlternative_byMark d) hchildren
    · next hk => exact select_alike (inPart_byMark _ _) (h.children (by simp [hk]))
    · next hk => exact select_alike (ofClauses_byMark _) (h.children (by simp [hk]))
    · next hk => exact select_alike (ofClauses_byMark _) (h.children (by simp [hk]))
    · next hk => exact select_alike (ofClauses_byMark _) (h.children (by simp [hk]))
    · next hk => exact select_alike (ofStatements_byMark d) (h.children (by simp [hk]))
    · next hk =>
      obtain ⟨hnone, hnone'⟩ | ⟨u, u', hu, hu', halike⟩ :=
        find?_alike (kind_byMark fun k => k.isNamed && k != .labelName) (h.children (by simp [hk]))
      · rw [labeled?, labeled?, hnone, hnone']
        exact .nil
      · rw [labeled?, labeled?, hu, hu']
        exact .cons ⟨rfl, halike⟩ .nil
    · exact .nil
    · next hk => exact select_alike (ofLiterals_byMark d) (h.children hk)

theorem map_eq_of_forall₂ {α β γ : Type} {R : α → β → Prop} {g : α → γ} {g' : β → γ} {l : List α}
    {l' : List β} (h : List.Forall₂ R l l') (hg : ∀ x ∈ l, ∀ y, R x y → g x = g' y) :
    l.map g = l'.map g' := by
  induction h with
  | nil => rfl
  | @cons x y l l' hxy _ ih =>
    rw [List.map_cons, List.map_cons, hg x List.mem_cons_self y hxy,
      ih fun z hz => hg z (List.mem_cons_of_mem x hz)]

theorem tally_alike (h : Alike source source' t t') (hfits : count.Fits t) :
    tally source count t = tally source' count t' := by
  induction count, t using count_induction generalizing t' with
  | h count t ih =>
    -- nothing below a literal is counted next, so the two runs stay alike
    rw [tally_eq, tally_eq, own_alike h]
    congr 2
    apply map_eq_of_forall₂ (next_alike h hfits)
    rintro x hx y ⟨hcount, hxy⟩
    rw [← hcount]
    exact ih x hx hxy (fits_next hx)

theorem not_literal (hk : t.kind.isFunction = true) : t.kind ≠ .funcLiteral := by
  intro hliteral
  rw [hliteral] at hk
  cases hk

theorem parameters_of_function {l : Tree} (ht : t.Laid C) (hk : t.kind.isFunction = true)
    (hl : t.part? .parameters = some l) :
    l.kind = .parameterList ∧ ∀ p ∈ l.named, p.kind ≠ .funcLiteral := by
  obtain ⟨hlaid, hadmits⟩ := ht.part? hl
  have hlist : l.kind = .parameterList := by
    cases hkind : t.kind <;> rw [hkind] at hk hadmits
    case functionDeclaration => exact Kind.eq_of_admits hadmits rfl
    case methodDeclaration => exact Kind.eq_of_admits hadmits rfl
    all_goals cases hk
  apply And.intro hlist
  intro p hp hliteral
  obtain ⟨-, -, -, hadmits⟩ := hlaid.row.mem (List.mem_filter.mp hp).1
  rw [hlist, hliteral] at hadmits
  cases hf : p.field <;> rw [hf] at hadmits <;> cases hadmits

theorem parameters_alike (h : Alike source source' t t') (ht : t.Laid C)
    (hk : t.kind.isFunction = true) :
    ((((t.part? .parameters).map Tree.named).getD []).flatMap (·.parts .name)).length
      = ((((t'.part? .parameters).map Tree.named).getD []).flatMap (·.parts .name)).length := by
  obtain ⟨hnone, hnone'⟩ | ⟨l, l', hl, hl', halike⟩ := h.part? (not_literal hk) .parameters
  · rw [hnone, hnone']
  · obtain ⟨hlist, hnamed⟩ := parameters_of_function ht hk hl
    have hrow := (List.forall₂_and_left _ _).mpr ⟨hnamed, halike.named (by simp [hlist])⟩
    rw [hl, hl']
    apply List.Forall₂.length_eq (R := Alike source source')
    apply List.rel_flatMap hrow
    rintro p p' ⟨hp, hpp⟩
    exact hpp.parts hp .name

/-- A function and one that differs from it in what the function literals in it hold have the same
measures, apart from their lines. -/
theorem literals_opaque {root body : Tree} (hroot : parse? source = some root) (ht : t ∈ root.walk)
    (hk : t.kind.isFunction = true) (hb : t.part? .body = some body)
    (h : Alike source source' t t') :
    ∃ m m', Metrics.ofFunction? source t = some m ∧ Metrics.ofFunction? source' t' = some m' ∧
      m' = { m with lines := m'.lines } := by
  have hlaid := laid_of_function hroot ht hk
  obtain ⟨hblock, -⟩ := body_of_function hlaid hk hb
  obtain ⟨hnone, -⟩ | ⟨b, b', hbody, hbody', halike⟩ := h.part? (not_literal hk) .body
  · rw [hb] at hnone
    cases hnone
  · rw [hb, Option.some.injEq] at hbody
    have hfits : (Count.contents 0).Fits b := fun _ _ hliteral => by simp [← hbody, hblock] at hliteral
    have htally := tally_alike halike hfits
    have hparameters := parameters_alike h hlaid hk
    rw [Metrics.ofFunction?, Metrics.ofFunction?, hb, hbody, hbody']
    refine ⟨_, _, rfl, rfl, ?_⟩
    dsimp only
    rw [htally, hparameters]

/-- A function with three literals: a value, a call that is started, and an argument in a condition. -/
def hollow : ByteArray :=
  ("package p\nfunc f(n int) \x7b\n\tg := func() \x7b\x7d\n\tgo func() \x7b\x7d()\n" ++
    "\tif h(func() \x7b\x7d) \x7b\n\t\x7d\n\x7d\n").toUTF8

/-- The same function with a condition, a variable and a loop in its literals. -/
def filled : ByteArray :=
  ("package p\nfunc f(n int) \x7b\n\tg := func() \x7bif x \x7b\x7d\x7d\n" ++
    "\tgo func() \x7bx := func() \x7b\x7d\n\x7d()\n\tif h(func() \x7bfor \x7b\x7d\x7d) \x7b\n\t\x7d\n\x7d\n").toUTF8

theorem literals_opaque_filled :
    ∃ root root' t t' m m', parse? hollow = some root ∧ t ∈ root.walk ∧ t.kind.isFunction = true ∧
      parse? filled = some root' ∧ t' ∈ root'.walk ∧ Alike hollow filled t t' ∧
      Metrics.ofFunction? hollow t = some m ∧ Metrics.ofFunction? filled t' = some m' ∧
      m' = { m with lines := m'.lines } ∧ m = ⟨2, 5, 6, 1, 1, 1, 1⟩ ∧ m'.lines = 7 := by
  obtain ⟨root, hroot, root', hroot', t, hwalk, hk, body, hb, hmetrics, t', hwalk', halike, hlines⟩ :
      ∃ root ∈ parse? hollow, ∃ root' ∈ parse? filled, ∃ t ∈ root.walk, t.kind.isFunction = true ∧
        ∃ body ∈ t.part? .body, Metrics.ofFunction? hollow t = some ⟨2, 5, 6, 1, 1, 1, 1⟩ ∧
          ∃ t' ∈ root'.walk, isAlike hollow filled t t' = true ∧
            (Metrics.ofFunction? filled t').map Metrics.lines = some 7 := by
    decide +kernel
  obtain ⟨m, m', hm, hm', heq⟩ := literals_opaque hroot hwalk hk hb halike
  rw [hm, Option.some.injEq] at hmetrics
  rw [hm', Option.map_some, Option.some.injEq] at hlines
  exact ⟨root, root', t, t', m, m', hroot, hwalk, hk, hroot', hwalk', halike, hm, hm', heq, hmetrics,
    hlines⟩

end GoAtlas.Finding
