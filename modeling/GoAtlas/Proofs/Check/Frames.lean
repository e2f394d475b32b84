import GoAtlas.Check.Run
import GoAtlas.Proofs.Check.Composition

namespace GoAtlas.Check

open Syntax

namespace State

variable (e : Surroundings) (s : State)

@[simp] theorem scope_recordUse (n : Ident) (o : Object) : (s.recordUse e n o).scope = s.scope := by
  unfold recordUse
  split
  · split <;> rfl
  · rfl

@[simp] theorem scope_useMember (o : Object) (n : Ident) : (s.useMember e o n).scope = s.scope := by
  unfold useMember
  split
  · rfl
  · split
    · exact scope_recordUse e s n _
    · split <;> rfl

@[simp] theorem scope_use (n : Ident) (soft : Bool) : (s.use e n soft).scope = s.scope := by
  unfold use
  split
  · rfl
  · split
    · exact scope_recordUse e s n _
    · split <;> rfl

theorem tail_declare (n : Ident) (kind : ObjectKind) (type : Option String) :
    (s.declare e n kind type).scope.tail = s.scope.tail := by
  unfold declare
  split
  · rfl
  · cases s.scope <;> rfl

theorem tail_act (a : Action) : (s.act e a).scope.tail = s.scope.tail := by
  cases a with
  | use n soft => exact congrArg List.tail (scope_use e s n soft)
  | declare n kind type => exact tail_declare e s n kind type
  | short n type =>
    simp only [act]
    split
    · exact congrArg List.tail (scope_use e s n false)
    · exact tail_declare e s n .var type
  | member operand field =>
    simp only [act]
    split
    · split
      · exact congrArg List.tail (scope_useMember e s _ field)
      · rfl
    · rfl
  | qualified package name =>
    simp only [act]
    split
    · split
      · rw [scope_useMember, scope_recordUse]
      · rfl
    · rfl
  | typed start stop type => rfl

mutual
theorem tail_follow : (b : Binding) → ∀ s : State, (s.follow e b).scope.tail = s.scope.tail
  | .act a, s => tail_act e s a
  | .scope body, s => congrArg List.tail (tail_followAll body s.enter)

theorem tail_followAll : (bs : List Binding) → ∀ s : State,
    (s.followAll e bs).scope.tail = s.scope.tail
  | [], _ => rfl
  | b :: bs, s => (tail_followAll bs (s.follow e b)).trans (tail_follow b s)
end

/-- The scopes that were open are open again behind a scope, as they were. -/
theorem follow_scope (body : List Binding) :
    s.follow e (.scope body) = { s.enter.followAll e body with scope := s.scope } := by
  have htail : (s.enter.followAll e body).scope.tail = s.scope := tail_followAll e body s.enter
  rw [follow, leave, htail]

/-- Two states that differ in what they record at the given nodes of a file at most. -/
structure DiffersAt (file : String) (T : List Tree) (s s' : State) : Prop where
  defs : ∀ spot, s'.info.defs.lookup spot ≠ s.info.defs.lookup spot →
    ∃ x ∈ T, spot = ⟨file, x.start⟩
  uses : ∀ spot, s'.info.uses.lookup spot ≠ s.info.uses.lookup spot →
    ∃ x ∈ T, spot = ⟨file, x.start⟩
  types : ∀ extent, s'.info.types.lookup extent ≠ s.info.types.lookup extent →
    ∃ x ∈ T, extent = ⟨file, x.start, x.stop⟩

end State

def Ident.From (source : ByteArray) (T : List Tree) (n : Ident) : Prop :=
  ∃ x ∈ T, Ident.of source x = n

def Action.From (source : ByteArray) (T : List Tree) : Action → Prop
  | .use n _ | .declare n _ _ | .short n _ | .member _ n => n.From source T
  | .qualified package name => package.From source T ∧ name.From source T
  | .typed start stop _ => ∃ x ∈ T, x.start = start ∧ x.stop = stop

theorem lookup_put_ne {α β : Type} [BEq α] [LawfulBEq α] {key other : α} {value : β} {d : Dict α β}
    (h : (d.put key value).lookup other ≠ d.lookup other) : other = key := by
  rw [Dict.lookup_put] at h
  by_contra hne
  rw [if_neg (by simpa using hne)] at h
  exact h rfl

namespace State.DiffersAt

variable {e : Surroundings} {file : String} {source : ByteArray} {T : List Tree} {s s' s'' : State}
  {n : Ident}

theorem refl (file : String) (T : List Tree) (s : State) : DiffersAt file T s s :=
  ⟨fun _ h => (h rfl).elim, fun _ h => (h rfl).elim, fun _ h => (h rfl).elim⟩

theorem trans (h : DiffersAt file T s s') (h' : DiffersAt file T s' s'') :
    DiffersAt file T s s'' where
  defs spot hne := by
    by_cases hs : s'.info.defs.lookup spot = s.info.defs.lookup spot
    · exact h'.defs spot (hs ▸ hne)
    · exact h.defs spot hs
  uses spot hne := by
    by_cases hs : s'.info.uses.lookup spot = s.info.uses.lookup spot
    · exact h'.uses spot (hs ▸ hne)
    · exact h.uses spot hs
  types extent hne := by
    by_cases hs : s'.info.types.lookup extent = s.info.types.lookup extent
    · exact h'.types extent (hs ▸ hne)
    · exact h.types extent hs

theorem ofInfo (file : String) (T : List Tree) (h : s'.info = s.info) : DiffersAt file T s s' :=
  ⟨fun _ hne => (hne (by rw [h])).elim, fun _ hne => (hne (by rw [h])).elim,
    fun _ hne => (hne (by rw [h])).elim⟩

theorem recordType {start stop : Nat} (hx : ∃ x ∈ T, x.start = start ∧ x.stop = stop)
    (type : String) : DiffersAt e.file T s (s.recordType e start stop type) := by
  obtain ⟨x, hx, rfl, rfl⟩ := hx
  exact ⟨fun _ h => (h rfl).elim, fun _ h => (h rfl).elim,
    fun extent h => ⟨x, hx, lookup_put_ne h⟩⟩

theorem recordUse (hn : n.From source T) (o : Object) :
    DiffersAt e.file T s (s.recordUse e n o) := by
  obtain ⟨x, hx, rfl⟩ := hn
  have huse : DiffersAt e.file T s
      { s with info.uses := s.info.uses.put ⟨e.file, x.start⟩ o } :=
    ⟨fun _ h => (h rfl).elim, fun _ h => ⟨x, hx, lookup_put_ne h⟩, fun _ h => (h rfl).elim⟩
  unfold State.recordUse
  split
  · split
    · exact huse
    · exact huse.trans (recordType ⟨x, hx, rfl, rfl⟩ _)
  · exact huse

theorem use (hn : n.From source T) (soft : Bool) : DiffersAt e.file T s (s.use e n soft) := by
  unfold State.use
  split
  · exact .refl _ _ s
  · split
    · exact recordUse hn _
    · split
      · exact .refl _ _ s
      · exact .ofInfo _ _ rfl

theorem useMember (hn : n.From source T) (o : Object) :
    DiffersAt e.file T s (s.useMember e o n) := by
  unfold State.useMember
  split
  · exact .refl _ _ s
  · split
    · exact recordUse hn _
    · split
      · exact .ofInfo _ _ rfl
      · exact .refl _ _ s

theorem declare (hn : n.From source T) (kind : ObjectKind) (type : Option String) :
    DiffersAt e.file T s (s.declare e n kind type) := by
  obtain ⟨x, hx, rfl⟩ := hn
  unfold State.declare
  split
  · exact .refl _ _ s
  · exact ⟨fun _ h => ⟨x, hx, lookup_put_ne h⟩, fun _ h => (h rfl).elim, fun _ h => (h rfl).elim⟩

theorem act {a : Action} (ha : a.From source T) : DiffersAt e.file T s (s.act e a) := by
  cases a with
  | use n soft => exact use ha soft
  | declare n kind type => exact declare ha kind type
  | short n type =>
    simp only [State.act]
    split
    · exact use ha false
    · exact declare ha .var type
  | member operand field =>
    simp only [State.act]
    split
    · split
      · exact useMember ha _
      · exact .refl _ _ s
    · exact .refl _ _ s
  | qualified package name =>
    simp only [State.act]
    split
    · split
      · exact (recordUse ha.1 _).trans (useMember ha.2 _)
      · exact .ofInfo _ _ rfl
    · exact .ofInfo _ _ rfl
  | typed start stop type => exact recordType ha type

mutual
theorem follow : (b : Binding) → ∀ s : State, b.Each (·.From source T) →
    DiffersAt e.file T s (s.follow e b)
  | .act _, _, hb => act hb
  | .scope body, s, hb => by
    have henter : DiffersAt e.file T s s.enter := .ofInfo _ _ rfl
    have hleave : DiffersAt e.file T (s.enter.followAll e body) (s.enter.followAll e body).leave :=
      .ofInfo _ _ rfl
    exact (henter.trans (followAll body s.enter hb)).trans hleave

theorem followAll : (bs : List Binding) → ∀ s : State, EachOf (·.From source T) bs →
    DiffersAt e.file T s (s.followAll e bs)
  | [], s, _ => .refl _ _ s
  | b :: bs, s, hbs => (follow b s hbs.1).trans (followAll bs (s.follow e b) hbs.2)
end

end State.DiffersAt

section

variable {source : ByteArray} {T : List Tree} {t : Tree} {given : List Ident}

theorem Ident.OwnedBy.isFrom {n : Ident} (h : n.OwnedBy source t given) (ht : t.walk ⊆ T)
    (hgiven : ∀ m ∈ given, m.From source T) : n.From source T := by
  rcases h with h | ⟨m, hm, rfl⟩
  · exact hgiven n h
  · exact ⟨m, ht hm.mem_walk, rfl⟩

theorem Action.OwnedBy.isFrom {a : Action} (h : a.OwnedBy source t given) (ht : t.walk ⊆ T)
    (hgiven : ∀ m ∈ given, m.From source T) : a.From source T := by
  cases a with
  | use n soft => exact Ident.OwnedBy.isFrom h ht hgiven
  | declare n kind type => exact Ident.OwnedBy.isFrom h ht hgiven
  | short n type => exact Ident.OwnedBy.isFrom h ht hgiven
  | member operand field => exact Ident.OwnedBy.isFrom h ht hgiven
  | qualified package name => exact ⟨h.1.isFrom ht hgiven, h.2.isFrom ht hgiven⟩
  | typed start stop type => exact ⟨t, ht t.self_mem_walk, h.1.symm, h.2.symm⟩

end

/-- Whatever role a node is taken up in, its bindings stand at nodes of it. -/
theorem bindings_from (source : ByteArray) (T : List Tree) (t : Tree) (role : Role)
    (hfits : role.Fits t) (ht : t.walk ⊆ T) (hn : ∀ n ∈ role.names, n.From source T) :
    EachOf (·.From source T) (bindings source role t) := by
  induction t using Tree.by_children generalizing role with
  | h t ih =>
    have hmade := bindings_made source hfits
    generalize bindings source role t = bs at hmade
    induction hmade with
    | nil => trivial
    | append _ _ h h' => exact h.append h'
    | scope _ h => exact h.scope
    | act ha => exact .act (ha.isFrom ht hn)
    | child hc hfits' hnames =>
      apply ih _ hc _ hfits' (fun x hx => ht (Tree.child_mem_walk hc hx))
      intro n hn'
      exact (hnames n hn').isFrom ht nofun

/-- Kinds of nodes that open a scope of their own. -/
def opensScope : Kind → Bool
  | .block | .funcLiteral | .ifStatement | .forStatement | .expressionSwitchStatement
  | .typeSwitchStatement | .selectStatement | .expressionCase | .typeCase | .communicationCase
  | .defaultCase => true
  | _ => false

theorem bindings_of_opensScope (source : ByteArray) {t : Tree} (h : opensScope t.kind = true) :
    ∃ body, bindings source .plain t = [.scope body] := by
  obtain ⟨k, f, s, cs⟩ := t
  cases k <;> first | (cases h; done) | exact ⟨_, rfl⟩

/-- The spans of the children of each node lie in the span of the node. -/
def Nested (t : Tree) : Prop :=
  ∀ u ∈ t.walk, ∀ c ∈ u.children, u.start ≤ c.start ∧ c.stop ≤ u.stop

theorem Nested.child {t c : Tree} (h : Nested t) (hc : c ∈ t.children) : Nested c :=
  fun u hu => h u (Tree.child_mem_walk hc hu)

theorem Nested.walk {t : Tree} (h : Nested t) : ∀ x ∈ t.walk, t.start ≤ x.start ∧ x.stop ≤ t.stop := by
  induction t using Tree.by_children with
  | h t ih =>
    intro x hx
    rcases Tree.mem_walk_iff.mp hx with rfl | ⟨c, hc, hx⟩
    · exact ⟨Nat.le_refl _, Nat.le_refl _⟩
    · obtain ⟨hstart, hstop⟩ := h t t.self_mem_walk c hc
      obtain ⟨hstart', hstop'⟩ := ih c hc (h.child hc) x hx
      exact ⟨hstart.trans hstart', hstop'.trans hstop⟩

/-- What a node that is taken up as a plain one can change: the innermost scope, and not even that if
it opens one of its own; and what is recorded in its file at its own bytes. -/
theorem followAll_frame (source : ByteArray) (e : Surroundings) (s : State) {t : Tree}
    (ht : Nested t) :
    (s.followAll e (bindings source .plain t)).scope.tail = s.scope.tail ∧
    (opensScope t.kind = true → (s.followAll e (bindings source .plain t)).scope = s.scope) ∧
    (∀ spot, (s.followAll e (bindings source .plain t)).info.defs.lookup spot
        ≠ s.info.defs.lookup spot →
      ∃ x ∈ t.walk, spot = ⟨e.file, x.start⟩ ∧ t.start ≤ x.start ∧ x.stop ≤ t.stop) ∧
    (∀ spot, (s.followAll e (bindings source .plain t)).info.uses.lookup spot
        ≠ s.info.uses.lookup spot →
      ∃ x ∈ t.walk, spot = ⟨e.file, x.start⟩ ∧ t.start ≤ x.start ∧ x.stop ≤ t.stop) ∧
    ∀ extent, (s.followAll e (bindings source .plain t)).info.types.lookup extent
        ≠ s.info.types.lookup extent →
      ∃ x ∈ t.walk, extent = ⟨e.file, x.start, x.stop⟩ ∧ t.start ≤ x.start ∧ x.stop ≤ t.stop := by
  have hfrom := bindings_from source t.walk t .plain trivial (List.Subset.refl _) nofun
  have hdiff := State.DiffersAt.followAll (e := e) _ s hfrom
  have hwithin : ∀ {P : Tree → Prop}, (∃ x ∈ t.walk, P x) →
      ∃ x ∈ t.walk, P x ∧ t.start ≤ x.start ∧ x.stop ≤ t.stop := by
    rintro P ⟨x, hx, hP⟩
    exact ⟨x, hx, hP, ht.walk x hx⟩
  refine ⟨State.tail_followAll e _ s, ?_, fun spot hne => hwithin (hdiff.defs spot hne),
    fun spot hne => hwithin (hdiff.uses spot hne), fun extent hne => hwithin (hdiff.types extent hne)⟩
  intro hopens
  obtain ⟨body, hbody⟩ := bindings_of_opensScope source hopens
  rw [hbody, State.followAll, State.followAll, State.follow_scope]

def shortText : ByteArray :=
  "\x7bx := 1\x7d".toUTF8

def shortBlock : Tree :=
  .node .block none ⟨0, 8, ⟨0, 0⟩, ⟨0, 8⟩⟩ [
    .node (.token "\x7b") none ⟨0, 1, ⟨0, 0⟩, ⟨0, 1⟩⟩ [],
    .node .statementList none ⟨1, 7, ⟨0, 1⟩, ⟨0, 7⟩⟩ [
      .node .shortVarDeclaration none ⟨1, 7, ⟨0, 1⟩, ⟨0, 7⟩⟩ [
        .node .expressionList (some .left) ⟨1, 2, ⟨0, 1⟩, ⟨0, 2⟩⟩ [
          .node .identifier none ⟨1, 2, ⟨0, 1⟩, ⟨0, 2⟩⟩ []],
        .node (.token ":=") none ⟨3, 5, ⟨0, 3⟩, ⟨0, 5⟩⟩ [],
        .node .expressionList (some .right) ⟨6, 7, ⟨0, 6⟩, ⟨0, 7⟩⟩ [
          .node .intLiteral none ⟨6, 7, ⟨0, 6⟩, ⟨0, 7⟩⟩ []]]],
    .node (.token "\x7d") none ⟨7, 8, ⟨0, 7⟩, ⟨0, 8⟩⟩ []]

/-- The variable is recorded where the block names it, and no scope keeps it. -/
theorem followAll_frame_short :
    Nested shortBlock ∧ opensScope shortBlock.kind = true ∧
      (State.followAll ⟨"a.go", "p", [], []⟩ { scope := [[]] }
        (bindings shortText .plain shortBlock)).scope = [[]] ∧
      (State.followAll ⟨"a.go", "p", [], []⟩ { scope := [[]] }
        (bindings shortText .plain shortBlock)).info.defs.lookup ⟨"a.go", 1⟩ ≠ none ∧
      ∃ x ∈ shortBlock.walk, (⟨"a.go", 1⟩ : Spot) = ⟨"a.go", x.start⟩ ∧
        shortBlock.start ≤ x.start ∧ x.stop ≤ shortBlock.stop := by
  have hnested : Nested shortBlock := by
    unfold Nested
    decide
  have hdefined : (State.followAll ⟨"a.go", "p", [], []⟩ { scope := [[]] }
      (bindings shortText .plain shortBlock)).info.defs.lookup ⟨"a.go", 1⟩ ≠ none := by
    decide +kernel
  obtain ⟨-, hscope, hdefs, -⟩ :=
    followAll_frame shortText ⟨"a.go", "p", [], []⟩ { scope := [[]] } hnested
  exact ⟨hnested, rfl, hscope rfl, hdefined, hdefs _ hdefined⟩

end GoAtlas.Check
