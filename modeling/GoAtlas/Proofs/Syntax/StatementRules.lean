import GoAtlas.Syntax.Grammar.Statements
import GoAtlas.Proofs.Syntax.DeclarationRules

namespace GoAtlas.Syntax.Grammar.Lays

open Rule

variable {C : Ground} {ts : Array Token} {g : Grammar} {k : Kind} {i j : Nat}

/-- A simple statement, with what it is laid out as when it is the condition of a branch or the
subject of a type switch. -/
structure Simple (C : Ground) (ts : Array Token) (i j : Nat) (s : Tree) : Prop where
  reads : Reads C ts Kind.isSimple i j s
  expression : ∀ e, plainExpression? s = some e → Reads C ts Kind.isExpression i j e
  subject : ∀ cs, typeSubject? s = some cs → ReadsRow C ts .typeSwitchStatement i j cs

theorem Listed.single {list e : Tree} (h : Listed C ts i j list) (he : single? list = some e) :
    Reads C ts Kind.isExpression i j e := by
  refine h.2 e ?_
  unfold single? at he
  split at he
  · next hc => exact hc.trans (by simpa using he)
  · cases he

theorem Simple.statement {s : Tree} (h : Simple C ts i j s) : Reads C ts Kind.isStatement i j s :=
  h.reads.imp fun _ hk => Kind.isStatement_of_isSimple hk

/-- A statement that is neither a bare expression nor a short declaration. -/
theorem Simple.other {s : Tree} (hs : Reads C ts Kind.isSimple i j s)
    (he : plainExpression? s = none) (ht : typeSubject? s = none) : Simple C ts i j s :=
  ⟨hs, fun e h => by simp [he] at h, fun cs h => by simp [ht] at h⟩

theorem Simple.bare {e : Tree} (he : Reads C ts Kind.isExpression i j e) :
    Simple C ts i j (.spanning .expressionStatement [e]) := by
  refine ⟨.spanning (he.plain 0 rfl (ReadsRow.nil j)) (by simp) rfl rfl, ?_, ?_⟩
  · rintro _ ⟨⟩
    exact he
  · rintro _ ⟨⟩
    exact he.part 2 rfl (ReadsRow.nil j)

theorem Simple.short {l m : Nat} {left define right : Tree} (hleft : Listed C ts i j left)
    (hdefine : Reads C ts (Kind.among [.token ":="]) j l define) (hright : Listed C ts l m right) :
    Simple C ts i m
      (.spanning .shortVarDeclaration [left.withField .left, define, right.withField .right]) := by
  have hsign : Reads C ts Kind.isToken j l define := hdefine.one rfl
  refine ⟨?_, fun e he => ?_, fun cs hcs => ?_⟩
  · refine .ofRow (hleft.1.part 0 rfl (hsign.sign (hright.1.part 1 rfl (ReadsRow.nil m))))
      (by simp) rfl rfl ⟨fun _ _ => ⟨define, by simp, hdefine.kind_eq⟩, nofun, nofun, nofun, nofun,
        nofun, nofun⟩
  · cases he
  · obtain ⟨k, f, s, es⟩ := right
    obtain rfl : k = .expressionList := hright.1.kind_eq
    rcases es with _ | ⟨e, _ | ⟨e', es⟩⟩
    · cases hcs
    · obtain rfl := Option.some.inj hcs
      rw [Tree.withField_withField]
      exact hleft.1.part 1 rfl (hsign.sign ((hright.2 e rfl).part 2 rfl (ReadsRow.nil m)))
    · cases hcs

section
variable (h : g.Lays C ts)
include h

theorem simpleFrom (header : Bool) {list : Tree} (hlist : Listed C ts i j list) :
    Post ts (simpleFrom g header list) j fun s l => Simple C ts i l s := by
  refine (still_ahead 0).bind fun o => ?_
  dsimp only
  generalize o.getD default = t
  split
  · refine (h.lexed.symbolText ":=").bind fun define l hdefine => ?_
    exact (h.expressionList header).bind fun right m hright => .pure (.short hlist hdefine hright)
  split
  · refine h.lexed.next.bind fun op l hop => ?_
    have hop : Reads C ts Kind.isToken j l op.leaf := hop.leaf rfl
    refine (h.expressionList header).bind fun right m hright => .pure (.other ?_ rfl rfl)
    exact .spanning (hlist.1.part 0 rfl (hop.part 1 rfl (hright.1.part 2 rfl (ReadsRow.nil m))))
      (by simp) rfl rfl
  · cases he : single? list with
    | none => exact .failure
    | some e =>
      have he := hlist.single he
      dsimp only
      split
      · refine (h.lexed.symbol "++").bind fun op l hop => .pure (.other ?_ rfl rfl)
        exact .spanning (he.plain 0 rfl (hop.sign (ReadsRow.nil l))) (by simp) rfl rfl
      · refine (h.lexed.symbol "--").bind fun op l hop => .pure (.other ?_ rfl rfl)
        exact .spanning (he.plain 0 rfl (hop.sign (ReadsRow.nil l))) (by simp) rfl rfl
      · refine (h.lexed.symbol "<-").bind fun arrow l harrow => ?_
        refine (h.expression header).bind fun value m hvalue => .pure (.other ?_ rfl rfl)
        exact .spanning (he.part 0 rfl (harrow.sign (hvalue.part 1 rfl (ReadsRow.nil m)))) (by simp)
          rfl rfl
      · exact .pure (.bare he)

theorem simpleStatement (header : Bool) : (simpleStatement g header).Gives ts (Simple C ts) :=
  fun _ => (h.expressionList header).bind fun _ _ hlist => h.simpleFrom header hlist

/-- A label and its colon, with no statement among them. -/
theorem label : label.Gives ts fun i j cs =>
    cs ≠ [] ∧ cs.filter (·.kind.isStatement) = [] ∧ ReadsRow C ts .labeledStatement i j cs := by
  intro i
  refine (h.lexed.name .labelName rfl).bind fun id j hid => ?_
  refine (h.lexed.symbol ":").bind fun colon l hcolon => .pure ⟨by simp, ?_, ?_⟩
  · have hcolon : colon.kind.isStatement = false := Kind.isStatement_of_isToken hcolon.kind
    have hid : id.kind.isStatement = false := hid.kind_eq ▸ rfl
    simp [hcolon, hid]
  · exact hid.part 0 rfl (hcolon.sign (ReadsRow.nil l))

theorem moreStatements {x : List Tree × Bool} (hx : ReadsRow C ts .statementList i j x.1.reverse) :
    Post ts (moreStatements g x) j fun y l => ReadsRow C ts .statementList i l y.1.reverse := by
  obtain ⟨before, more⟩ := x
  -- the statements are kept latest first, so the new one goes to the end of the row
  have hadd : ∀ {l s}, Reads C ts Kind.isStatement j l s →
      ReadsRow C ts .statementList i l (s :: before).reverse := by
    intro l s hs
    rw [List.reverse_cons]
    exact Row.append hx (hs.plain 0 rfl (ReadsRow.nil l))
  cases more with
  | false => exact .failure
  | true =>
    refine (still_sees 0 _).bind fun ends => (still_require _).bind fun _ => ?_
    refine (still_sees 0 _).bind fun named => (still_seesSymbol 1 ":").bind fun colon => ?_
    refine (still_sees 2 _).bind fun last => ?_
    split
    · refine h.label.bind fun mark l hmark => .pure (hadd ?_)
      exact .labeled hmark.2.2 hmark.1 rfl (by simp [hmark.2.1])
    · refine (h.goal .statement).bind fun s l hs => ?_
      refine h.lexed.terminator.perhaps.bind fun o m ho => ?_
      obtain ⟨rfl, rfl⟩ | ⟨t, rfl, ht⟩ := ho
      · exact .pure (hadd hs)
      · refine .pure ?_
        dsimp only
        rw [List.reverse_cons]
        exact Row.append (hadd hs) (ht.sign (ReadsRow.nil m))

/-- The statements of a block or clause. -/
theorem statementList (n : Nat) (hk : k.parts[n]? = some (none, Kind.among [.statementList])) :
    (statementList g).Gives ts (ReadsRow C ts k) := by
  intro i
  have hstep : ∀ (x : List Tree × Bool) j, ReadsRow C ts .statementList i j x.1.reverse →
      (Grammar.moreStatements g x).Post ts j
        fun y l => ReadsRow C ts .statementList i l y.1.reverse :=
    fun x j hx => h.moreStatements hx
  refine .bind ((iterate_post hstep ([], true) i (.nil i)).imp fun x j hx => .pure ?_)
  split
  · next he =>
    rw [List.isEmpty_iff.mp he] at hx
    exact hx
  · next he =>
    have hne : x.1.reverse ≠ [] := by simpa using he
    exact Piece.plain (.spanning hx hne rfl rfl) n hk (ReadsRow.nil j)

theorem block : (block g).Gives ts (Reads C ts (Kind.among [.block])) :=
  (h.lexed.between _ _ (h.statementList 0 rfl)).map fun _ _ _ hcs => .spanning hcs.2 hcs.1 rfl rfl

theorem ifStatement : (ifStatement g).Gives ts (Reads C ts (Kind.among [.ifStatement])) := by
  have hother : Gives ts (do
      let else_ ← Rule.keyword "else"
      let other ← if ← seesKeyword 0 "if" then g .ifStatement else g .block
      pure [else_, other.withField .alternative]) (ReadsRow C ts .ifStatement) := by
    intro i
    refine (h.lexed.keyword "else").bind fun else_ j helse => ?_
    refine (still_seesKeyword 0 "if").bind fun chained => ?_
    dsimp only
    split
    · refine (h.goal .ifStatement).bind fun other l ho => .pure ?_
      exact helse.sign (Piece.part (ho.one rfl) 3 rfl (ReadsRow.nil l))
    · refine (h.goal .block).bind fun other l ho => .pure ?_
      exact helse.sign (Piece.part (ho.one rfl) 3 rfl (ReadsRow.nil l))
  intro i
  refine (h.lexed.keyword "if").bind fun if_ j hif => ?_
  refine (h.simpleStatement true).bind fun s l hs => ?_
  refine (still_seesSymbol 0 ";").bind fun semicolon => ?_
  have hrest : ∀ head m, ReadsRow C ts .ifStatement j m head → Post ts (do
      let consequence ← g .block
      let alternative ← optional do
        let else_ ← Rule.keyword "else"
        let other ← if ← seesKeyword 0 "if" then g .ifStatement else g .block
        pure [else_, other.withField .alternative]
      pure (Tree.spanning .ifStatement
        (if_ :: head ++ [consequence.withField .consequence] ++ alternative.getD []))) m
      fun t n => Reads C ts (Kind.among [.ifStatement]) i n t := by
    intro head m hhead
    refine (h.goal .block).bind fun consequence n hc => ?_
    refine hother.perhapsRow.bind fun alternative o ha => .pure ?_
    exact .headed hif (Row.append (Row.append hhead (hc.part 2 rfl (ReadsRow.nil n))) ha) rfl rfl
      nofun
  dsimp only
  split
  · refine (h.lexed.symbol ";").bind fun semicolon m hsemicolon => ?_
    refine (h.expression true).bind fun condition n hc => .bind (.pure (hrest _ n ?_))
    exact hs.reads.part 0 rfl (hsemicolon.sign (hc.part 1 rfl (ReadsRow.nil n)))
  · cases hc : plainExpression? s with
    | none => exact .failure
    | some condition =>
      refine .bind (.pure (hrest _ l ?_))
      exact (hs.expression condition hc).part 1 rfl (ReadsRow.nil l)

theorem forClause (initializer : Option Tree) (hi : ReadsRow C ts .forClause i j
    (initializer.map (·.withField .initializer)).toList) :
    Post ts (forClause g initializer) j
      fun t l => Reads C ts (Kind.among [.rangeClause, .forClause]) i l t := by
  refine (h.lexed.symbol ";").bind fun first l hfirst => ?_
  -- the clause from its second semicolon on
  have hupdate : ∀ (condition : Option Tree) m,
      ReadsRow C ts .forClause l m (condition.map (·.withField .condition)).toList →
      Post ts (do
        let second ← Rule.symbol ";"
        let update ← if ← seesSymbol 0 "\x7b" then pure none
          else some <$> Grammar.simpleStatement g true
        pure (Tree.spanning .forClause
          ((initializer.map (·.withField .initializer)).toList ++ [first]
            ++ (condition.map (·.withField .condition)).toList ++ [second]
            ++ (update.map (·.withField .update)).toList))) m
        fun t n => Reads C ts (Kind.among [.rangeClause, .forClause]) i n t := by
    intro condition m hcondition
    refine (h.lexed.symbol ";").bind fun second n hsecond => ?_
    refine (still_seesSymbol 0 _).bind fun brace => ?_
    have hrow : ReadsRow C ts .forClause i n _ :=
      Row.append (Row.append (Row.append hi (hfirst.sign (ReadsRow.nil l))) hcondition)
        (hsecond.sign (ReadsRow.nil n))
    dsimp only
    split
    · exact .bind (.pure (.pure (.spanning (Row.append hrow (ReadsRow.nil n)) (by simp) rfl rfl)))
    · refine .bind ((h.simpleStatement true).bind fun update o hu => .pure (.pure ?_))
      exact .spanning (Row.append hrow (hu.reads.part 2 rfl (ReadsRow.nil o))) (by simp) rfl rfl
  refine (still_seesSymbol 0 ";").bind fun semicolon => ?_
  dsimp only
  split
  · exact .bind (.pure (hupdate none l (.nil l)))
  · refine .bind ((h.expression true).bind fun condition m hc => .pure (hupdate (some condition) m ?_))
    exact hc.part 1 rfl (ReadsRow.nil m)

theorem rangeClause {targets : List Tree} (ht : ReadsRow C ts .rangeClause i j targets) :
    Post ts (rangeClause g targets) j
      fun t l => Reads C ts (Kind.among [.rangeClause, .forClause]) i l t := by
  refine (h.lexed.keyword "range").bind fun range l hrange => ?_
  refine (h.expression true).bind fun right m hright => .pure ?_
  exact .spanning (Row.append ht (hrange.sign (hright.part 1 rfl (ReadsRow.nil m)))) (by simp)
    rfl rfl

theorem forHeader : (forHeader g).Gives ts (ReadsRow C ts .forStatement) := by
  -- a header of one of the two forms with clauses
  have hclause : ∀ {i j : Nat} {r : Rule Tree},
      r.Post ts j (fun t l => Reads C ts (Kind.among [.rangeClause, .forClause]) i l t) →
      Post ts (do pure [← r]) j fun cs l => ReadsRow C ts .forStatement i l cs :=
    fun hr => .bind (hr.imp fun _ l ht => .pure (ht.plain 0 rfl (ReadsRow.nil l)))
  intro i
  refine (still_seesSymbol 0 _).bind fun brace => ?_
  split
  · exact .pure (.nil i)
  refine (still_seesKeyword 0 "range").bind fun range => ?_
  split
  · exact hclause (h.rangeClause (.nil i))
  refine (still_seesSymbol 0 ";").bind fun semicolon => ?_
  split
  · exact hclause (h.forClause none (.nil i))
  refine (h.expressionList true).bind fun list j hlist => ?_
  refine (still_seesKeyword 1 "range").bind fun ranged => (still_seesSymbol 0 ":=").bind fun _ => ?_
  refine (still_seesSymbol 0 "=").bind fun _ => ?_
  split
  · refine h.lexed.next.bind fun assign l ha => ?_
    have ha : Reads C ts Kind.isToken j l assign.leaf := ha.leaf rfl
    exact hclause (h.rangeClause (hlist.1.part 0 rfl (ha.sign (ReadsRow.nil l))))
  · refine .bind ((h.simpleFrom true hlist).imp fun s l hs => ?_)
    refine (still_seesSymbol 0 ";").bind fun semicolon => ?_
    split
    · exact hclause (h.forClause (some s) (hs.reads.part 0 rfl (ReadsRow.nil l)))
    · cases hc : plainExpression? s with
      | none => exact .failure
      | some condition => exact .pure ((hs.expression condition hc).plain 1 rfl (ReadsRow.nil l))

theorem forStatement : (forStatement g).Gives ts (Reads C ts Kind.isStatement) := by
  intro i
  refine (h.lexed.keyword "for").bind fun for_ j hfor => ?_
  refine h.forHeader.bind fun header l hheader => ?_
  refine (h.goal .block).bind fun body m hbody => .pure ?_
  exact .spanning (hfor.sign (Row.append hheader (hbody.part 2 rfl (ReadsRow.nil m)))) (by simp)
    rfl rfl

theorem clause (n : Nat) (hk : k.parts[n]? = some (none, Kind.among [.statementList]))
    (hloose : k.isLoose = true) {head : Rule (List Tree)} (hh : head.Gives ts (ReadsRow C ts k)) :
    (clause g k head).Gives ts (Reads C ts (Kind.among [k])) := by
  intro i
  refine hh.bind fun head j hhead => ?_
  refine (h.lexed.symbol ":").bind fun colon l hcolon => ?_
  refine (h.statementList n hk).bind fun list m hlist => .pure ?_
  exact .spanning (Row.append hhead (hcolon.sign hlist)) (by simp) (by simp [Kind.among]) hloose

theorem defaultCase : (defaultCase g).Gives ts (Reads C ts (Kind.among [.defaultCase])) :=
  h.clause 0 rfl rfl fun _ =>
    (h.lexed.keyword "default").bind fun _ j ht => .pure (ht.sign (ReadsRow.nil j))

theorem expressionCase : (expressionCase g).Gives ts (Reads C ts (Kind.among [.expressionCase])) := by
  refine h.clause 1 rfl rfl fun i => ?_
  refine (h.lexed.keyword "case").bind fun case_ j hcase => ?_
  refine (h.expressionList false).bind fun list l hlist => .pure ?_
  exact hcase.sign (hlist.1.part 0 rfl (ReadsRow.nil l))

theorem typeCase : (typeCase g).Gives ts (Reads C ts (Kind.among [.typeCase])) := by
  have htypes := h.lexed.commaListIn (k := .typeCase) (f := .type) h.type
    (fun c hc => Kind.admits_part 0 rfl hc) (Kind.admits_part 1 rfl rfl)
  refine h.clause 2 rfl rfl fun i => ?_
  refine (h.lexed.keyword "case").bind fun case_ j hcase => ?_
  exact htypes.bind fun types l htypes => .pure (hcase.sign htypes.2)

theorem clauses {c : Rule Tree} (hc : c.Gives ts fun i j t => ReadsRow C ts k i j [t])
    (hd : ∀ i j t, Reads C ts (Kind.among [.defaultCase]) i j t → ReadsRow C ts k i j [t]) :
    (clauses g c).Gives ts (ReadsRow C ts k) := by
  have hitem := hc.orElse (h.defaultCase.imp hd)
  have hitems : (many (c <|> Grammar.defaultCase g)).Gives ts (ReadsRow C ts k) :=
    hitem.many.imp fun _ _ _ hcs => ReadsRow.ofChain (fun _ _ _ ht => ht) hcs
  exact (h.lexed.between _ _ hitems).imp fun _ _ _ hcs => hcs.2

theorem typeMark : typeMark.Gives ts (ReadsRow C ts k) := by
  intro i
  refine (h.lexed.symbol ".").bind fun dot j hdot => ?_
  have hinner : Gives ts (do pure [← Rule.keyword "type"]) (ReadsRow C ts k) :=
    fun _ => (h.lexed.keyword "type").bind fun _ j ht => .pure (ht.sign (ReadsRow.nil j))
  exact (h.lexed.between _ _ hinner).bind fun rest l hrest => .pure (hdot.sign hrest.2)

theorem switchRest {before : List Tree} (hne : before ≠ [])
    (hb : ∀ k : Kind, k.parts[0]? = some (some .initializer, Kind.isSimple) →
      ReadsRow C ts k i j before) :
    Post ts (switchRest g before) j fun t l => Reads C ts Kind.isStatement i l t := by
  have hexpressions : (Grammar.clauses g (Grammar.expressionCase g)).Gives ts
      (ReadsRow C ts .expressionSwitchStatement) :=
    h.clauses (h.expressionCase.imp fun _ j _ ht => Piece.plain (ht.one rfl) 2 rfl (ReadsRow.nil j))
      fun _ j _ ht => Piece.plain (ht.one rfl) 2 rfl (ReadsRow.nil j)
  have htypes : (Grammar.clauses g (Grammar.typeCase g)).Gives ts
      (ReadsRow C ts .typeSwitchStatement) :=
    h.clauses (h.typeCase.imp fun _ j _ ht => Piece.plain (ht.one rfl) 3 rfl (ReadsRow.nil j))
      fun _ j _ ht => Piece.plain (ht.one rfl) 3 rfl (ReadsRow.nil j)
  have hbefore : ReadsRow C ts .expressionSwitchStatement i j before := hb _ rfl
  refine (still_seesSymbol 0 _).bind fun brace => ?_
  split
  · refine hexpressions.bind fun cases l hc => .pure ?_
    exact .spanning (Row.append hbefore hc) (by simp [hne]) rfl rfl
  refine (h.simpleStatement true).bind fun s l hs => ?_
  refine (still_seesSymbol 0 ".").bind fun dotted => ?_
  split
  · cases hsubject : typeSubject? s with
    | none => exact .failure
    | some subject =>
      refine (h.typeMark (k := .typeSwitchStatement)).bind fun mark m hmark => ?_
      refine htypes.bind fun cases n hc => .pure ?_
      have hrow : ReadsRow C ts .typeSwitchStatement i m _ :=
        Row.append (Row.append (hb _ rfl) (hs.subject subject hsubject)) hmark
      exact .spanning (Row.append hrow hc) (by simp [hne]) rfl rfl
  · cases hvalue : plainExpression? s with
    | none => exact .failure
    | some value =>
      refine hexpressions.bind fun cases m hc => .pure ?_
      exact .spanning (Row.append hbefore ((hs.expression value hvalue).part 1 rfl hc))
        (by simp [hne]) rfl rfl

theorem switchStatement : (switchStatement g).Gives ts (Reads C ts Kind.isStatement) := by
  have hinitializer : ∀ k : Kind, k.parts[0]? = some (some .initializer, Kind.isSimple) →
      Gives ts (do
        let s ← Grammar.simpleStatement g true
        pure [s.withField .initializer, ← Rule.symbol ";"]) (ReadsRow C ts k) := by
    intro k hk i
    refine (h.simpleStatement true).bind fun s j hs => ?_
    refine (h.lexed.symbol ";").bind fun semicolon l hsemicolon => .pure ?_
    exact hs.reads.part 0 hk (hsemicolon.sign (ReadsRow.nil l))
  intro i
  refine (h.lexed.keyword "switch").bind fun switch j hswitch => .bind fun initializer l hi => ?_
  refine h.switchRest (by simp) fun k hk => ?_
  exact hswitch.sign ((hinitializer k hk).perhapsRow j initializer l hi)

theorem communication : (communication g).Gives ts
    (Reads C ts (Kind.among [.sendStatement, .receiveStatement])) := by
  intro i
  refine (h.expressionList false).bind fun list j hlist => ?_
  refine (still_seesSymbol 0 ":=").bind fun _ => (still_seesSymbol 0 "=").bind fun _ => ?_
  split
  · refine h.lexed.next.bind fun assign l ha => ?_
    have ha : Reads C ts Kind.isToken j l assign.leaf := ha.leaf rfl
    refine (h.expression false).bind fun right m hright => .pure ?_
    exact .spanning (hlist.1.part 0 rfl (ha.sign (hright.part 1 rfl (ReadsRow.nil m)))) (by simp)
      rfl rfl
  · cases he : single? list with
    | none => exact .failure
    | some e =>
      have he := hlist.single he
      refine (still_seesSymbol 0 "<-").bind fun arrow => ?_
      split
      · refine (h.lexed.symbol "<-").bind fun arrow l harrow => ?_
        refine (h.expression false).bind fun value m hvalue => .pure ?_
        exact .spanning (he.part 0 rfl (harrow.sign (hvalue.part 1 rfl (ReadsRow.nil m)))) (by simp)
          rfl rfl
      · exact .pure (.spanning (he.part 1 rfl (ReadsRow.nil j)) (by simp) rfl rfl)

theorem communicationCase :
    (communicationCase g).Gives ts (Reads C ts (Kind.among [.communicationCase])) := by
  refine h.clause 1 rfl rfl fun i => ?_
  refine (h.lexed.keyword "case").bind fun case_ j hcase => ?_
  refine h.communication.bind fun t l ht => .pure ?_
  exact hcase.sign (ht.part 0 rfl (ReadsRow.nil l))

theorem selectStatement : (selectStatement g).Gives ts (Reads C ts Kind.isStatement) := by
  have hclauses : (Grammar.clauses g (Grammar.communicationCase g)).Gives ts
      (ReadsRow C ts .selectStatement) :=
    h.clauses
      (h.communicationCase.imp fun _ j _ ht => Piece.plain (ht.one rfl) 0 rfl (ReadsRow.nil j))
      fun _ j _ ht => Piece.plain (ht.one rfl) 0 rfl (ReadsRow.nil j)
  intro i
  refine (h.lexed.keyword "select").bind fun select j hselect => ?_
  exact hclauses.bind fun cases l hc => .pure (.spanning (hselect.sign hc) (by simp) rfl rfl)

theorem jump (word : String) (hk : k.parts = [(none, Kind.among [.labelName])])
    (hs : k.isStatement = true) (hloose : k.isLoose = true) :
    (jump word k).Gives ts (Reads C ts Kind.isStatement) := by
  intro i
  refine (h.lexed.keyword word).bind fun w j hw => ?_
  refine (h.lexed.name .labelName rfl).perhaps.bind fun o l ho => .pure ?_
  obtain ⟨rfl, rfl⟩ | ⟨id, rfl, hid⟩ := ho
  · exact .spanning (hw.sign (ReadsRow.nil j)) (by simp) hs hloose
  · have hid : ReadsRow C ts k j l [id] := hid.plain 0 (by rw [hk]; rfl) (ReadsRow.nil l)
    exact .spanning (hw.sign hid) (by simp) hs hloose

theorem started (word : String) (hk : k.parts = [(none, Kind.isExpression)])
    (hs : k.isStatement = true) (hloose : k.isLoose = true) :
    (started g word k).Gives ts (Reads C ts Kind.isStatement) := by
  intro i
  refine (h.lexed.keyword word).bind fun w j hw => ?_
  refine (h.expression false).bind fun e l he => .pure ?_
  have he : ReadsRow C ts k j l [e] := he.plain 0 (by rw [hk]; rfl) (ReadsRow.nil l)
  exact .spanning (hw.sign he) (by simp) hs hloose

theorem returnStatement : (returnStatement g).Gives ts (Reads C ts Kind.isStatement) := by
  intro i
  refine (h.lexed.keyword "return").bind fun return_ j hreturn => ?_
  refine (h.expressionList false).perhaps.bind fun o l ho => .pure ?_
  obtain ⟨rfl, rfl⟩ | ⟨list, rfl, hlist⟩ := ho
  · exact .headed hreturn (ReadsRow.nil j) rfl rfl nofun
  · exact .headed hreturn (hlist.1.plain 0 rfl (ReadsRow.nil l)) rfl rfl nofun

theorem gotoStatement : gotoStatement.Gives ts (Reads C ts Kind.isStatement) := by
  intro i
  refine (h.lexed.keyword "goto").bind fun goto_ j hgoto => ?_
  refine (h.lexed.name .labelName rfl).bind fun id l hid => .pure ?_
  exact .spanning (hgoto.sign (hid.plain 0 rfl (ReadsRow.nil l))) (by simp) rfl rfl

theorem labeledStatement : (labeledStatement g).Gives ts (Reads C ts Kind.isStatement) := by
  intro i
  refine h.label.bind fun mark j hmark => ?_
  refine (h.goal .statement).bind fun s l hs => .pure ?_
  refine .labeled (Row.append hmark.2.2 (hs.plain 1 rfl (ReadsRow.nil l))) (by simp) rfl ?_
  rw [List.filter_append, hmark.2.1, List.nil_append]
  exact List.length_filter_le _ [s]

theorem statementRule : (statementRule g).Gives ts (Reads C ts Kind.isStatement) := by
  intro i
  refine (still_ahead 0).bind fun o => ?_
  cases o with
  | none => exact .failure
  | some t =>
    dsimp only
    split
    · exact (h.constDeclaration i).imp fun _ _ ht => ht.one rfl
    · exact (h.varDeclaration i).imp fun _ _ ht => ht.one rfl
    · exact (h.typeDeclaration i).imp fun _ _ ht => ht.one rfl
    · exact h.returnStatement i
    · exact h.started "go" rfl rfl rfl i
    · exact h.started "defer" rfl rfl rfl i
    · exact (h.goal .ifStatement i).imp fun _ _ ht => ht.one rfl
    · exact h.forStatement i
    · exact h.switchStatement i
    · exact h.selectStatement i
    · refine .bind ((h.lexed.keyword _).bind fun w j hw => .pure (.pure ?_))
      exact .spanning (hw.sign (ReadsRow.nil j)) (by simp) rfl rfl
    · exact h.jump "break" rfl rfl rfl i
    · exact h.jump "continue" rfl rfl rfl i
    · exact h.gotoStatement i
    · exact (h.goal .block i).imp fun _ _ ht => ht.one rfl
    · exact (h.lexed.symbolAs _ _ rfl rfl i).imp fun _ _ ht => ht.one rfl
    · refine (still_seesSymbol 1 ":").bind fun labelled => ?_
      split
      · exact h.labeledStatement i
      · exact (h.simpleStatement false i).imp fun _ _ hs => hs.statement
    · exact (h.simpleStatement false i).imp fun _ _ hs => hs.statement

end

end GoAtlas.Syntax.Grammar.Lays
