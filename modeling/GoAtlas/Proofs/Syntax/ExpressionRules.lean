import GoAtlas.Syntax.Grammar.Expressions
import GoAtlas.Proofs.Syntax.TypeRules

namespace GoAtlas.Syntax.Grammar.Lays

open Rule

variable {C : Ground} {ts : Array Token} {g : Grammar} {k : Kind} {K : Kind → Bool} {i j : Nat}

section
variable (h : g.Lays C ts)
include h

theorem literalElement :
    (literalElement g).Gives ts (Reads C ts (Kind.among [.literalElement])) := by
  intro i
  refine (still_seesSymbol 0 _).bind fun brace => ?_
  dsimp only
  split
  · refine (h.goal .literalValue).bind fun body j hbody => ?_
    refine h.lexed.lineBreaks.bind fun _ l hle => .pure ?_
    exact .spanning (hbody.plain 0 rfl hle) (by simp) rfl rfl
  · refine (h.expression false).bind fun body j hbody => ?_
    refine h.lexed.lineBreaks.bind fun _ l hle => .pure ?_
    exact .spanning (hbody.plain 1 rfl hle) (by simp) rfl rfl

theorem literalMember : (literalMember g).Gives ts
    (Reads C ts (Kind.among [.literalElement, .keyedElement])) := by
  intro i
  refine h.literalElement.bind fun element j helement => ?_
  refine (still_seesSymbol 0 ":").bind fun colon => ?_
  split
  · refine (h.lexed.symbol ":").bind fun colon l hcolon => ?_
    refine h.literalElement.bind fun value m hvalue => .pure ?_
    exact .spanning (helement.part 0 rfl (hcolon.sign (hvalue.part 1 rfl (ReadsRow.nil m))))
      (by simp) rfl rfl
  · exact .pure (helement.one rfl)

/-- Items with commas between and after them, if there are any. -/
theorem items {r : Rule Tree} (hr : r.Gives ts fun i j t => ReadsRow C ts k i j [t]) :
    Gives ts (do
      match ← optional (commaList r) with
      | some items => pure (items ++ (← trailingComma))
      | none => pure []) (ReadsRow C ts k) := by
  intro i
  refine (h.lexed.commaList hr).perhaps.bind fun o j ho => ?_
  obtain ⟨rfl, rfl⟩ | ⟨items, rfl, hitems⟩ := ho
  · exact .pure (.nil i)
  · exact h.lexed.trailingComma.bind fun comma l hcomma => .pure (Row.append hitems.2 hcomma)

theorem literalValue : (literalValue g).Gives ts (Reads C ts (Kind.among [.literalValue])) := by
  have hitem : (Grammar.literalMember g).Gives ts fun i j t => ReadsRow C ts .literalValue i j [t] :=
    h.literalMember.imp fun _ j _ ht => ht.plain 0 rfl (ReadsRow.nil j)
  exact (h.lexed.between _ _ (h.items hitem)).map fun _ _ _ hcs => .spanning hcs.2 hcs.1 rfl rfl

theorem compositeLiteral {type : Tree} (ht : Reads C ts K i j type) (n : Nat)
    (hp : (Kind.parts .compositeLiteral)[n]? = some (some .type, K)) :
    Post ts (compositeLiteral g type) j fun t l => Reads C ts Kind.isExpression i l t := by
  refine (h.goal .literalValue).bind fun body l hbody => .pure ?_
  exact .spanning (ht.part n hp (hbody.part 2 rfl (ReadsRow.nil l))) (by simp) rfl rfl

theorem argument : (argument g).Gives ts fun i j t => ReadsRow C ts .argumentList i j [t] := by
  intro i
  refine (h.expression false).bind fun e j he => ?_
  refine (h.lexed.symbol "...").perhaps.bind fun o l ho => ?_
  obtain ⟨rfl, rfl⟩ | ⟨dots, rfl, hdots⟩ := ho
  · exact .pure (he.plain 0 rfl (ReadsRow.nil j))
  · have hrow : ReadsRow C ts .variadicArgument i l _ :=
      he.plain 0 rfl (hdots.sign (ReadsRow.nil l))
    exact .pure (Piece.plain (.spanning hrow (by simp) rfl rfl) 2 rfl (ReadsRow.nil l))

theorem argumentList : (argumentList g).Gives ts (Reads C ts (Kind.among [.argumentList])) :=
  (h.lexed.between _ _ (h.items h.argument)).map fun _ _ _ hcs => .spanning hcs.2 hcs.1 rfl rfl

theorem allocationItems : Gives ts (do
    match ← optional (g .type) with
    | none => pure []
    | some type =>
      let more ← many do
        let comma ← symbol ","
        pure [comma, ← g (.expression false)]
      pure (type :: more.flatten ++ (← trailingComma))) (ReadsRow C ts .argumentList) := by
  have hmore : Gives ts (do let comma ← symbol ","; pure [comma, ← g (.expression false)])
      (ReadsRow C ts .argumentList) := by
    intro i
    refine (h.lexed.symbol ",").bind fun comma j hcomma => ?_
    exact (h.expression false).bind fun e l he =>
      .pure (hcomma.sign (he.plain 0 rfl (ReadsRow.nil l)))
  intro i
  refine h.type.perhaps.bind fun o j ho => ?_
  obtain ⟨rfl, rfl⟩ | ⟨type, rfl, htype⟩ := ho
  · exact .pure (.nil i)
  · refine hmore.many.bind fun more l hmore => ?_
    refine (h.lexed.trailingComma (k := .argumentList)).bind fun comma m hcomma => .pure ?_
    exact Row.append (htype.plain 1 rfl (ReadsRow.flatten hmore)) hcomma

theorem allocationArguments :
    (allocationArguments g).Gives ts (Reads C ts (Kind.among [.argumentList])) :=
  (h.lexed.between _ _ h.allocationItems).map fun _ _ _ hcs => .spanning hcs.2 hcs.1 rfl rfl

end

theorem call {function arguments : Tree} {l : Nat} (hf : Reads C ts Kind.isExpression i j function)
    (ha : Reads C ts (Kind.among [.argumentList]) j l arguments) :
    Reads C ts Kind.isExpression i l (call function arguments) :=
  .inOrder (hf.part 0 rfl (ha.part 1 rfl (ReadsRow.nil l))) (by simp) rfl rfl (by simp)

section
variable (h : g.Lays C ts)
include h

theorem conversion {type : Tree} (ht : Reads C ts Kind.isType i j type) :
    Post ts (conversion g type) j fun t l => Reads C ts Kind.isExpression i l t := by
  have hinner : Gives ts (do
      let operand ← g (.expression false)
      pure (operand.withField .operand :: (← trailingComma)))
      (ReadsRow C ts .typeConversionExpression) := by
    intro i
    refine (h.expression false).bind fun operand j ho => ?_
    exact h.lexed.trailingComma.bind fun comma l hcomma => .pure (ho.part 0 rfl hcomma)
  refine (h.lexed.between _ _ hinner).bind fun rest l hrest => .pure ?_
  exact .spanning (ht.part 1 rfl hrest.2) (by simp) rfl rfl

theorem typeOperand : (typeOperand g).Gives ts (Reads C ts Kind.isExpression) := by
  intro i
  refine .orElse ?_ ?_
  · refine (h.lexed.symbol "[").bind fun o j ho => ?_
    refine (h.lexed.symbol "...").bind fun dots l hdots => ?_
    refine (h.lexed.symbol "]").bind fun c m hc => ?_
    refine h.type.bind fun element n he => ?_
    have hrow : ReadsRow C ts .implicitLengthArrayType i n _ :=
      ho.sign (hdots.sign (hc.sign (he.part 0 rfl (ReadsRow.nil n))))
    exact h.compositeLiteral (.spanning hrow (by simp) rfl rfl) 1 rfl
  · refine h.type.bind fun type j htype => ?_
    refine (still_seesSymbol 0 _).bind fun brace => ?_
    split
    · exact h.compositeLiteral htype 0 rfl
    · exact h.conversion htype

theorem funcLiteral : (funcLiteral g).Gives ts (Reads C ts Kind.isExpression) := by
  intro i
  refine (h.lexed.keyword "func").bind fun func j hfunc => ?_
  refine h.signature.bind fun sig l hsig => ?_
  refine (h.goal .block).bind fun body m hbody => .pure ?_
  have hsig : ReadsRow C ts .funcLiteral j l sig := hsig.grow (List.subset_cons_self _ _)
  exact .spanning (hfunc.sign (Row.append hsig (hbody.part 0 rfl (ReadsRow.nil m)))) (by simp)
    rfl rfl

theorem parenthesized : (parenthesized g).Gives ts (Reads C ts Kind.isExpression) := by
  have hinner : Gives ts (do pure [← g (.expression false)])
      (ReadsRow C ts .parenthesizedExpression) :=
    fun i => (h.expression false).bind fun e j he => .pure (he.plain 0 rfl (ReadsRow.nil j))
  intro i
  refine .orElse ?_ (.orElse ?_ ?_)
  · refine h.parenthesizedType.bind fun type j htype => ?_
    exact (still_require _).bind fun _ => h.conversion (htype.one rfl)
  · exact (h.lexed.between _ _ hinner).map (fun _ _ _ hcs => .spanning hcs.2 hcs.1 rfl rfl) i
  · exact h.parenthesizedType.bind fun type j htype => h.conversion (htype.one rfl)

end

def Operand (C : Ground) (ts : Array Token) (i j : Nat) (x : Tree × Bool) : Prop :=
  Reads C ts Kind.isExpression i j x.1 ∧
    (x.2 = true → ∀ t, asTypeName? x.1 = some t → Reads C ts Kind.isTypeName i j t)

theorem isExpression_nameKind (text : String) : (nameKind text).isExpression = true := by
  unfold nameKind
  split <;> rfl

theorem isLeaf_nameKind (text : String) : (nameKind text).isLeaf = true := by
  unfold nameKind
  split <;> rfl

theorem isExpression_literalKind {cls : TokenClass} (hk : literalKind cls = some k) :
    k.isExpression = true ∧ k.isIdentifier = false ∧ k.isLeaf = true := by
  cases cls <;> cases hk <;> exact ⟨rfl, rfl, rfl⟩

theorem asTypeName_identifier {e t : Tree} (he : Reads C ts (Kind.among [.identifier]) i j e)
    (ht : asTypeName? e = some t) : Reads C ts Kind.isTypeName i j t := by
  have hname := (Piece.withKind he rfl .typeIdentifier rfl).one (K := Kind.isTypeName) rfl
  obtain ⟨k, f, s, cs⟩ := e
  obtain rfl : k = .identifier := he.kind_eq
  obtain rfl := Option.some.inj ht
  exact hname

theorem asTypeName_selector {l m : Nat} {e dot field t : Tree}
    (he : Reads C ts (Kind.among [.identifier]) i j e) (hdot : Reads C ts Kind.isToken j l dot)
    (hfield : Reads C ts (Kind.among [.fieldIdentifier]) l m field)
    (ht : asTypeName? (.spanning .selectorExpression
      [e.withField .operand, dot, field.withField .field]) = some t) :
    Reads C ts Kind.isTypeName i m t := by
  have hpackage := Piece.withKind he rfl .packageIdentifier rfl
  have hname := Piece.withKind hfield rfl .typeIdentifier rfl
  have hrow : ReadsRow C ts .qualifiedType i m _ :=
    hpackage.part 0 rfl (hdot.sign (hname.part 1 rfl (ReadsRow.nil m)))
  have hall : Reads C ts Kind.isTypeName i m _ := .spanning hrow (by simp) rfl rfl
  have hleaf := (he.laid.mark (he.kind_eq ▸ rfl)).1
  have hleaf' := (hfield.laid.mark (hfield.kind_eq ▸ rfl)).1
  obtain ⟨k, f, s, cs⟩ := e
  obtain ⟨k', f', s', cs'⟩ := field
  obtain rfl : k = .identifier := he.kind_eq
  obtain rfl : k' = .fieldIdentifier := hfield.kind_eq
  obtain rfl : cs = [] := hleaf
  obtain rfl : cs' = [] := hleaf'
  obtain rfl := Option.some.inj ht
  exact hall

theorem isExpression_of_isString (k : Kind) (hk : k.isString = true) : k.isExpression = true := by
  cases k <;> simp_all [Kind.isString, Kind.isExpression]

/-- An operand that does not stand for a type. -/
theorem value {r : Rule Tree} (hr : r.Post ts j fun t l => Reads C ts Kind.isExpression i l t) :
    Post ts (do pure (← r, false)) j fun x l => Operand C ts i l x :=
  .bind (hr.imp fun _ _ ht => .pure ⟨ht, fun hf => by simp at hf⟩)

section
variable (h : g.Lays C ts)
include h

theorem allocation : Post ts (do
    let id ← name .identifier
    if ← seesSymbol 0 "(" then pure (Grammar.call id (← Grammar.allocationArguments g), false)
    else pure (id, false)) i fun x j => Operand C ts i j x := by
  refine (h.lexed.name .identifier rfl).bind fun id j hid => ?_
  refine (still_seesSymbol 0 "(").bind fun paren => ?_
  split
  · refine h.allocationArguments.bind fun arguments l ha => .pure ⟨?_, fun hf => by simp at hf⟩
    exact call (hid.one rfl) ha
  · exact .pure ⟨hid.one rfl, fun hf => by simp at hf⟩

theorem operand : (operand g).Gives ts (Operand C ts) := by
  have hstring : Grammar.stringLiteral.Gives ts (Reads C ts Kind.isExpression) :=
    h.stringLiteral.imp fun _ _ _ ht => ht.imp isExpression_of_isString
  intro i
  refine (still_ahead 0).bind fun o => ?_
  cases o with
  | none => exact .failure
  | some t =>
    dsimp only
    split
    · exact h.allocation
    · exact h.allocation
    · refine (h.lexed.name _ (isLeaf_nameKind _)).bind fun id j hid =>
        .pure ⟨?_, fun hf t ht => ?_⟩
      · exact hid.one (isExpression_nameKind _)
      · have hk := of_decide_eq_true hf
        exact asTypeName_identifier (hk ▸ hid) ht
    · exact value (h.parenthesized i)
    · exact value (h.funcLiteral i)
    · exact value (hstring i)
    · exact value (hstring i)
    · split
      · next k hk =>
        refine h.lexed.next.bind fun t j ht => .pure ⟨?_, fun hf => by simp at hf⟩
        obtain ⟨hexpression, hname, hleaf⟩ := isExpression_literalKind hk
        exact ht.asOther hexpression (fun hi => by simp [hname] at hi) hleaf
      · exact value (h.typeOperand i)

theorem instanceOperand (header : Bool) {typeId : Tree} (ht : Reads C ts Kind.isTypeName i j typeId) :
    Post ts (instanceOperand g header typeId) j fun t l => Reads C ts Kind.isExpression i l t := by
  refine (still_sees 1 _).bind fun valued => (still_require _).bind fun _ => ?_
  refine h.typeArguments.bind fun arguments l ha => ?_
  have htype : Reads C ts Kind.isType i l (Grammar.instantiated typeId arguments) :=
    (instantiated ht ha).one rfl
  dsimp only
  refine (still_seesSymbol 0 _).bind fun brace => ?_
  split
  · exact h.compositeLiteral htype 0 rfl
  · exact h.conversion htype

theorem indexOrSlice {e : Tree} (he : Reads C ts Kind.isExpression i j e) :
    Post ts (indexOrSlice g e) j fun t l => Reads C ts Kind.isExpression i l t := by
  refine (h.lexed.symbol "[").bind fun o l ho => ?_
  dsimp only
  refine (h.expression false).perhaps.bind fun first m hfirst => ?_
  refine (still_seesSymbol 0 ":").bind fun colon => ?_
  split
  · refine (h.lexed.symbol ":").bind fun colon n hcolon => ?_
    refine .bind (((h.expression false).perhapsPart .sliceExpression 2 rfl).bind
      fun stop p hstop => .pure ?_)
    have hcapacity : Gives ts (do
        let second ← symbol ":"
        let c ← g (.expression false)
        pure [second, c.withField .capacity]) (ReadsRow C ts .sliceExpression) := by
      intro i
      refine (h.lexed.symbol ":").bind fun second j hsecond => ?_
      exact (h.expression false).bind fun c l hc =>
        .pure (hsecond.sign (hc.part 3 rfl (ReadsRow.nil l)))
    refine hcapacity.perhapsRow.bind fun capacity q hcapacity => ?_
    refine (h.lexed.symbol "]").bind fun c r hc => .pure ?_
    have hfirst : ReadsRow C ts .sliceExpression l m (first.map (·.withField .start)).toList := by
      obtain ⟨rfl, rfl⟩ | ⟨t, rfl, ht⟩ := hfirst
      · exact .nil l
      · exact ht.part 1 rfl (ReadsRow.nil m)
    have hrow : ReadsRow C ts .sliceExpression i r _ :=
      Row.append (Row.append (Row.append (Row.append (Row.append
        (he.part 0 rfl (ho.sign (ReadsRow.nil l))) hfirst) (hcolon.sign (ReadsRow.nil n))) hstop)
        hcapacity) (hc.sign (ReadsRow.nil r))
    exact .spanning hrow (by simp) rfl rfl
  · obtain ⟨rfl, rfl⟩ | ⟨t, rfl, ht⟩ := hfirst
    · exact .failure
    · refine (h.lexed.symbol "]").bind fun c n hc => .pure ?_
      exact .spanning (he.part 0 rfl (ho.sign (ht.part 1 rfl (hc.sign (ReadsRow.nil n)))))
        (by simp) rfl rfl

theorem instantiation {typeId : Tree} (ht : Reads C ts Kind.isTypeName i j typeId) :
    Post ts (instantiation g typeId) j fun t l => Reads C ts Kind.isExpression i l t := by
  have hitem : (g .type).Gives ts fun i j t => ReadsRow C ts .typeInstantiationExpression i j [t] :=
    h.type.imp fun _ j _ ht => ht.plain 1 rfl (ReadsRow.nil j)
  have hitems : Gives ts (do pure ((← commaList (g .type)) ++ (← trailingComma)))
      (ReadsRow C ts .typeInstantiationExpression) := by
    intro i
    refine (h.lexed.commaList hitem).bind fun items j hitems => ?_
    exact h.lexed.trailingComma.bind fun comma l hcomma => .pure (Row.append hitems.2 hcomma)
  refine (h.lexed.between _ _ hitems).bind fun args l hargs => .pure ?_
  exact .spanning (ht.part 0 rfl hargs.2) (by simp) rfl rfl

theorem selector {e : Tree} {typeable : Bool} (he : Reads C ts Kind.isExpression i j e) :
    Post ts (do
      let dot ← symbol "."
      let field ← name .fieldIdentifier
      pure (Tree.spanning .selectorExpression [e.withField .operand, dot, field.withField .field],
        typeable && e.kind = .identifier)) j fun x l => Operand C ts i l x := by
  refine (h.lexed.symbol ".").bind fun dot l hdot => ?_
  refine (h.lexed.name .fieldIdentifier rfl).bind fun field m hfield => .pure ⟨?_, fun hf t ht => ?_⟩
  · exact .inOrder (he.part 0 rfl (hdot.sign (hfield.part 1 rfl (ReadsRow.nil m)))) (by simp)
      rfl rfl (by simp [hdot.field])
  · have hk : e.kind = .identifier := by simp_all
    have hid : Reads C ts (Kind.among [.identifier]) i j e :=
      ⟨he.laid, he.start, he.stop, he.field, by simp [Kind.among, hk]⟩
    exact asTypeName_selector hid hdot hfield ht

theorem suffix (header : Bool) {x : Tree × Bool} (hx : Operand C ts i j x) :
    Post ts (suffix g header x) j fun y l => Operand C ts i l y := by
  obtain ⟨e, typeable⟩ := x
  obtain ⟨he, htype⟩ := hx
  unfold Grammar.suffix
  dsimp only
  have hname : ∀ t, (if typeable then asTypeName? e else none) = some t →
      Reads C ts Kind.isTypeName i j t := by
    intro t ht
    split at ht
    · next hf => exact htype hf t ht
    · cases ht
  generalize (if typeable then asTypeName? e else none) = typeName? at hname
  refine (still_ahead 0).bind fun o => ?_
  cases o with
  | none => exact .failure
  | some t =>
    dsimp only
    split
    · refine (still_seesSymbol 1 "(").bind fun paren => ?_
      split
      · refine (still_seesKeyword 2 "type").bind fun keyword => (still_require _).bind fun _ => ?_
        refine (h.lexed.symbol ".").bind fun dot l hdot => ?_
        have hinner : Gives ts (do pure [(← g .type).withField .type])
            (ReadsRow C ts .typeAssertionExpression) :=
          fun i => h.type.bind fun t j ht => .pure (ht.part 1 rfl (ReadsRow.nil j))
        refine (h.lexed.between _ _ hinner).bind fun rest m hrest => .pure ?_
        refine ⟨?_, fun hf => by simp at hf⟩
        exact .spanning (he.part 0 rfl (hdot.sign hrest.2)) (by simp) rfl rfl
      · exact h.selector he
    · refine value (.orElse ?_ (.orElse (h.indexOrSlice he) ?_))
      · cases typeName? with
        | none => exact .failure
        | some typeId => exact h.instanceOperand header (hname typeId rfl)
      · cases typeName? with
        | none => exact .failure
        | some typeId => exact h.instantiation (hname typeId rfl)
    · refine h.argumentList.bind fun arguments l ha => .pure ⟨call he ha, fun hf => by simp at hf⟩
    · refine (still_require _).bind fun _ => ?_
      cases typeName? with
      | none => exact .failure
      | some typeId =>
        have hid := (hname typeId rfl).imp isType_of_isTypeName
        exact value (h.compositeLiteral hid 0 rfl)
    · exact .failure

theorem primary (header : Bool) : (primary g header).Gives ts (Reads C ts Kind.isExpression) := by
  intro i
  refine h.operand.bind fun x j hx => ?_
  have hstep : ∀ y l, Operand C ts i l y →
      (Grammar.suffix g header y).Post ts l fun z m => Operand C ts i m z :=
    fun y l hy => h.suffix header hy
  exact .bind ((iterate_post hstep x j hx).imp fun y l hy => .pure hy.1)

theorem unary (header : Bool) : (unary g header).Gives ts (Reads C ts Kind.isExpression) := by
  intro i
  refine (still_ahead 0).bind fun o => ?_
  cases o with
  | none => exact .failure
  | some t =>
    refine (still_seesKeyword 1 "chan").bind fun channel => ?_
    dsimp only
    split
    · refine h.lexed.next.bind fun op j hop => ?_
      refine (h.goal (.unary header)).bind fun e l he => .pure ?_
      have hop : Reads C ts Kind.isToken i j op.leaf := hop.leaf rfl
      exact .spanning (hop.part 0 rfl (he.part 1 rfl (ReadsRow.nil l))) (by simp) rfl rfl
    · exact h.primary header i

end

def Operation (C : Ground) (ts : Array Token) (i j : Nat) (x : Token × Tree) : Prop :=
  ∃ l, Takes C ts i l x.1 ∧ Reads C ts Kind.isExpression l j x.2

theorem Operation.le {rest : List (Token × Tree)} (h : Chain (Operation C ts) i j rest) :
    stopBefore ts i ≤ stopBefore ts j := by
  induction h with
  | nil => exact Nat.le_refl _
  | cons hx _ ih =>
    obtain ⟨l, hop, he⟩ := hx
    calc stopBefore ts _ ≤ _ := hop.start
      _ ≤ _ := hop.sound.filled.le
      _ = stopBefore ts l := hop.stop
      _ ≤ _ := he.le
      _ ≤ _ := ih

theorem binary {l m : Nat} {left right : Tree} {op : Token}
    (hleft : Reads C ts Kind.isExpression i j left) (hop : Takes C ts j l op)
    (hright : Reads C ts Kind.isExpression l m right) :
    Reads C ts Kind.isExpression i m (binary left op right) := by
  have hop : Reads C ts Kind.isToken j l op.leaf := hop.leaf rfl
  exact .spanning (hleft.part 0 rfl (hop.part 1 rfl (hright.part 2 rfl (ReadsRow.nil m)))) (by simp)
    rfl rfl

def Joined (C : Ground) (ts : Array Token) (i j : Nat) (x : Tree × List (Token × Tree)) : Prop :=
  ∃ l, Reads C ts Kind.isExpression i l x.1 ∧ Chain (Operation C ts) l j x.2

theorem joinLevel (level : Nat) {left : Tree} {rest : List (Token × Tree)} {l : Nat}
    (hleft : Reads C ts Kind.isExpression i j left) (hrest : Chain (Operation C ts) j l rest) :
    Joined C ts i l (joinLevel level left rest) := by
  induction rest generalizing i j left with
  | nil => exact ⟨j, hleft, hrest⟩
  | cons x r ih =>
    obtain _ | ⟨⟨m, hop, hright⟩, hr⟩ := hrest
    unfold Grammar.joinLevel
    split
    · exact ih (binary hleft hop hright) hr
    · obtain ⟨n, he, hmore⟩ := ih hright hr
      exact ⟨j, hleft, .cons ⟨m, hop, he⟩ hmore⟩

theorem joinLevels (levels : List Nat) {x : Tree × List (Token × Tree)} (hx : Joined C ts i j x) :
    Joined C ts i j (levels.foldl (fun (e, r) level => Grammar.joinLevel level e r) x) := by
  induction levels generalizing x with
  | nil => exact hx
  | cons level levels ih =>
    obtain ⟨l, he, hr⟩ := hx
    exact ih (joinLevel level he hr)

theorem join {l : Nat} {first : Tree} {rest : List (Token × Tree)}
    (hfirst : Reads C ts Kind.isExpression i j first) (hrest : Chain (Operation C ts) j l rest) :
    Reads C ts Kind.isExpression i l (join first rest) := by
  obtain ⟨m, he, hr⟩ := joinLevels [5, 4, 3, 2, 1] (x := (first, rest)) ⟨j, hfirst, hrest⟩
  exact he.widen (Operation.le hr)

/-- A list of expressions; one that holds a single expression is laid out as that. -/
def Listed (C : Ground) (ts : Array Token) (i j : Nat) (t : Tree) : Prop :=
  Reads C ts (Kind.among [.expressionList]) i j t ∧
    ∀ e, t.children = [e] → Reads C ts Kind.isExpression i j e

section
variable (h : g.Lays C ts)
include h

theorem expressionRule (header : Bool) :
    (expressionRule g header).Gives ts (Reads C ts Kind.isExpression) := by
  have hmore : Gives ts (do
      let op ← Rule.satisfy (0 < precedence ·)
      pure (op, ← g (.unary header))) (Operation C ts) := by
    intro i
    refine (h.lexed.satisfy _).bind fun op j hop => ?_
    exact (h.goal (.unary header)).bind fun e l he => .pure ⟨j, hop.1, he⟩
  intro i
  refine (h.goal (.unary header)).bind fun first j hfirst => ?_
  exact hmore.many.bind fun rest l hrest => .pure (join hfirst hrest)

theorem expressionList (header : Bool) : (expressionList g header).Gives ts (Listed C ts) := by
  have hitem : ∀ i j t, Reads C ts Kind.isExpression i j t → ReadsRow C ts .expressionList i j [t] :=
    fun _ j _ ht => ht.plain 0 rfl (ReadsRow.nil j)
  refine (h.lexed.commaListFrom (h.expression header) hitem).map ?_
  rintro i j cs ⟨first, more, l, rfl, hfirst, hmore⟩
  refine ⟨.spanning (hfirst.plain 0 rfl hmore) (by simp) rfl rfl, fun e he => ?_⟩
  obtain ⟨rfl, rfl⟩ : first = e ∧ more = [] := by simpa [Tree.spanning, Tree.children] using he
  exact hfirst.widen hmore

end

end GoAtlas.Syntax.Grammar.Lays
