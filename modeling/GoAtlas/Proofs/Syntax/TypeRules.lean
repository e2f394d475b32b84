import GoAtlas.Syntax.Grammar.Types
import GoAtlas.Proofs.Syntax.Reading

namespace GoAtlas.Syntax

def Goal.kinds : Goal → Kind → Bool
  | .expression _ | .unary _ => Kind.isExpression
  | .type => Kind.isType
  | .parameters => Kind.among [.parameterList]
  | .literalValue => Kind.among [.literalValue]
  | .block => Kind.among [.block]
  | .statement => Kind.isStatement
  | .ifStatement => Kind.among [.ifStatement]

/-- A grammar whose goals read trees of their kinds, laid out between tokens. -/
structure Grammar.Lays (C : Ground) (ts : Array Token) (g : Grammar) : Prop where
  lexed : Lexed C ts
  goal : ∀ goal, (g goal).Gives ts (Reads C ts goal.kinds)

namespace Grammar.Lays

open Rule

variable {C : Ground} {ts : Array Token} {g : Grammar} {k : Kind} {i j : Nat}

section
variable (h : g.Lays C ts)
include h

theorem type : (g .type).Gives ts (Reads C ts Kind.isType) :=
  h.goal .type

theorem expression (header : Bool) : (g (.expression header)).Gives ts (Reads C ts Kind.isExpression) :=
  h.goal (.expression header)

theorem union (hk : k.parts = [(none, Kind.isType)]) (hloose : k.isLoose = true) :
    (union g k).Gives ts (Reads C ts (Kind.among [k])) := by
  have part : ∀ {i j m : Nat} {t : Tree} {cs : List Tree}, Reads C ts Kind.isType i j t →
      ReadsRow C ts k j m cs → ReadsRow C ts k i m (t :: cs) :=
    fun ht hcs => Piece.plain ht 0 (by rw [hk]; rfl) hcs
  intro i
  refine h.type.bind fun first j hfirst => ?_
  have hmore : Gives ts (do let bar ← symbol "|"; let t ← g .type; pure [bar, t])
      (ReadsRow C ts k) := by
    intro i
    refine (h.lexed.symbol "|").bind fun bar j hbar => ?_
    exact h.type.bind fun t l ht => .pure (hbar.sign (part ht (.nil l)))
  refine hmore.many.bind fun more l hmore => .pure ?_
  exact .spanning (part hfirst (.flatten hmore)) (by simp) (by simp [Kind.among]) hloose

theorem typeArguments : (typeArguments g).Gives ts (Reads C ts (Kind.among [.typeArguments])) := by
  have hitem : (Grammar.union g .typeElem).Gives ts
      fun i j t => ReadsRow C ts .typeArguments i j [t] :=
    (h.union rfl rfl).imp fun i j t ht => ht.plain 0 rfl (ReadsRow.nil j)
  have hitems : Gives ts (do pure ((← commaList (Grammar.union g .typeElem)) ++ (← trailingComma)))
      (ReadsRow C ts .typeArguments) := by
    intro i
    refine (h.lexed.commaList hitem).bind fun items j hitems => ?_
    exact h.lexed.trailingComma.bind fun comma l hcomma => .pure (Row.append hitems.2 hcomma)
  exact (h.lexed.between "[" "]" hitems).map fun i j cs hcs => .spanning hcs.2 hcs.1 rfl rfl

theorem typeName : typeName.Gives ts (Reads C ts Kind.isTypeName) := by
  intro i
  refine (still_seesSymbol 1 ".").bind fun dotted => ?_
  refine (still_sees 2 _).bind fun named => ?_
  split
  · refine (h.lexed.name .packageIdentifier rfl).bind fun package j hpackage => ?_
    refine (h.lexed.symbol ".").bind fun dot l hdot => ?_
    refine (h.lexed.name .typeIdentifier rfl).bind fun typeId m htype => .pure ?_
    exact .spanning (hpackage.part 0 rfl (hdot.sign (htype.part 1 rfl (ReadsRow.nil m)))) (by simp)
      rfl rfl
  · exact ((h.lexed.name .typeIdentifier rfl).imp fun i j t ht => ht.one rfl) i

end

theorem instantiated {typeId arguments : Tree} {l : Nat} (ht : Reads C ts Kind.isTypeName i j typeId)
    (ha : Reads C ts (Kind.among [.typeArguments]) j l arguments) :
    Reads C ts (Kind.among [.genericType]) i l (instantiated typeId arguments) :=
  .spanning (ht.part 0 rfl (ha.part 1 rfl (ReadsRow.nil l))) (by simp) rfl rfl

theorem isType_of_isTypeName (k : Kind) (hk : k.isTypeName = true) : k.isType = true := by
  cases k <;> simp_all [Kind.isTypeName, Kind.isType]

section
variable (h : g.Lays C ts)
include h

theorem namedType : (namedType g).Gives ts (Reads C ts Kind.isType) := by
  intro i
  refine h.typeName.bind fun typeId j htype => ?_
  refine h.typeArguments.perhaps.bind fun o l ho => ?_
  obtain ⟨rfl, rfl⟩ | ⟨arguments, rfl, ha⟩ := ho
  · exact .pure (htype.imp isType_of_isTypeName)
  · exact .pure ((instantiated htype ha).one rfl)

theorem result : (result g).Gives ts (ReadsRow C ts .functionType) := by
  intro i
  refine (still_seesSymbol 0 "(").bind fun paren => ?_
  split
  · refine (h.goal .parameters).bind fun t j ht => .pure ?_
    exact (ht.one (by rfl)).part 1 rfl (ReadsRow.nil j)
  · have htype : (g .type).Gives ts (Reads C ts fun c => c = .parameterList || c.isType) :=
      h.type.imp fun i j t ht => ht.imp fun k hk => by simp [hk]
    exact (htype.perhapsPart .functionType 1 rfl).bind fun _ _ ho => .pure ho

theorem signature : (signature g).Gives ts (ReadsRow C ts .functionType) := by
  intro i
  refine (h.goal .parameters).bind fun parameters j hparameters => ?_
  exact h.result.bind fun cs l hcs => .pure (hparameters.part 0 rfl hcs)

end

/-- An entry of a parameter list as it was read. -/
def Entry (C : Ground) (ts : Array Token) (i j : Nat) : ParameterEntry → Prop
  | .lone id => Reads C ts (Kind.among [.identifier]) i j id
  | .typed id type => ∃ l, Reads C ts (Kind.among [.identifier]) i l id ∧
      Reads C ts Kind.isType l j type
  | .unnamed type => Reads C ts Kind.isType i j type
  | .variadic id dots type => ∃ l m,
      ((id = none ∧ i = l) ∨ ∃ t, id = some t ∧ Reads C ts (Kind.among [.identifier]) i l t) ∧
      Reads C ts Kind.isToken l m dots ∧ Reads C ts Kind.isType m j type

def WithComma (C : Ground) (ts : Array Token) {α : Type} (P : Nat → Nat → α → Prop) (i j : Nat)
    (x : α × List Tree) : Prop :=
  ∃ l, P i l x.1 ∧ ∀ k, ReadsRow C ts k l j x.2

/-- A declaration of parameters in front of what follows it. -/
theorem declaration {l : Nat} {cs rest : List Tree}
    (hk : Kind.among [.parameterDeclaration, .variadicParameterDeclaration] k)
    (hcs : ReadsRow C ts k i j cs) (hne : cs ≠ []) (hrest : ReadsRow C ts .parameterList j l rest) :
    ReadsRow C ts .parameterList i l (.spanning k cs :: rest) := by
  have hloose : k.isLoose = true := by
    rcases (by simpa [Kind.among] using hk : k = _ ∨ k = _) with rfl | rfl <;> rfl
  exact Piece.plain (.spanning hcs hne hk hloose) 0 rfl hrest

theorem loneTypes {pending : List (Tree × List Tree)}
    (h : Chain (WithComma C ts (Reads C ts (Kind.among [.identifier]))) i j pending) :
    ReadsRow C ts .parameterList i j (loneTypes pending) := by
  induction h with
  | nil i => exact .nil i
  | @cons i j l a pending ha _ ih =>
    obtain ⟨m, hid, hcomma⟩ := ha
    have htype : Reads C ts Kind.isType i m (a.1.withKind .typeIdentifier) :=
      (Piece.withKind hid rfl .typeIdentifier rfl).one rfl
    have hrow : ReadsRow C ts .parameterDeclaration i m _ := htype.part 1 rfl (ReadsRow.nil m)
    exact declaration rfl hrow (by simp) (Row.append (hcomma .parameterList) ih)

theorem namesOf {pending : List (Tree × List Tree)}
    (h : Chain (WithComma C ts (Reads C ts (Kind.among [.identifier]))) i j pending) :
    ReadsRow C ts .parameterDeclaration i j
      (pending.flatMap fun (id, comma) => id.withField .name :: comma) := by
  induction h with
  | nil i => exact .nil i
  | cons ha _ ih =>
    obtain ⟨m, hid, hcomma⟩ := ha
    exact Row.append (hid.part 0 rfl (hcomma _)) ih

theorem groupParameters {l : Nat} {pending : List (Tree × List Tree)}
    {entries : List (ParameterEntry × List Tree)}
    (hp : Chain (WithComma C ts (Reads C ts (Kind.among [.identifier]))) i j pending)
    (he : Chain (WithComma C ts (Entry C ts)) j l entries) :
    ReadsRow C ts .parameterList i l (groupParameters pending entries) := by
  induction he generalizing i pending with
  | nil j => exact loneTypes hp
  | @cons j m l x entries hx _ ih =>
    obtain ⟨e, comma⟩ := x
    obtain ⟨n, he, hcomma⟩ := hx
    have hcomma' := hcomma .parameterList
    -- after an entry that is not a name on its own, no names are pending
    have hrest := ih (.nil m)
    cases e with
    | lone id => exact ih (hp.append (.cons ⟨n, he, hcomma⟩ (.nil m)))
    | typed id type =>
      obtain ⟨o, hid, htype⟩ := he
      have hrow : ReadsRow C ts .parameterDeclaration i n _ :=
        Row.append (namesOf hp) (hid.part 0 rfl (htype.part 1 rfl (ReadsRow.nil n)))
      exact declaration rfl hrow (by simp) (Row.append hcomma' hrest)
    | unnamed type =>
      have hrow : ReadsRow C ts .parameterDeclaration j n _ := he.part 1 rfl (ReadsRow.nil n)
      exact Row.append (Row.append (loneTypes hp) (declaration rfl hrow (by simp) hcomma')) hrest
    | variadic id dots type =>
      obtain ⟨o, q, hid, hdots, htype⟩ := he
      have hrow : ReadsRow C ts .variadicParameterDeclaration j n
          ((id.map (·.withField .name)).toList ++ [dots, type.withField .type]) := by
        have htail : ReadsRow C ts .variadicParameterDeclaration o n _ :=
          hdots.sign (htype.part 1 rfl (ReadsRow.nil n))
        obtain ⟨rfl, rfl⟩ | ⟨t, rfl, ht⟩ := hid
        · exact htail
        · exact ht.part 0 rfl htail
      exact Row.append (Row.append (loneTypes hp) (declaration rfl hrow (by simp) hcomma')) hrest

section
variable (h : g.Lays C ts)
include h

theorem parameterEntry : (parameterEntry g).Gives ts (Entry C ts) := by
  intro i
  refine (still_seesSymbol 0 "...").bind fun dotted => ?_
  split
  · refine (h.lexed.symbol "...").bind fun dots j hdots => ?_
    exact h.type.bind fun t l ht => .pure ⟨i, j, .inl ⟨rfl, rfl⟩, hdots, ht⟩
  refine (still_sees 0 _).bind fun named => ?_
  split
  · refine (still_seesSymbol 1 ",").bind fun comma => ?_
    refine (still_seesSymbol 1 ")").bind fun closed => ?_
    split
    · exact (h.lexed.name .identifier rfl).bind fun id j hid => .pure hid
    refine (still_seesSymbol 1 ".").bind fun qualified => ?_
    split
    · exact h.namedType.bind fun t j ht => .pure ht
    refine (still_seesSymbol 1 "...").bind fun variadic => ?_
    split
    · refine (h.lexed.name .identifier rfl).bind fun id j hid => ?_
      refine (h.lexed.symbol "...").bind fun dots l hdots => ?_
      exact h.type.bind fun t m ht => .pure ⟨j, l, .inr ⟨id, rfl, hid⟩, hdots, ht⟩
    · refine .orElse ?_ ?_
      · refine (h.lexed.name .identifier rfl).bind fun id j hid => ?_
        exact h.type.bind fun t l ht => .pure ⟨j, hid, ht⟩
      · exact h.namedType.bind fun t j ht => .pure ht
  · exact h.type.bind fun t j ht => .pure ht

theorem parameters : (parameters g).Gives ts (Reads C ts (Kind.among [.parameterList])) := by
  have hentry : Gives ts (do
      let e ← Grammar.parameterEntry g
      let comma ← trailingComma
      require (!comma.isEmpty || (← seesSymbol 0 ")"))
      pure (e, comma)) (WithComma C ts (Entry C ts)) := by
    intro i
    refine h.parameterEntry.bind fun e j he => .bind fun comma l hcomma => ?_
    refine (still_seesSymbol 0 ")").bind fun closed => ?_
    refine (still_require _).bind fun _ => .pure ⟨j, he, fun k => ?_⟩
    exact h.lexed.trailingComma j comma l hcomma
  have hitems : Gives ts (do
      let entries ← many do
        let e ← Grammar.parameterEntry g
        let comma ← trailingComma
        require (!comma.isEmpty || (← seesSymbol 0 ")"))
        pure (e, comma)
      pure (Grammar.groupParameters [] entries)) (ReadsRow C ts .parameterList) :=
    fun i => hentry.many.bind fun entries j he => .pure (groupParameters (.nil i) he)
  exact (h.lexed.between "(" ")" hitems).map fun i j cs hcs => .spanning hcs.2 hcs.1 rfl rfl

/-- Names with commas between, in the part of names. -/
theorem names {kind : Kind} (n : Nat) (hp : k.parts[n]? = some (some .name, Kind.among [kind]))
    (hk : kind.isLeaf = true) : (commaList ((·.withField .name) <$> name kind)).Gives ts
      fun i j cs => cs ≠ [] ∧ ReadsRow C ts k i j cs :=
  h.lexed.commaList ((h.lexed.name kind hk).map fun _ j _ ht => ht.part n hp (ReadsRow.nil j))

theorem typeParameter :
    (typeParameter g).Gives ts (Reads C ts (Kind.among [.typeParameterDeclaration])) := by
  intro i
  refine (h.names (k := .typeParameterDeclaration) 0 rfl rfl).bind fun names j hnames => ?_
  refine (h.union rfl rfl).bind fun constraint l hc => .pure ?_
  exact .spanning (Row.append hnames.2 (hc.part 1 rfl (ReadsRow.nil l))) (by simp) rfl rfl

theorem typeParameters :
    (typeParameters g).Gives ts (Reads C ts (Kind.among [.typeParameterList])) := by
  have hitem : (Grammar.typeParameter g).Gives ts
      fun i j t => ReadsRow C ts .typeParameterList i j [t] :=
    h.typeParameter.imp fun i j t ht => ht.plain 0 rfl (ReadsRow.nil j)
  have hitems : Gives ts (do pure ((← commaList (Grammar.typeParameter g)) ++ (← trailingComma)))
      (ReadsRow C ts .typeParameterList) := by
    intro i
    refine (h.lexed.commaList hitem).bind fun items j hitems => ?_
    exact h.lexed.trailingComma.bind fun comma l hcomma => .pure (Row.append hitems.2 hcomma)
  exact (h.lexed.between "[" "]" hitems).map fun i j cs hcs => .spanning hcs.2 hcs.1 rfl rfl

theorem stringLiteral : stringLiteral.Gives ts (Reads C ts Kind.isString) := by
  refine (h.lexed.satisfy isString).map ?_
  rintro i j t ⟨⟨hs, hstart, hstop⟩, -⟩
  have hkind : t.literalKind.isString = true ∧ t.literalKind.isMark = false ∧
      t.literalKind.isLoose = true := by
    unfold Token.literalKind
    split <;> exact ⟨rfl, rfl, rfl⟩
  have hlaid : (stringLeaf t).Laid C := by
    refine ⟨fun s hs' => (hs.free s hs').imp id ?_, fun s hs' => (hs.free s hs').imp ?_ id, ?_, ?_, ?_⟩
    · exact hs.filled.le.trans
    · exact fun hle => hle.trans hs.filled.le
    · exact fun hm => (Bool.false_ne_true (hkind.2.1.symm.trans hm)).elim
    · exact signed_of_isLoose hkind.2.2
    · exact hs.pieces
  exact ⟨hlaid, hstart, hstop.le, rfl, hkind.1⟩

theorem fieldMembers : (fieldMembers g).Gives ts
    fun i j cs => cs ≠ [] ∧ ReadsRow C ts .fieldDeclaration i j cs := by
  intro i
  have hembedded : Gives ts (do pure [(← Grammar.namedType g).withField .type])
      fun i j cs => cs ≠ [] ∧ ReadsRow C ts .fieldDeclaration i j cs :=
    fun i => h.namedType.bind fun t j ht => .pure ⟨by simp, ht.part 1 rfl (ReadsRow.nil j)⟩
  refine (still_seesSymbol 0 "*").bind fun star => ?_
  split
  · refine (h.lexed.symbol "*").bind fun star j hstar => ?_
    refine h.namedType.bind fun t l ht => .pure ⟨by simp, ?_⟩
    exact hstar.sign (ht.part 1 rfl (ReadsRow.nil l))
  refine (still_sees 1 _).bind fun alone => ?_
  split
  · exact hembedded i
  refine .orElse ?_ (hembedded i)
  refine (h.names (k := .fieldDeclaration) 0 rfl rfl).bind fun names j hnames => ?_
  refine h.type.bind fun t l ht => .pure ⟨by simp, ?_⟩
  exact Row.append hnames.2 (ht.part 1 rfl (ReadsRow.nil l))

theorem fieldDeclaration :
    (fieldDeclaration g).Gives ts (Reads C ts (Kind.among [.fieldDeclaration])) := by
  intro i
  refine h.fieldMembers.bind fun members j hmembers => ?_
  refine (h.stringLiteral.perhapsPart .fieldDeclaration 2 rfl).bind fun tag l htag => .pure ?_
  exact .spanning (Row.append hmembers.2 htag) (by simp [hmembers.1]) rfl rfl

theorem structType : (structType g).Gives ts (Reads C ts Kind.isType) := by
  have hitem : (Grammar.fieldDeclaration g).Gives ts
      fun i j t => ReadsRow C ts .fieldDeclarationList i j [t] :=
    h.fieldDeclaration.imp fun i j t ht => ht.plain 0 rfl (ReadsRow.nil j)
  intro i
  refine (h.lexed.keyword "struct").bind fun struct j hstruct => ?_
  refine (h.lexed.between _ _ (h.lexed.terminated hitem)).bind fun fields l hfields => .pure ?_
  have hlist : Reads C ts (Kind.among [.fieldDeclarationList]) j l _ :=
    .spanning hfields.2 hfields.1 rfl rfl
  exact .spanning (hstruct.sign (hlist.plain 0 rfl (ReadsRow.nil l))) (by simp) rfl rfl

theorem interfaceElement : (interfaceElement g).Gives ts
    (Reads C ts (Kind.among [.methodElem, .typeElem])) := by
  intro i
  refine (still_sees 0 _).bind fun named => ?_
  refine (still_seesSymbol 1 "(").bind fun paren => ?_
  split
  · refine (h.lexed.name .fieldIdentifier rfl).bind fun id j hid => ?_
    refine h.signature.bind fun cs l hcs => .pure ?_
    exact .spanning (hid.part 0 rfl (hcs.grow (List.subset_cons_self _ _))) (by simp) rfl rfl
  · exact ((h.union rfl rfl).imp fun i j t ht => ht.one rfl) i

theorem interfaceType : (interfaceType g).Gives ts (Reads C ts Kind.isType) := by
  have hitem : (Grammar.interfaceElement g).Gives ts
      fun i j t => ReadsRow C ts .interfaceType i j [t] :=
    h.interfaceElement.imp fun i j t ht => ht.plain 0 rfl (ReadsRow.nil j)
  intro i
  refine (h.lexed.keyword "interface").bind fun interface j hi => ?_
  refine (h.lexed.between _ _ (h.lexed.terminated hitem)).bind fun elements l he => .pure ?_
  exact .spanning (hi.sign he.2) (by simp) rfl rfl

theorem sequenceType : (sequenceType g).Gives ts (Reads C ts Kind.isType) := by
  intro i
  refine (h.lexed.symbol "[").bind fun o j ho => ?_
  refine (still_seesSymbol 0 "]").bind fun closed => ?_
  split
  · refine (h.lexed.symbol "]").bind fun c l hc => ?_
    refine h.type.bind fun element m he => .pure ?_
    exact .spanning (ho.sign (hc.sign (he.part 0 rfl (ReadsRow.nil m)))) (by simp) rfl rfl
  · refine (h.expression false).bind fun length l hlength => ?_
    refine (h.lexed.symbol "]").bind fun c m hc => ?_
    refine h.type.bind fun element n he => .pure ?_
    exact .spanning (ho.sign (hlength.part 0 rfl (hc.sign (he.part 1 rfl (ReadsRow.nil n)))))
      (by simp) rfl rfl

theorem mapType : (mapType g).Gives ts (Reads C ts Kind.isType) := by
  intro i
  refine (h.lexed.keyword "map").bind fun map j hmap => ?_
  refine (h.lexed.symbol "[").bind fun o l ho => ?_
  refine h.type.bind fun key m hkey => ?_
  refine (h.lexed.symbol "]").bind fun c n hc => ?_
  refine h.type.bind fun value p hvalue => .pure ?_
  exact .spanning (hmap.sign (ho.sign (hkey.part 0 rfl (hc.sign (hvalue.part 1 rfl
    (ReadsRow.nil p)))))) (by simp) rfl rfl

theorem channelType : (channelType g).Gives ts (Reads C ts Kind.isType) := by
  intro i
  refine ((h.lexed.symbol "<-").perhapsSign .channelType).bind fun before j hbefore => ?_
  refine (h.lexed.keyword "chan").bind fun chan l hchan => ?_
  have hrest : ∀ (after : Option Tree) m, ReadsRow C ts .channelType l m after.toList → Post ts (do
        let value ← g .type
        pure (.spanning .channelType (before.toList ++ chan :: after.toList
          ++ [value.withField .value]))) m fun a n => Reads C ts Kind.isType i n a := by
    intro after m hafter
    refine h.type.bind fun value n hvalue => .pure ?_
    exact .spanning (Row.append (Row.append hbefore (hchan.sign hafter))
      (hvalue.part 0 rfl (ReadsRow.nil n))) (by simp) rfl rfl
  dsimp only
  split
  · exact .bind (.pure (hrest none l (.nil l)))
  · exact ((h.lexed.symbol "<-").perhapsSign .channelType).bind hrest

theorem functionType : (functionType g).Gives ts (Reads C ts Kind.isType) := by
  intro i
  refine (h.lexed.keyword "func").bind fun func j hfunc => ?_
  exact h.signature.bind fun cs l hcs => .pure (.spanning (hfunc.sign hcs) (by simp) rfl rfl)

theorem parenthesizedType :
    (parenthesizedType g).Gives ts (Reads C ts (Kind.among [.parenthesizedType])) := by
  have hinner : Gives ts (do pure [← g .type]) (ReadsRow C ts .parenthesizedType) :=
    fun i => h.type.bind fun t j ht => .pure (ht.plain 0 rfl (ReadsRow.nil j))
  exact (h.lexed.between "(" ")" hinner).map fun i j cs hcs => .spanning hcs.2 hcs.1 rfl rfl

theorem markedType (mark : String) (hk : k.parts = [(none, Kind.isType)]) (hl : k.isLoose = true)
    (hK : k.isType = true) : (markedType g mark k).Gives ts (Reads C ts Kind.isType) := by
  intro i
  refine (h.lexed.symbol mark).bind fun m j hm => ?_
  refine h.type.bind fun t l ht => .pure ?_
  exact .spanning (hm.sign (ht.plain 0 (by rw [hk]; rfl) (ReadsRow.nil l))) (by simp) hK hl

theorem typeRule : (typeRule g).Gives ts (Reads C ts Kind.isType) := by
  intro i
  refine (still_ahead 0).bind fun o => ?_
  cases o with
  | none => exact .failure
  | some t =>
    dsimp only
    split
    · exact h.namedType i
    · exact (h.parenthesizedType.imp fun i j t ht => ht.one rfl) i
    · exact h.markedType "*" rfl rfl rfl i
    · exact h.markedType "~" rfl rfl rfl i
    · exact h.sequenceType i
    · exact h.channelType i
    · exact h.channelType i
    · exact h.mapType i
    · exact h.structType i
    · exact h.interfaceType i
    · exact h.functionType i
    · exact .failure

end

end Grammar.Lays

end GoAtlas.Syntax
