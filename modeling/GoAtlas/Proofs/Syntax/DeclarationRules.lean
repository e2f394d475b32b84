import GoAtlas.Syntax.Grammar.Declarations
import GoAtlas.Proofs.Syntax.ExpressionRules

namespace GoAtlas.Syntax.Grammar.Lays

open Rule

variable {C : Ground} {ts : Array Token} {g : Grammar} {k : Kind} {i j : Nat}

section
variable (h : g.Lays C ts)
include h

theorem initialValues (hk : Kind.specParts ⊆ k.parts) : (initialValues g).Gives ts
    fun i j cs => ReadsRow C ts k i j cs ∧ ∀ c ∈ cs, c.field ≠ some .name := by
  intro i
  refine (h.lexed.symbol "=").bind fun eq j heq => ?_
  refine (h.expressionList false).bind fun values l hvalues => .pure ⟨?_, ?_⟩
  · obtain ⟨n, hn⟩ := List.mem_iff_getElem?.mp (hk (List.mem_cons_of_mem _ List.mem_cons_self))
    exact heq.sign (hvalues.1.part n hn (ReadsRow.nil l))
  · simp [heq.field]

theorem constSpec : (constSpec g).Gives ts (Reads C ts (Kind.among [.constSpec])) := by
  have hvalues := h.initialValues (k := .constSpec) (List.subset_cons_self _ _)
  have hname := h.lexed.name .identifier rfl
  have hnames := (h.lexed.commaListIn (k := .constSpec) (f := .name) hname
    (fun c hc => Kind.admits_part 0 rfl (by simp_all [Kind.among]))
    (Kind.admits_part 0 rfl rfl)).and (h.lexed.commaListAlternates hname)
  intro i
  refine hnames.bind fun names j hnames => ?_
  obtain ⟨⟨hne, hrow⟩, hturns⟩ := hnames
  dsimp only
  have hrest : ∀ rest l, (ReadsRow C ts .constSpec j l rest ∧ ∀ c ∈ rest, c.field ≠ some .name) →
      Post ts (pure (Tree.spanning .constSpec (names.map (·.withField .name) ++ rest))) l
        fun t m => Reads C ts (Kind.among [.constSpec]) i m t := by
    refine fun rest l hrest => .pure (.ofRow (Row.append hrow hrest.1) (by simp [hne]) rfl rfl
      (signed_constSpec ?_))
    have hnone : rest.filter (·.field = some .name) = [] := by simpa using hrest.2
    have hall : (names.map (·.withField .name)).filter (·.field = some .name) =
        names.map (·.withField .name) := by simp
    rw [List.filter_append, hnone, hall, List.append_nil, List.map_map]
    simpa [Function.comp_def] using hturns
  refine .bind ((Post.orElse (hvalues j) (.orElse ?_ ?_)).imp hrest)
  · refine h.type.bind fun type l htype => ?_
    refine hvalues.bind fun values m hvalues => .pure ⟨htype.part 1 rfl hvalues.1, ?_⟩
    simpa using hvalues.2
  · exact .pure ⟨.nil j, by simp⟩

theorem varSpec : (varSpec g).Gives ts (Reads C ts (Kind.among [.varSpec])) := by
  have hvalues : (Grammar.initialValues g).Gives ts (ReadsRow C ts .varSpec) :=
    (h.initialValues (k := .varSpec) (List.subset_cons_self _ _)).imp fun _ _ _ hcs => hcs.1
  intro i
  refine (h.names (k := .varSpec) 0 rfl rfl).bind fun names j hnames => ?_
  dsimp only
  have hrest : ∀ rest l, ReadsRow C ts .varSpec j l rest →
      Post ts (pure (Tree.spanning .varSpec (names ++ rest))) l
        fun t m => Reads C ts (Kind.among [.varSpec]) i m t :=
    fun rest l hrest => .pure (.spanning (Row.append hnames.2 hrest) (by simp [hnames.1]) rfl rfl)
  refine .bind ((Post.orElse (hvalues j) ?_).imp hrest)
  refine h.type.bind fun type l htype => ?_
  exact hvalues.perhapsRow.bind fun values m hvalues => .pure (htype.part 1 rfl hvalues)

theorem constDeclaration :
    (constDeclaration g).Gives ts (Reads C ts (Kind.among [.constDeclaration])) := by
  have hitem : (Grammar.constSpec g).Gives ts
      fun i j t => ReadsRow C ts .constDeclaration i j [t] :=
    h.constSpec.imp fun _ j _ ht => ht.plain 0 rfl (ReadsRow.nil j)
  intro i
  refine (h.lexed.keyword "const").bind fun const j hconst => ?_
  refine (still_seesSymbol 0 "(").bind fun paren => ?_
  dsimp only
  split
  · refine (h.lexed.between _ _ (h.lexed.eachTerminated hitem)).bind fun specs l hspecs => .pure ?_
    exact .spanning (hconst.sign hspecs.2) (by simp) rfl rfl
  · refine hitem.bind fun spec l hspec => .bind (.pure (.pure ?_))
    exact .spanning (hconst.sign hspec) (by simp) rfl rfl

theorem varDeclaration :
    (varDeclaration g).Gives ts (Reads C ts (Kind.among [.varDeclaration])) := by
  have hitem : (Grammar.varSpec g).Gives ts fun i j t => ReadsRow C ts .varSpecList i j [t] :=
    h.varSpec.imp fun _ j _ ht => ht.plain 0 rfl (ReadsRow.nil j)
  have hlist : (Tree.spanning .varSpecList <$> Rule.between "(" ")"
      (Rule.eachTerminated (Grammar.varSpec g))).Gives ts
      (Reads C ts (Kind.among [.varSpec, .varSpecList])) :=
    (h.lexed.between _ _ (h.lexed.eachTerminated hitem)).map
      fun _ _ _ hcs => .spanning hcs.2 hcs.1 rfl rfl
  intro i
  refine (h.lexed.keyword "var").bind fun var j hvar => ?_
  refine (still_seesSymbol 0 "(").bind fun paren => ?_
  dsimp only
  split
  · refine hlist.bind fun specs l hspecs => .pure ?_
    exact .spanning (hvar.sign (hspecs.plain 0 rfl (ReadsRow.nil l))) (by simp) rfl rfl
  · refine h.varSpec.bind fun spec l hspec => .pure ?_
    exact .spanning (hvar.sign ((hspec.one rfl).plain 0 rfl (ReadsRow.nil l))) (by simp) rfl rfl

theorem typeSpec : (typeSpec g).Gives ts (Reads C ts (Kind.among [.typeSpec, .typeAlias])) := by
  intro i
  refine (h.lexed.name .typeIdentifier rfl).bind fun id j hid => ?_
  dsimp only
  have hdefinition : ∀ params l, ReadsRow C ts .typeSpec j l params → Post ts (do
      let type ← g .type
      pure (Tree.spanning .typeSpec (id.withField .name :: params ++ [type.withField .type]))) l
      fun t m => Reads C ts (Kind.among [.typeSpec, .typeAlias]) i m t := by
    intro params l hparams
    refine h.type.bind fun type m htype => .pure ?_
    exact .spanning (hid.part 0 rfl (Row.append hparams (htype.part 2 rfl (ReadsRow.nil m))))
      (by simp) rfl rfl
  have hsynonym : ∀ params l, ReadsRow C ts .typeSpec j l params → Post ts (do
      let eq ← Rule.symbol "="
      let type ← g .type
      pure (Tree.spanning .typeAlias (id.withField .name :: params ++ [eq, type.withField .type]))) l
      fun t m => Reads C ts (Kind.among [.typeSpec, .typeAlias]) i m t := by
    intro params l hparams
    refine (h.lexed.symbol "=").bind fun eq m heq => ?_
    refine h.type.bind fun type n htype => .pure ?_
    have hparams : ReadsRow C ts .typeAlias j l params := hparams.grow (List.Subset.refl _)
    exact .spanning (hid.part 0 rfl (Row.append hparams
      (heq.sign (htype.part 2 rfl (ReadsRow.nil n))))) (by simp) rfl rfl
  refine .orElse (hsynonym [] j (.nil j)) (.orElse (hdefinition [] j (.nil j)) ?_)
  refine h.typeParameters.bind fun params l hparams => ?_
  have hparams : ReadsRow C ts .typeSpec j l _ := hparams.part 1 rfl (ReadsRow.nil l)
  exact .orElse (hsynonym _ l hparams) (hdefinition _ l hparams)

theorem typeDeclaration :
    (typeDeclaration g).Gives ts (Reads C ts (Kind.among [.typeDeclaration])) := by
  have hitem : (Grammar.typeSpec g).Gives ts fun i j t => ReadsRow C ts .typeDeclaration i j [t] :=
    h.typeSpec.imp fun _ j _ ht => ht.plain 0 rfl (ReadsRow.nil j)
  intro i
  refine (h.lexed.keyword "type").bind fun type j htype => ?_
  refine (still_seesSymbol 0 "(").bind fun paren => ?_
  dsimp only
  split
  · refine (h.lexed.between _ _ (h.lexed.terminated hitem)).bind fun specs l hspecs => .pure ?_
    exact .spanning (htype.sign hspecs.2) (by simp) rfl rfl
  · refine hitem.bind fun spec l hspec => .bind (.pure (.pure ?_))
    exact .spanning (htype.sign hspec) (by simp) rfl rfl

theorem packageClause : packageClause.Gives ts (Reads C ts (Kind.among [.packageClause])) := by
  intro i
  refine (h.lexed.keyword "package").bind fun package j hpackage => ?_
  refine (h.lexed.name .packageIdentifier rfl).bind fun id l hid => .pure ?_
  exact .spanning (hpackage.sign (hid.plain 0 rfl (ReadsRow.nil l))) (by simp) rfl rfl

theorem importSpec : importSpec.Gives ts (Reads C ts (Kind.among [.importSpec])) := by
  intro i
  have hname : Gives ts (do
      if ← seesSymbol 0 "." then (·.withKind .dot) <$> Rule.symbol "."
      else if ← sees 0 (·.text == "_") then Rule.name .blankIdentifier
      else Rule.name .packageIdentifier)
      (Reads C ts (Kind.among [.dot, .blankIdentifier, .packageIdentifier])) := by
    intro i
    refine (still_seesSymbol 0 ".").bind fun dotted => ?_
    split
    · exact (h.lexed.symbolAs _ _ rfl rfl i).imp fun _ _ ht => ht.one rfl
    refine (still_sees 0 _).bind fun blank => ?_
    split
    · exact (h.lexed.name _ rfl i).imp fun _ _ ht => ht.one rfl
    · exact (h.lexed.name _ rfl i).imp fun _ _ ht => ht.one rfl
  refine (hname.perhapsPart .importSpec 0 rfl).bind fun id j hid => ?_
  refine h.stringLiteral.bind fun path l hpath => .pure ?_
  exact .spanning (Row.append hid (hpath.part 1 rfl (ReadsRow.nil l))) (by simp) rfl rfl

theorem importDeclaration :
    importDeclaration.Gives ts (Reads C ts (Kind.among [.importDeclaration])) := by
  have hitem : Grammar.importSpec.Gives ts fun i j t => ReadsRow C ts .importSpecList i j [t] :=
    h.importSpec.imp fun _ j _ ht => ht.plain 0 rfl (ReadsRow.nil j)
  have hlist : (Tree.spanning .importSpecList <$> Rule.between "(" ")"
      (Rule.terminated Grammar.importSpec)).Gives ts
      (Reads C ts (Kind.among [.importSpec, .importSpecList])) :=
    (h.lexed.between _ _ (h.lexed.terminated hitem)).map
      fun _ _ _ hcs => .spanning hcs.2 hcs.1 rfl rfl
  intro i
  refine (h.lexed.keyword "import").bind fun import_ j himport => ?_
  refine (still_seesSymbol 0 "(").bind fun paren => ?_
  dsimp only
  split
  · refine hlist.bind fun specs l hspecs => .pure ?_
    exact .spanning (himport.sign (hspecs.plain 0 rfl (ReadsRow.nil l))) (by simp) rfl rfl
  · refine h.importSpec.bind fun spec l hspec => .pure ?_
    exact .spanning (himport.sign ((hspec.one rfl).plain 0 rfl (ReadsRow.nil l))) (by simp) rfl rfl

theorem optionalBody (hk : k.parts[2]? = some (some .body, Kind.among [.block])) :
    (optionalBody g).Gives ts (ReadsRow C ts k) := by
  intro i
  refine (still_seesSymbol 0 _).bind fun brace => ?_
  split
  · exact (h.goal .block).bind fun body j hbody => .pure (hbody.part 2 hk (ReadsRow.nil j))
  · exact .pure (.nil i)

theorem functionDeclaration :
    (functionDeclaration g).Gives ts (Reads C ts (Kind.among [.functionDeclaration])) := by
  intro i
  refine (h.lexed.keyword "func").bind fun func j hfunc => ?_
  refine (h.lexed.name .identifier rfl).bind fun id l hid => ?_
  refine (still_seesSymbol 0 "[").bind fun bracket => ?_
  have hrest : ∀ (params : Option Tree) m,
      ReadsRow C ts .functionDeclaration l m (params.map (·.withField .typeParameters)).toList →
      Post ts (do
        let sig ← Grammar.signature g
        let body ← Grammar.optionalBody g
        pure (Tree.spanning .functionDeclaration (func :: id.withField .name ::
          (params.map (·.withField .typeParameters)).toList ++ sig ++ body))) m
        fun t n => Reads C ts (Kind.among [.functionDeclaration]) i n t := by
    intro params m hparams
    refine h.signature.bind fun sig n hsig => ?_
    refine (h.optionalBody (k := .functionDeclaration) rfl).bind fun body o hbody => .pure ?_
    have hsig : ReadsRow C ts .functionDeclaration m n sig :=
      hsig.grow (List.subset_append_right _ _)
    exact .headed hfunc (hid.part 0 rfl (Row.append (Row.append hparams hsig) hbody)) rfl rfl
      fun _ => ⟨_, List.mem_cons_self, id.field_withField .name⟩
  dsimp only
  split
  · refine .bind (h.typeParameters.bind fun params m hparams => .pure (hrest (some params) m ?_))
    exact hparams.part 1 rfl (ReadsRow.nil m)
  · exact .bind (.pure (hrest none l (.nil l)))

theorem methodDeclaration :
    (methodDeclaration g).Gives ts (Reads C ts (Kind.among [.methodDeclaration])) := by
  intro i
  refine (h.lexed.keyword "func").bind fun func j hfunc => ?_
  refine (h.goal .parameters).bind fun receiver l hreceiver => ?_
  refine (h.lexed.name .fieldIdentifier rfl).bind fun id m hid => ?_
  refine h.signature.bind fun sig n hsig => ?_
  refine (h.optionalBody (k := .methodDeclaration) rfl).bind fun body o hbody => .pure ?_
  have hsig : ReadsRow C ts .methodDeclaration m n sig := hsig.grow (List.subset_append_right _ _)
  exact .headed hfunc (hreceiver.part 0 rfl (hid.part 1 rfl (Row.append hsig hbody))) rfl rfl
    fun _ => ⟨_, List.mem_cons_of_mem _ List.mem_cons_self, id.field_withField .name⟩

end

end GoAtlas.Syntax.Grammar.Lays
