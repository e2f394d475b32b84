import GoAtlas.Proofs.Check.Roles

namespace GoAtlas.Check

open Syntax Reference

variable {P : Action → Prop} {source : ByteArray} {S : List Site} {p t c : Tree} {gp : Option Tree}
  {role : Role}

theorem ownType_placed (source : ByteArray) (S : List Site) (t : Tree) :
    EachOf (·.Placed source S) (ownType source t) := by
  unfold ownType
  split
  · exact .act trivial
  · split
    · exact .act trivial
    · trivial

theorem isDeclaration_of_kind (hk : t.kind.isSelective = false) (hd : Site.declaresName t.kind = false)
    (hl : t.kind ≠ .expressionList) : Site.isDeclaration ⟨c, some t, gp⟩ = false := by
  have hp : t.kind ≠ .packageClause := fun he => by simp [he, Kind.isSelective] at hk
  simp only [Site.isDeclaration, if_neg hp, if_neg hl, hd, isFreshTarget_of_kind hk]
  rfl

theorem Plain.ofTarget (ht : Target p gp t) (hne : t.kind ≠ .expressionList)
    (hid : t.kind ≠ .identifier) : Plain p gp t := by
  have hs : t.kind.isSpecial = false ∧ t.kind.isUsed = false := by
    rcases ht.kind with hk | hk | hk
    · exact (hne hk).elim
    · exact hk ▸ ⟨rfl, rfl⟩
    · refine ⟨Kind.isSpecial_of_isExpression hk, ?_⟩
      simp only [Kind.isUsed, hid, decide_false, Bool.false_or, decide_eq_false_iff_not]
      exact fun he => by simp [he, Kind.isExpression] at hk
  exact ⟨hs.1, fun hu => by simp [hs.2] at hu, fun he => (hne he).elim⟩

/-- The list of targets of a statement that declares them. -/
theorem Target.ofList (hc : c.kind = .expressionList) (hf : Site.isFreshTarget c t) :
    Target t gp c :=
  ⟨.inl hc, fun hid => by simp [hc] at hid, fun hid => by simp [hc] at hid, fun _ => hf⟩

namespace Parted

variable (h : Parted P source S p t)
include h

theorem function (hk : Kind.among [.functionDeclaration, .methodDeclaration, .funcLiteral] t.kind)
    (hr : role.settle t = .function) : EachOf P (bindings source role t) := by
  have hk : t.kind = .functionDeclaration ∨ t.kind = .methodDeclaration ∨ t.kind = .funcLiteral := by
    simpa [Kind.among] using hk
  have hp : t.kind ≠ .packageClause ∧ t.kind ≠ .expressionList := by
    rcases hk with hk | hk | hk <;> simp [hk]
  obtain ⟨k, f, s, cs⟩ := t
  unfold bindings
  simp only [hr]
  refine .scope (.append (.append (.append (.append (h.inPart _ (by simp) _ ?_) ?_)
    (h.inPart _ (by simp) _ ?_)) (h.inPart _ (by simp) _ ?_)) (h.inPart _ (by simp) _ ?_))
  · intro c _ ha
    rcases hk with rfl | rfl | rfl
    · exact Kind.eq_of_admits ha rfl
    · exact (Kind.not_admits rfl ha).elim
    · exact (Kind.not_admits rfl ha).elim
  · split
    · next hm =>
      cases hm
      exact h.inPart _ (by simp) _ fun c _ ha => Kind.eq_of_admits ha rfl
    · trivial
  · intro c _ ha
    rcases hk with rfl | rfl | rfl <;> exact .inl (Kind.eq_of_admits ha rfl)
  · intro c hf ha
    have hc : c.kind = .parameterList ∨ c.kind.isType := by
      rcases hk with rfl | rfl | rfl <;> simpa using Kind.of_admits_one ha rfl
    refine hc.imp id fun hc => ?_
    exact .ofPart (Kind.isSpecial_of_isType hc) hp.1 hp.2 (by simp [hf])
      (by simp [Site.isFreshTarget, hf])
  · intro c _ ha
    rcases hk with rfl | rfl | rfl <;> exact Kind.eq_of_admits ha rfl

theorem typeSpec (hk : t.isTypeSpec) : EachOf P (bindings source .typeSpec t) := by
  have hk : t.kind = .typeSpec ∨ t.kind = .typeAlias := by simpa [Tree.isTypeSpec] using hk
  have hp : t.kind ≠ .packageClause ∧ t.kind ≠ .expressionList := by
    rcases hk with hk | hk <;> simp [hk]
  obtain ⟨k, f, s, cs⟩ := t
  refine .scope (.append (h.inPart _ (by simp) _ fun c _ ha => ?_)
    (h.plainPart _ (by simp) hp fun c ha => Kind.isSpecial_of_isType ?_))
  · rcases hk with rfl | rfl <;> exact Kind.eq_of_admits ha rfl
  · rcases hk with rfl | rfl <;> exact Kind.of_admits_one ha rfl

/-- The types and values of a specification. -/
theorem values (hk : Kind.among [.varSpec, .constSpec, .typeParameterDeclaration] t.kind) :
    EachOf P (bindingsOf source (Role.inPart .type .plain) t.children
      ++ bindingsOf source (Role.inPart .value .plain) t.children) := by
  have hk : t.kind = .varSpec ∨ t.kind = .constSpec ∨ t.kind = .typeParameterDeclaration := by
    simpa [Kind.among] using hk
  have hp : t.kind ≠ .packageClause ∧ t.kind ≠ .expressionList := by
    rcases hk with hk | hk | hk <;> simp [hk]
  refine .append (h.plainPart _ (by simp) hp fun c ha => ?_)
    (h.plainPart _ (by simp) hp fun c ha => ?_)
  · rcases hk with hk | hk | hk <;> rw [hk] at ha
    · exact Kind.isSpecial_of_isType (Kind.of_admits_one ha rfl)
    · exact Kind.isSpecial_of_isType (Kind.of_admits_one ha rfl)
    · exact Kind.eq_of_admits ha rfl ▸ rfl
  · rcases hk with hk | hk | hk <;> rw [hk] at ha
    · exact Kind.eq_of_admits ha rfl ▸ rfl
    · exact Kind.eq_of_admits ha rfl ▸ rfl
    · exact (Kind.not_admits rfl ha).elim

end Parted

namespace Inner

variable (h : Inner source S p t)
include h

theorem plainChildren (hs : t.kind.isSpecial = false) (hk : t.kind.isSelective = false)
    (ht : t.kind = .expressionList → Site.isFreshTarget t p = false) :
    ∀ c ∈ t.children, Plain t (some p) c :=
  fun _ hc => .child hs hk ht (h.admits hc)

theorem shortVar (hk : t.kind = .shortVarDeclaration) (types : List (Nat × Option String)) :
    EachOf (·.Placed source S) (bindingsOf source (Role.inPart .right .plain) t.children
      ++ bindingsOf source (Role.inPart .left (.shortTargets types)) t.children) := by
  refine .append (h.parted.plainPart _ (by simp) (by simp [hk]) fun c ha => ?_)
    (bindingsOf_each fun c hc role hr => ?_)
  · rw [hk] at ha
    have hc : c = .expressionList := Kind.eq_of_admits ha rfl
    rw [hc]
    rfl
  · simp only [Role.inPart, Option.ite_none_right_eq_some, Option.some.injEq] at hr
    obtain ⟨hf, rfl⟩ := hr
    have ha := hf ▸ h.admits hc
    rw [hk] at ha
    obtain ⟨sign, hsign, hkind⟩ := h.laid.signed.define hk ⟨c, hc, hf⟩
    have htoken : t.hasToken ":=" = true := List.any_eq_true.mpr ⟨sign, hsign, by simp [hkind]⟩
    apply h.each c hc
    exact .ofList (Kind.eq_of_admits ha rfl) (by simp [Site.isFreshTarget, hk, hf, htoken]; rfl)

theorem targets (hk : t.kind = .rangeClause ∨ t.kind = .receiveStatement) :
    EachOf (·.Placed source S) (bindingsOf source (Role.inPart .right .plain) t.children
      ++ bindingsOf source
        (Role.inPart .left (if t.hasToken ":=" then .freshTargets else .plain)) t.children) := by
  have hp : t.kind ≠ .packageClause ∧ t.kind ≠ .expressionList := by
    rcases hk with hk | hk <;> simp [hk]
  refine .append (h.parted.plainPart _ (by simp) hp fun c ha => ?_)
    (h.parted.inPart _ (by simp) _ fun c hf ha => ?_)
  · have hc : c.isExpression := by
      rcases hk with hk | hk <;> rw [hk] at ha <;> exact Kind.of_admits_one ha rfl
    exact Kind.isSpecial_of_isExpression hc
  · have hc : c.kind = .expressionList := by
      rcases hk with hk | hk <;> rw [hk] at ha <;> exact Kind.eq_of_admits ha rfl
    split
    · next ht =>
      refine .ofList hc ?_
      rcases hk with hk | hk <;> simp [Site.isFreshTarget, hk, hf, ht] <;> rfl
    · next ht =>
      exact .ofPart (by rw [hc]; rfl) hp.1 hp.2 (by simp [hf]) (by simp [Site.isFreshTarget, ht])

theorem valueSpecs (kind : Kind) (k : ObjectKind) (hk : kind = .varSpec ∨ kind = .constSpec) :
    EachOf (·.Placed source S)
      (bindingsOf source (Role.ofSpecs kind (.valueSpec k)) t.children) := by
  refine h.ofSpecs _ _ fun c _ hc => ?_
  rcases hc with hc | hc
  · rcases hk with rfl | rfl <;> simp [Role.Apt, Kind.among, hc]
  · simp [Role.Apt, Kind.among, hc]

/-- The types of a declaration inside a function, which are bound before they are gone through. -/
theorem typeSpecs : EachOf (·.Placed source S)
    ((t.typeSpecs.filterMap (·.part? .name)).map
        (fun n => .act (.declare (Ident.of source n) .type none))
      ++ bindingsOf source (Role.ofNamedIf Tree.isTypeSpec .typeSpec) t.children) := by
  refine .append (.map fun n hn => ?_) (h.ofNamedIf _ _ fun c _ hc => hc)
  obtain ⟨spec, hspec, hn⟩ := List.mem_filterMap.mp hn
  obtain ⟨hspec, hkind⟩ := List.mem_filter.mp hspec
  have hspec : spec ∈ t.children := (List.mem_filter.mp hspec).1
  obtain ⟨hn, hf⟩ := mem_of_part? hn
  have hk := (h.laid.row.mem hspec).2.2.1.row.mem hn
  have hk : n.kind = .typeIdentifier := by
    have ha := hk.2.2.2
    rw [hf] at ha
    simp only [Tree.isTypeSpec, Bool.or_eq_true, decide_eq_true_eq] at hkind
    rcases hkind with hkind | hkind <;> rw [hkind] at ha <;>
      exact Kind.eq_of_admits ha rfl
  simp only [Tree.isTypeSpec, Bool.or_eq_true, decide_eq_true_eq] at hkind
  refine h.given hspec (sites_child_subset hn (self_mem_sites n (some spec) (some t)))
    (by rw [hk]; rfl) (by simp [hk]) (.inl (isDeclaration_name ?_ hf)) ?_ none
  all_goals rcases hkind with hkind | hkind <;> rw [hkind] <;> rfl

theorem typeSwitch (hk : t.kind = .typeSwitchStatement) : EachOf (·.Placed source S)
    (bindingsOf source (Role.inPart .initializer .plain) t.children
      ++ bindingsOf source (Role.inPart .value .plain) t.children
      ++ bindingsOf source (Role.ofNamedIf Tree.isClause (.clause
        (((Tree.expressions? (t.part? .switchAlias)).filter (·.kind = .identifier)).map
          (Ident.of source)))) t.children) := by
  have hp : t.kind ≠ .packageClause ∧ t.kind ≠ .expressionList := by simp [hk]
  refine .append (.append (h.parted.plainPart _ (by simp) hp fun c ha => ?_)
    (h.parted.plainPart _ (by simp) hp fun c ha => ?_)) (h.ofNamedIf _ _ fun c hc ht => ⟨ht, ?_⟩)
  · rw [hk] at ha
    exact Kind.isSpecial_of_isSimple (Kind.of_admits_one ha rfl)
  · rw [hk] at ha
    exact Kind.isSpecial_of_isExpression (Kind.of_admits_one ha rfl)
  · intro a ha
    obtain ⟨e, he, rfl⟩ := List.mem_map.mp ha
    obtain ⟨he, hid⟩ := List.mem_filter.mp he
    have hid : e.kind = .identifier := by simpa using hid
    cases hl : t.part? .switchAlias with
    | none => simp [hl, Tree.expressions?] at he
    | some list =>
      obtain ⟨hlist, hf⟩ := mem_of_part? hl
      have hkl : list.kind = .expressionList := by
        have ha := hf ▸ h.admits hlist
        rw [hk] at ha
        exact Kind.eq_of_admits ha rfl
      have he : e ∈ list.children := by
        simp only [hl, Tree.expressions?, Option.map_some, Option.getD_some, Tree.expressions, hkl,
          if_true] at he
        exact (List.mem_filter.mp (List.mem_filter.mp he).1).1
      exact h.given hlist (sites_child_subset he (self_mem_sites e (some list) (some t)))
        (by rw [hid]; rfl) (by simp [hid]) (.inr (.inl (by simp [isSwitchAlias, hkl, hf])))
        (by rw [hkl]; rfl) none

theorem parameterType
    (hk : t.kind = .parameterDeclaration ∨ t.kind = .variadicParameterDeclaration) :
    EachOf (·.Placed source S) (bindingsOf source (Role.inPart .type .plain) t.children) := by
  refine h.parted.plainPart _ (by simp) ?_ fun c ha => Kind.isSpecial_of_isType ?_
  · rcases hk with hk | hk <;> simp [hk]
  · rcases hk with hk | hk <;> rw [hk] at ha <;> exact Kind.of_admits_one ha rfl

theorem selected (hc : c ∈ t.children) (hi : c.kind.isIdentifier)
    (hk : t.kind = .selectorExpression ∧ c.field = some .field ∨ t.kind = .qualifiedType) :
    Selected source S (Ident.of source c) := by
  refine ⟨_, h.sites c hc (self_mem_sites c (some t) (some p)), hi, ?_, rfl, ?_⟩
  · rcases hk with ⟨hk, -⟩ | hk <;>
      exact isDeclaration_of_kind (by rw [hk]; rfl) (by rw [hk]; rfl) (by simp [hk])
  · rcases hk with ⟨hk, hf⟩ | hk
    · simp [isSelected, hk, hf]
    · simp [isSelected, hk]

theorem memberUse (hk : t.kind = .selectorExpression) :
    EachOf (·.Placed source S) (memberUse source t) := by
  unfold Check.memberUse
  split
  · next operand field _ hfield =>
    split
    · obtain ⟨hc, hf⟩ := mem_of_part? hfield
      have ha := hf ▸ h.admits hc
      rw [hk] at ha
      have hfield : field.kind = .fieldIdentifier := by
        exact Kind.eq_of_admits ha rfl
      exact .act (h.selected hc (by rw [hfield]; rfl) (.inl ⟨hk, hf⟩))
    · trivial
  · trivial

theorem qualifiedUse (hk : t.kind = .qualifiedType) :
    EachOf (·.Placed source S) (qualifiedUse source t) := by
  unfold Check.qualifiedUse
  split
  · next package name hpackage hname =>
    obtain ⟨hc, hf⟩ := mem_of_part? hpackage
    obtain ⟨hc', hf'⟩ := mem_of_part? hname
    have ha := hf ▸ h.admits hc
    have ha' := hf' ▸ h.admits hc'
    rw [hk] at ha ha'
    have hpackage : package.kind = .packageIdentifier := by
      exact Kind.eq_of_admits ha rfl
    have hname : name.kind = .typeIdentifier := by
      simpa [Kind.among] using Kind.of_admits_one ha' rfl
    exact .act ⟨h.selected hc (by rw [hpackage]; rfl) (.inr hk),
      h.selected hc' (by rw [hname]; rfl) (.inr hk)⟩
  · trivial

theorem plain (hself : ⟨t, some p, gp⟩ ∈ S) (hp : Plain p gp t) (hne : t.kind ≠ .funcLiteral)
    (hr : role.settle t = .plain) : EachOf (·.Placed source S) (bindings source role t) := by
  obtain ⟨k, f, s, cs⟩ := t
  have hchildren : k.isSelective = false →
      ∀ c ∈ cs, Plain (.node k f s cs) (some p) c :=
    fun hk => h.plainChildren hp.kind hk hp.target
  have hall : k.isSelective = false →
      EachOf (·.Placed source S) (bindingsOf source (Role.ofNamed .plain) cs) :=
    fun hk => h.ofNamed .plain fun c hc _ => hchildren hk c hc
  have hused : k.isUsed → Used source S (Ident.of source (.node k f s cs)) :=
    fun hu => ⟨_, hself, Kind.isIdentifier_of_isUsed hu, hp.use hu, rfl⟩
  unfold bindings
  simp only [hr]
  split
  all_goals first
    | trivial
    | exact .scope (hall rfl)
    | skip
  · exact h.shortVar rfl _
  · exact h.valueSpecs _ _ (.inl rfl)
  · exact h.valueSpecs _ _ (.inr rfl)
  · exact h.typeSpecs
  · exact .scope (h.typeSwitch rfl)
  · exact h.targets (.inl rfl)
  · exact h.targets (.inr rfl)
  · exact h.parameterType (.inl rfl)
  · exact h.parameterType (.inr rfl)
  · exact .append (bindingsOfFirst_each fun c hc => h.each c hc .key (hchildren rfl c hc))
      (bindingsOfRest_each fun c hc => h.each c hc .plain (hchildren rfl c hc))
  · refine .append (h.parted.plainPart _ (by simp) (by simp [Tree.kind]) fun c ha => ?_)
      (h.memberUse rfl)
    exact Kind.isSpecial_of_isExpression (Kind.of_admits_one ha rfl)
  · exact h.qualifiedUse rfl
  · exact .act (hused rfl)
  · exact .act (hused rfl)
  · refine .append (ownType_placed _ _ _) (hall ?_)
    unfold Kind.isSelective
    split <;> first | rfl | contradiction

theorem namesOf (hc : c ∈ t.children) (hk : Site.declaresName c.kind)
    (hn : ∀ k, c.kind.admits (some .name) k → k.isMark ∧ k ≠ .fieldIdentifier)
    (hs : c.kind.isValueSpec = false) :
    ∀ n ∈ c.parts .name, Given source S (Ident.of source n) none := by
  intro n hm
  obtain ⟨hm, hf⟩ := List.mem_filter.mp hm
  have hf : n.field = some .name := by simpa using hf
  have hrow := (h.laid.row.mem hc).2.2.1.row
  obtain ⟨hmark, hne⟩ := hn n.kind (hf ▸ (hrow.mem hm).2.2.2)
  exact h.given hc (sites_child_subset hm (self_mem_sites n (some c) (some t))) hmark hne
    (.inl (isDeclaration_name hk hf)) hs none

theorem typeParameters : EachOf (·.Placed source S) (bindings source .typeParameters t) := by
  obtain ⟨k, f, s, cs⟩ := t
  refine .append (.flatMap fun d hd => ?_) (h.ofNamedIf _ _ fun c _ hc => ?_)
  · have hk : d.kind = .typeParameterDeclaration := by simpa using (List.mem_filter.mp hd).2
    have hd : d ∈ cs := (List.mem_filter.mp (List.mem_filter.mp hd).1).1
    refine .map (h.namesOf hd (by rw [hk]; rfl) (fun k ha => ?_) (by rw [hk]; rfl))
    rw [hk] at ha
    exact Kind.eq_of_admits ha rfl ▸ ⟨rfl, by simp⟩
  · have hk : c.kind = .typeParameterDeclaration := by simpa using hc
    simp [Role.Apt, Kind.among, hk]

theorem parameters (hr : role.settle t = .parameters) :
    EachOf (·.Placed source S) (bindings source role t) := by
  obtain ⟨k, f, s, cs⟩ := t
  unfold bindings
  simp only [hr]
  exact h.ofNamedIf _ _ fun c _ hc => hc

theorem parameterNames (hk : t.kind = .parameterDeclaration ∨ t.kind = .variadicParameterDeclaration)
    (kind : ObjectKind) (type : Option String) :
    EachOf (·.Placed source S) (declareNames source kind type t) := by
  have hnames := h.givenNames (by rcases hk with hk | hk <;> rw [hk] <;> rfl) fun c ha => by
    rcases hk with hk | hk <;> rw [hk] at ha <;> exact Kind.eq_of_admits ha rfl ▸ ⟨rfl, by simp⟩
  refine .map fun n hn => hnames n hn type fun hs => ?_
  rcases hk with hk | hk <;> rw [hk] at hs <;> cases hs

theorem parameter (hk : t.isParameter) :
    EachOf (·.Placed source S) (bindings source .parameter t) := by
  have hk : t.kind = .parameterDeclaration ∨ t.kind = .variadicParameterDeclaration := by
    simpa [Tree.isParameter] using hk
  obtain ⟨k, f, s, cs⟩ := t
  exact .append (h.parameterType hk) (h.parameterNames hk _ _)

theorem receivers : EachOf (·.Placed source S) (bindings source .receivers t) := by
  obtain ⟨k, f, s, cs⟩ := t
  refine h.ofNamedIf _ _ fun c _ hc => ?_
  have hc : c.kind = .parameterDeclaration := by simpa using hc
  exact hc

theorem receiver (hk : t.kind = .parameterDeclaration) :
    EachOf (·.Placed source S) (bindings source .receiver t) := by
  have hp : t.kind ≠ .packageClause ∧ t.kind ≠ .expressionList := by simp [hk]
  obtain ⟨k, f, s, cs⟩ := t
  refine .append (h.parted.inPart _ (by simp) _ fun c hf ha => ?_) (h.parameterNames (.inl hk) _ _)
  cases hk
  exact .ofPart (Kind.isSpecial_of_isType (Kind.of_admits_one ha rfl)) hp.1 hp.2 (by simp [hf])
    (by simp [Site.isFreshTarget, hf])

theorem receiverParameters (hg : t.kind = .genericType) :
    EachOf (·.Placed source S) (receiverParameters source t) := by
  refine .map fun d hd => ?_
  obtain ⟨hd, hk⟩ := List.mem_filter.mp hd
  have hk : d.kind = .typeIdentifier := by simpa using hk
  obtain ⟨a, ha, rfl⟩ := List.mem_map.mp hd
  cases hl : t.part? .typeArguments with
  | none => simp [hl] at ha
  | some arguments =>
    obtain ⟨hm, hf⟩ := mem_of_part? hl
    have hkl : arguments.kind = .typeArguments := by
      have ha := hf ▸ h.admits hm
      rw [hg] at ha
      exact Kind.eq_of_admits ha rfl
    have ha : a ∈ arguments.named := by simpa [hl] using ha
    have ha : a ∈ arguments.children := (List.mem_filter.mp ha).1
    split at hk
    · next hka =>
      cases hh : a.named.head? with
      | none => simp [hh, hka] at hk
      | some e =>
        have he : e ∈ a.children := (List.mem_filter.mp (List.mem_of_mem_head? hh)).1
        have hk : e.kind = .typeIdentifier := by simpa [hh] using hk
        rw [if_pos hka, Option.getD_some]
        have hsite : ⟨e, some a, some arguments⟩ ∈ Reference.sites (some arguments) (some t) a :=
          sites_child_subset he (self_mem_sites e (some a) (some arguments))
        exact h.given hm (sites_child_subset ha hsite) (by rw [hk]; rfl) (by simp [hk])
          (.inr (.inr (by simp [isTypeArgument, hka, hkl]))) (by rw [hka]; rfl) none
    · -- an argument is a type element, unless it is a comment
      have hadmits := ((h.laid.row.mem hm).2.2.1.row.mem ha).2.2.2
      rw [hkl, hk] at hadmits
      cases hfield : a.field with
      | none => rw [hfield] at hadmits; cases hadmits
      | some f => rw [hfield] at hadmits; exact (Kind.not_admits rfl hadmits).elim

theorem receiverType
    (hk : t.kind = .pointerType ∨ t.kind = .parenthesizedType ∨ t.kind = .genericType)
    (hr : role.settle t = .receiverType) :
    EachOf (·.Placed source S) (bindings source role t) := by
  obtain ⟨k, f, s, cs⟩ := t
  unfold bindings
  simp only [hr]
  split
  · next hg =>
    cases hg
    refine .append (h.parted.plainPart _ (by simp) (by simp [Tree.kind]) fun c ha => ?_)
      (h.receiverParameters rfl)
    exact Kind.isSpecial_of_isTypeName (Kind.of_admits_one ha rfl)
  · next hg =>
    refine bindingsOfFirst_each fun c hc => h.each c hc .receiverType ?_
    rcases hk with rfl | rfl | hk
    · exact h.plainChildren rfl rfl (by simp [Tree.kind]) c hc
    · exact h.plainChildren rfl rfl (by simp [Tree.kind]) c hc
    · exact (hg hk).elim

theorem specNames (hk : t.kind = .varSpec ∨ t.kind = .constSpec) (kind : ObjectKind) :
    EachOf (·.Placed source S)
      ((specNames source t).map fun (n, type) => .act (.declare n kind type)) := by
  have hdeclares : Site.declaresName t.kind := by
    rcases hk with hk | hk <;> rw [hk] <;> rfl
  have hnames := h.givenNames hdeclares fun c ha => by
    rcases Kind.identifier_or_comma (Kind.isValueSpec_iff.mpr hk) ha with rfl | ⟨rfl, -⟩
    · exact ⟨rfl, by simp⟩
    · exact ⟨rfl, by simp⟩
  refine .map fun x hx => ?_
  obtain ⟨⟨n, i⟩, hn, rfl⟩ := List.mem_map.mp hx
  exact hnames n (List.fst_mem_of_mem_zipIdx hn) _ fun _ => hx

theorem valueSpec (hk : Kind.among [.varSpec, .constSpec, .varSpecList] t.kind) (kind : ObjectKind) :
    EachOf (·.Placed source S) (bindings source (.valueSpec kind) t) := by
  have hk : t.kind = .varSpec ∨ t.kind = .constSpec ∨ t.kind = .varSpecList := by
    simpa [Kind.among] using hk
  obtain ⟨k, f, s, cs⟩ := t
  unfold bindings
  simp only [Role.settle]
  split
  · exact h.valueSpecs _ _ (.inl rfl)
  · next hne =>
    have hk : k = .varSpec ∨ k = .constSpec := by
      rcases hk with hk | hk | hk
      · exact .inl hk
      · exact .inr hk
      · exact (hne hk).elim
    refine .append (h.parted.values ?_) (h.specNames hk kind)
    rcases hk with rfl | rfl <;> rfl

theorem valueUses
    (hk : Kind.among [.varSpec, .constSpec, .varSpecList, .typeParameterDeclaration] t.kind) :
    EachOf (·.Placed source S) (bindings source .valueUses t) := by
  obtain ⟨k, f, s, cs⟩ := t
  unfold bindings
  simp only [Role.settle]
  split
  · refine h.ofSpecs _ _ fun c _ hc => ?_
    rcases hc with hc | hc <;> simp [Role.Apt, Kind.among, hc]
  · next hne => exact h.parted.values (by simp_all [Kind.among, Tree.kind])

theorem targetChildren (hk : t.kind = .expressionList) (hp : Site.isFreshTarget t p)
    (hc : c ∈ t.children) (hn : c.kind.isNamed) : Target t (some p) c := by
  have ha := h.admits hc
  rw [hk] at ha
  have hkind : c.kind = .comment ∨ c.kind.isExpression := by
    rcases Bool.or_eq_true_iff.mp ha with ha | ha
    · have hfiller : c.kind.isToken ∨ c.kind = .comment := by
        simpa [Kind.isFiller] using (Bool.and_eq_true_iff.mp ha).2
      refine .inl (hfiller.resolve_left fun ht => ?_)
      cases hkind : c.kind <;> simp_all [Kind.isToken, Kind.isNamed]
    · obtain ⟨q, hq, ha⟩ := List.any_eq_true.mp ha
      obtain rfl := List.mem_singleton.mp hq
      exact .inr (Bool.and_eq_true_iff.mp ha).2
  refine ⟨.inr hkind, fun _ => ?_, fun _ => hk, fun he => ?_⟩
  · simp only [Site.isDeclaration, hk, Option.map_some, Option.getD_some, hp]
    rfl
  · rcases hkind with hkind | hkind <;> simp [he, Kind.isExpression] at hkind

theorem shortTargets (hself : ⟨t, some p, gp⟩ ∈ S) (ht : Target p gp t)
    (types : List (Nat × Option String))
    (hk : t.kind = .expressionList ∨ t.kind = .identifier)
    (hr : role.settle t = .shortTargets types) :
    EachOf (·.Placed source S) (bindings source role t) := by
  obtain ⟨k, f, s, cs⟩ := t
  unfold bindings
  simp only [hr]
  split
  · next he => exact h.ofNamed _ fun c hc hn => h.targetChildren he (ht.fresh he) hc hn
  · next hne =>
    have hk : k = .identifier := hk.resolve_left hne
    exact .act ⟨_, hself, hk, ht.declares hk, rfl, by simp [ht.listed hk]⟩

theorem freshTargets (hself : ⟨t, some p, gp⟩ ∈ S) (ht : Target p gp t)
    (hk : t.kind = .expressionList ∨ t.kind = .identifier) (hr : role.settle t = .freshTargets) :
    EachOf (·.Placed source S) (bindings source role t) := by
  obtain ⟨k, f, s, cs⟩ := t
  unfold bindings
  simp only [hr]
  split
  · next he => exact h.ofNamed _ fun c hc hn => h.targetChildren he (ht.fresh he) hc hn
  · next hne =>
    have hk : k = .identifier := hk.resolve_left hne
    exact .act (Targeted.given ⟨_, hself, hk, ht.declares hk, rfl, by simp [ht.listed hk]⟩ none)

theorem body (hk : t.kind = .block) : EachOf (·.Placed source S) (bindings source .body t) := by
  obtain ⟨k, f, s, cs⟩ := t
  cases hk
  exact h.ofNamed _ fun c hc _ => h.plainChildren rfl rfl (by simp [Tree.kind]) c hc

theorem clause (hk : t.isClause) {aliases : List Ident}
    (ha : ∀ a ∈ aliases, Given source S a none) :
    EachOf (·.Placed source S) (bindings source (.clause aliases) t) := by
  obtain ⟨k, f, s, cs⟩ := t
  refine .scope (.append (.map ha) (h.ofNamed _ fun c hc _ => ?_))
  have hk : k.isSpecial = false ∧ k.isSelective = false ∧ k ≠ .expressionList := by
    simp only [Tree.isClause, Tree.kind] at hk
    split at hk <;> first | exact ⟨rfl, rfl, by simp⟩ | cases hk
  exact h.plainChildren hk.1 hk.2.1 (fun he => (hk.2.2 he).elim) c hc

theorem key (hk : t.kind = .literalElement) (hr : role.settle t = .key) :
    EachOf (·.Placed source S) (bindings source role t) := by
  obtain ⟨k, f, s, cs⟩ := t
  unfold bindings
  simp only [hr]
  cases hk
  refine bindingsOfFirst_each fun c hc => h.each c hc .fieldKey ?_
  exact h.plainChildren rfl rfl (by simp [Tree.kind]) c hc

theorem fieldKey (hself : ⟨t, some p, gp⟩ ∈ S) (hp : Plain p gp t) (hk : t.kind = .identifier)
    (hr : role.settle t = .fieldKey) : EachOf (·.Placed source S) (bindings source role t) := by
  have hu : t.kind.isUsed := by simp [Kind.isUsed, hk]
  have hused : Used source S (Ident.of source t) :=
    ⟨_, hself, Kind.isIdentifier_of_isUsed hu, hp.use hu, rfl⟩
  obtain ⟨k, f, s, cs⟩ := t
  unfold bindings
  simp only [hr]
  exact .act hused

theorem settledPlain (hself : ⟨t, some p, gp⟩ ∈ S) (hp : Plain p gp t)
    (hr : role.settle t = Role.settle.settlePlain t) :
    EachOf (·.Placed source S) (bindings source role t) := by
  unfold Role.settle.settlePlain at hr
  split at hr
  · next hk => exact h.parted.function (by rw [hk]; rfl) hr
  · next hk => exact h.plain hself hp hk hr

theorem bindings (hself : ⟨t, some p, gp⟩ ∈ S) (ha : role.Apt source S p gp t) :
    EachOf (·.Placed source S) (bindings source role t) := by
  cases role with
  | plain => exact h.settledPlain hself ha rfl
  | topLevel => exact ha.elim
  | function => exact h.parted.function ha rfl
  | typeParameters => exact h.typeParameters
  | parameters =>
    by_cases hk : t.kind = .parameterList
    · exact h.parameters (by simp [Role.settle, hk])
    · exact h.settledPlain hself (ha.resolve_left hk) (by simp [Role.settle, hk])
  | parameter => exact h.parameter ha
  | receivers => exact h.receivers
  | receiver => exact h.receiver ha
  | receiverType =>
    by_cases hk : t.kind = .pointerType ∨ t.kind = .parenthesizedType ∨ t.kind = .genericType
    · exact h.receiverType hk (by rcases hk with hk | hk | hk <;> simp [Role.settle, hk])
    · refine h.settledPlain hself ha ?_
      unfold Role.settle
      split <;> simp_all
  | body => exact h.body ha
  | typeSpec => exact h.parted.typeSpec ha
  | valueUses => exact h.valueUses ha
  | valueSpec kind => exact h.valueSpec ha kind
  | shortTargets types =>
    by_cases hk : t.kind = .expressionList ∨ t.kind = .identifier
    · exact h.shortTargets hself ha types hk (by rcases hk with hk | hk <;> simp [Role.settle, hk])
    · refine h.settledPlain hself (.ofTarget ha (by tauto) (by tauto)) ?_
      unfold Role.settle
      split <;> simp_all
  | freshTargets =>
    by_cases hk : t.kind = .expressionList ∨ t.kind = .identifier
    · exact h.freshTargets hself ha hk (by rcases hk with hk | hk <;> simp [Role.settle, hk])
    · refine h.settledPlain hself (.ofTarget ha (by tauto) (by tauto)) ?_
      unfold Role.settle
      split <;> simp_all
  | clause aliases => exact h.clause ha.1 ha.2
  | key =>
    by_cases hk : t.kind = .literalElement ∧ t.named.isEmpty = false
    · exact h.key hk.1 (by simp [Role.settle, hk])
    · by_cases hid : t.kind = .identifier
      · exact h.fieldKey hself ha hid (by simp [Role.settle, hid])
      · exact h.settledPlain hself ha (by simp_all [Role.settle])
  | fieldKey =>
    by_cases hid : t.kind = .identifier
    · exact h.fieldKey hself ha hid (by simp [Role.settle, hid])
    · exact h.settledPlain hself ha (by simp [Role.settle, hid])

end Inner

/-- Whatever role a node of a laid out tree is taken up in, its bindings are placed at its sites. -/
theorem bindings_placed (S : List Site) (t : Tree) (p : Tree) (gp : Option Tree) (role : Role)
    (hs : sites (some p) gp t ⊆ S) (hl : t.Laid {}) (ha : role.Apt source S p gp t) :
    EachOf (·.Placed source S) (bindings source role t) := by
  have hi : Inner source S p t :=
    { laid := hl
      sites := fun c hc => List.Subset.trans (sites_child_subset hc) hs
      each := fun c hc role ha =>
        bindings_placed S c t (some p) role (List.Subset.trans (sites_child_subset hc) hs)
          (hl.row.mem hc).2.2.1 ha }
  exact hi.bindings (hs (self_mem_sites t (some p) gp)) ha
termination_by sizeOf t
decreasing_by exact Tree.sizeOf_lt_of_mem_children hc

end GoAtlas.Check
