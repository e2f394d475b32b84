import GoAtlas.Check.Binding
import GoAtlas.Proofs.Reference.Sites

namespace GoAtlas

namespace Syntax.Kind

open Reference

def isSpecial : Kind → Bool
  | .sourceFile | .importSpecList | .importSpec | .constSpec | .varSpecList | .varSpec
  | .functionDeclaration | .methodDeclaration | .typeParameterList | .typeParameterDeclaration
  | .typeSpec | .typeAlias => true
  | _ => false

def isSelective : Kind → Bool
  | .packageClause | .importDeclaration | .constDeclaration | .varDeclaration | .typeDeclaration
  | .parameterDeclaration | .variadicParameterDeclaration | .shortVarDeclaration | .rangeClause
  | .receiveStatement | .funcLiteral | .typeSwitchStatement => true
  | _ => false

/-- Names that are used where they are taken up as plain nodes. -/
def isUsed (k : Kind) : Bool :=
  k = .identifier || k = .typeIdentifier

/-- Specifications whose names are paired with values. -/
def isValueSpec (k : Kind) : Bool :=
  k = .varSpec || k = .constSpec

theorem isIdentifier_of_isUsed {k : Kind} (h : k.isUsed) : k.isIdentifier := by
  simp only [isUsed, Bool.or_eq_true, decide_eq_true_eq] at h
  rcases h with rfl | rfl <;> rfl

def isTakenUp (k : Kind) (f : Option Field) (c : Kind) : Bool :=
  !c.isSpecial && !(c.isUsed && f = some .name && Site.declaresName k)

variable {k c : Kind} {f : Option Field}

theorem isSpecial_of_isExpression (h : c.isExpression = true) : c.isSpecial = false := by
  cases c <;> first | rfl | cases h

theorem isSpecial_of_isType (h : c.isType = true) : c.isSpecial = false := by
  cases c <;> first | rfl | cases h

theorem isSpecial_of_isTypeName (h : c.isTypeName = true) : c.isSpecial = false := by
  cases c <;> first | rfl | cases h

theorem isSpecial_of_isStatement (h : c.isStatement = true) : c.isSpecial = false := by
  cases c <;> first | rfl | cases h

theorem isSpecial_of_isSimple (h : c.isSimple = true) : c.isSpecial = false :=
  isSpecial_of_isStatement (isStatement_of_isSimple h)

def restricted : List Kind :=
  [.sourceFile, .importSpecList, .importSpec, .constSpec, .varSpecList, .varSpec,
    .functionDeclaration, .methodDeclaration, .typeParameterList, .typeParameterDeclaration, .typeSpec,
    .typeAlias, .identifier, .typeIdentifier]

theorem mem_restricted (h : k.isTakenUp f c = false) : c ∈ restricted := by
  simp only [isTakenUp, Bool.and_eq_false_iff, Bool.not_eq_false', Bool.and_eq_true] at h
  rcases h with hspecial | ⟨⟨hused, -⟩, -⟩
  · cases c <;> first | (cases hspecial; done) | simp [restricted]
  · cases c <;> first | (cases hused; done) | simp [restricted]

theorem isTakenUp_of_isFiller (h : c.isFiller = true) : k.isTakenUp none c = true := by
  cases c <;> first | rfl | cases h

theorem isTakenUp_parts (hs : k.isSpecial = false) (hk : k.isSelective = false) :
    (k.parts.all fun q => restricted.all fun c => !q.2 c || k.isTakenUp q.1 c) = true := by
  cases k <;> first | rfl | (cases hs; done) | cases hk

theorem isTakenUp_of_admits (hs : k.isSpecial = false) (hk : k.isSelective = false)
    (h : k.admits f c) : k.isTakenUp f c = true :=
  holds_of_admits (P := k.isTakenUp) restricted (fun _ _ => mem_restricted)
    (fun _ => isTakenUp_of_isFiller) (isTakenUp_parts hs hk) h

theorem isValueSpec_iff : k.isValueSpec ↔ k = .varSpec ∨ k = .constSpec := by
  simp [isValueSpec]

/-- The names of specifications are identifiers, but for the commas between the names of constants,
which stand in the same part. -/
theorem identifier_or_comma (hk : k.isValueSpec) (h : k.admits (some .name) c) :
    c = .identifier ∨ c = .token "," ∧ k = .constSpec := by
  rcases isValueSpec_iff.mp hk with rfl | rfl
  · exact .inl (eq_of_admits h rfl)
  · have hc : c = .identifier ∨ c = .token "," := by
      simpa [among] using of_admits_one h rfl
    exact hc.imp_right fun hc => ⟨hc, rfl⟩

end Syntax.Kind

namespace Check

open Syntax Reference

mutual
def Binding.Each (P : Action → Prop) : Binding → Prop
  | .act a => P a
  | .scope body => EachOf P body

def EachOf (P : Action → Prop) : List Binding → Prop
  | [] => True
  | b :: bs => b.Each P ∧ EachOf P bs
end

variable {P Q : Action → Prop} {bs bs' : List Binding}

theorem EachOf.append (h : EachOf P bs) (h' : EachOf P bs') : EachOf P (bs ++ bs') := by
  induction bs with
  | nil => exact h'
  | cons b bs ih => exact ⟨h.1, ih h.2⟩

theorem EachOf.scope (h : EachOf P bs) : EachOf P [.scope bs] :=
  ⟨h, trivial⟩

theorem EachOf.act {a : Action} (h : P a) : EachOf P [.act a] :=
  ⟨h, trivial⟩

theorem EachOf.map {α : Type} {l : List α} {f : α → Action} (h : ∀ x ∈ l, P (f x)) :
    EachOf P (l.map fun x => .act (f x)) := by
  induction l with
  | nil => trivial
  | cons x l ih =>
    exact ⟨h x List.mem_cons_self, ih fun y hy => h y (List.mem_cons_of_mem x hy)⟩

theorem EachOf.flatMap {α : Type} {l : List α} {f : α → List Binding}
    (h : ∀ x ∈ l, EachOf P (f x)) : EachOf P (l.flatMap f) := by
  induction l with
  | nil => trivial
  | cons x l ih =>
    exact (h x List.mem_cons_self).append (ih fun y hy => h y (List.mem_cons_of_mem x hy))

variable {source : ByteArray} {S : List Site} {n : Ident}

/-- A name stands at an identifier that does not declare. -/
def Used (source : ByteArray) (S : List Site) (n : Ident) : Prop :=
  ∃ s ∈ S, s.isIdentifier ∧ s.isDeclaration = false ∧ Ident.of source s.node = n

/-- An identifier that stands in the field of a selector or in a qualified type. -/
def isSelected (s : Site) : Bool :=
  s.parent.any fun p =>
    p.kind = .selectorExpression && s.node.field = some .field || p.kind = .qualifiedType

def Selected (source : ByteArray) (S : List Site) (n : Ident) : Prop :=
  ∃ s ∈ S, s.isIdentifier ∧ s.isDeclaration = false ∧ Ident.of source s.node = n ∧ isSelected s

theorem Selected.used (h : Selected source S n) : Used source S n := by
  obtain ⟨s, hs, hi, hd, he, -⟩ := h
  exact ⟨s, hs, hi, hd, he⟩

/-- An identifier in the list of names that a type switch gives to its subject. -/
def isSwitchAlias (s : Site) : Bool :=
  s.parent.any fun p => p.kind = .expressionList && p.field = some .switchAlias

/-- An identifier that stands as a type argument. -/
def isTypeArgument (s : Site) : Bool :=
  s.parent.any (·.kind = .typeElem) && s.grandparent.any (·.kind = .typeArguments)

/-- A name stands at a mark where names are declared, and is not the name of a member. -/
def Bound (source : ByteArray) (S : List Site) (n : Ident) : Prop :=
  ∃ s ∈ S, s.node.kind.isMark ∧ s.node.kind ≠ .fieldIdentifier ∧
    (s.isDeclaration ∨ isSwitchAlias s ∨ isTypeArgument s) ∧ Ident.of source s.node = n

def Matches (source : ByteArray) (s : Site) (type : Option String) : Prop :=
  ∀ spec, s.parent = some spec → spec.kind.isValueSpec →
    (Ident.of source s.node, type) ∈ specNames source spec

theorem matches_of_parent {s : Site} (h : s.parent.any (·.kind.isValueSpec) = false)
    (type : Option String) : Matches source s type := by
  intro spec hp hk
  simp [hp, hk] at h

def Given (source : ByteArray) (S : List Site) (n : Ident) (type : Option String) : Prop :=
  ∃ s ∈ S, s.node.kind.isMark ∧ s.node.kind ≠ .fieldIdentifier ∧
    (s.isDeclaration ∨ isSwitchAlias s ∨ isTypeArgument s) ∧ Ident.of source s.node = n ∧
    Matches source s type

theorem Given.bound {type : Option String} (h : Given source S n type) : Bound source S n := by
  obtain ⟨s, hs, hm, hne, hd, he, -⟩ := h
  exact ⟨s, hs, hm, hne, hd, he⟩

def Targeted (source : ByteArray) (S : List Site) (n : Ident) : Prop :=
  ∃ s ∈ S, s.node.kind = .identifier ∧ s.isDeclaration ∧ Ident.of source s.node = n ∧
    s.parent.any (·.kind = .expressionList)

theorem Targeted.given (h : Targeted source S n) (type : Option String) : Given source S n type := by
  obtain ⟨s, hs, hk, hd, rfl, hp⟩ := h
  refine ⟨s, hs, by rw [hk]; rfl, by simp [hk], .inl hd, rfl, matches_of_parent ?_ type⟩
  obtain ⟨p, hp, hlist⟩ := (Option.any_eq_true _ _).mp hp
  simp [hp, of_decide_eq_true hlist, Kind.isValueSpec]

theorem Targeted.bound (h : Targeted source S n) : Bound source S n :=
  (h.given none).bound

def Action.Placed (source : ByteArray) (S : List Site) : Action → Prop
  | .use n _ => Used source S n
  | .declare n _ type => Given source S n type
  | .short n _ => Targeted source S n
  | .member _ field => Selected source S field
  | .qualified package name => Selected source S package ∧ Selected source S name
  | .typed .. => True

variable {p t c : Tree} {gp : Option Tree}

/-- The names of a node that declares them. -/
theorem isDeclaration_name (hk : Site.declaresName t.kind) (hf : c.field = some .name) :
    Site.isDeclaration ⟨c, some t, gp⟩ := by
  unfold Site.isDeclaration
  dsimp only
  split
  · rfl
  · simp [hf]

structure Plain (p : Tree) (gp : Option Tree) (t : Tree) : Prop where
  kind : t.kind.isSpecial = false
  use : t.kind.isUsed → Site.isDeclaration ⟨t, some p, gp⟩ = false
  target : t.kind = .expressionList → Site.isFreshTarget t p = false

theorem isFreshTarget_of_kind (h : t.kind.isSelective = false) : Site.isFreshTarget c t = false := by
  have hb : Site.bindsTargets t.kind = false := by
    unfold Site.bindsTargets
    split <;> first | rfl | simp_all [Kind.isSelective]
  simp [Site.isFreshTarget, hb]

/-- The children of most plain nodes are plain. -/
theorem Plain.child (hs : t.kind.isSpecial = false) (hk : t.kind.isSelective = false)
    (ht : t.kind = .expressionList → Site.isFreshTarget t p = false)
    (hc : t.kind.admits c.field c.kind) : Plain t (some p) c := by
  have htaken := Kind.isTakenUp_of_admits hs hk hc
  have hfresh : Site.isFreshTarget c t = false := isFreshTarget_of_kind hk
  simp only [Kind.isTakenUp, Bool.and_eq_true, Bool.not_eq_true', Bool.and_eq_false_iff,
    decide_eq_false_iff_not] at htaken
  refine ⟨htaken.1, fun hu => ?_, fun _ => hfresh⟩
  simp only [Site.isDeclaration]
  split
  · next hp => simp [hp, Kind.isSelective] at hk
  split
  · next hd => simpa [hu, hd] using htaken.2
  split
  · next hl => simpa using ht hl
  · exact hfresh

/-- A child that is not a name nor a target is plain wherever it stands. -/
theorem Plain.ofPart (hc : c.kind.isSpecial = false) (hp : t.kind ≠ .packageClause)
    (hl : t.kind ≠ .expressionList) (hn : c.field ≠ some .name)
    (hf : Site.isFreshTarget c t = false) : Plain t gp c := by
  refine ⟨hc, fun _ => ?_, fun _ => hf⟩
  simp only [Site.isDeclaration, if_neg hp, if_neg hl, hf]
  split
  · simpa using hn
  · rfl

/-- A node that can be a target of a declaration, or a list of targets. -/
structure Target (p : Tree) (gp : Option Tree) (t : Tree) : Prop where
  kind : t.kind = .expressionList ∨ t.kind = .comment ∨ t.kind.isExpression
  declares : t.kind = .identifier → Site.isDeclaration ⟨t, some p, gp⟩
  listed : t.kind = .identifier → p.kind = .expressionList
  fresh : t.kind = .expressionList → Site.isFreshTarget t p

def Role.Apt (source : ByteArray) (S : List Site) (role : Role) (p : Tree) (gp : Option Tree)
    (t : Tree) : Prop :=
  match role with
  | .plain | .receiverType | .key | .fieldKey => Plain p gp t
  | .topLevel => False
  | .function => Kind.among [.functionDeclaration, .methodDeclaration, .funcLiteral] t.kind
  | .typeParameters => t.kind = .typeParameterList
  | .parameters => t.kind = .parameterList ∨ Plain p gp t
  | .parameter => t.isParameter
  | .receivers => t.kind = .parameterList
  | .receiver => t.kind = .parameterDeclaration
  | .body => t.kind = .block
  | .typeSpec => t.isTypeSpec
  | .valueUses => Kind.among [.varSpec, .constSpec, .varSpecList, .typeParameterDeclaration] t.kind
  | .valueSpec _ => Kind.among [.varSpec, .constSpec, .varSpecList] t.kind
  | .shortTargets _ | .freshTargets => Target p gp t
  | .clause aliases => t.isClause ∧ ∀ a ∈ aliases, Given source S a none

theorem bindingsOf_each {select : Tree → Option Role} {ts : List Tree}
    (h : ∀ c ∈ ts, ∀ role, select c = some role → EachOf P (bindings source role c)) :
    EachOf P (bindingsOf source select ts) := by
  induction ts with
  | nil => trivial
  | cons c ts ih =>
    refine .append ?_ (ih fun d hd => h d (List.mem_cons_of_mem c hd))
    split
    · next role hr => exact h c List.mem_cons_self role hr
    · trivial

theorem bindingsOfFirst_each {role : Role} {ts : List Tree}
    (h : ∀ c ∈ ts, EachOf P (bindings source role c)) :
    EachOf P (bindingsOfFirst source role ts) := by
  induction ts with
  | nil => trivial
  | cons c ts ih =>
    unfold bindingsOfFirst
    split
    · exact h c List.mem_cons_self
    · exact ih fun d hd => h d (List.mem_cons_of_mem c hd)

theorem bindingsOfRest_each {ts : List Tree}
    (h : ∀ c ∈ ts, EachOf P (bindings source .plain c)) : EachOf P (bindingsOfRest source ts) := by
  induction ts with
  | nil => trivial
  | cons c ts ih =>
    unfold bindingsOfRest
    split
    · refine bindingsOf_each fun d hd role hr => ?_
      simp only [Role.ofNamed, Option.ite_none_right_eq_some, Option.some.injEq] at hr
      exact hr.2 ▸ h d (List.mem_cons_of_mem c hd)
    · exact ih fun d hd => h d (List.mem_cons_of_mem c hd)

structure Parted (P : Action → Prop) (source : ByteArray) (S : List Site) (p t : Tree) : Prop where
  laid : t.Laid {}
  each : ∀ c ∈ t.children, c.field ≠ some .name → ∀ role : Role,
    role.Apt source S t (some p) c → EachOf P (bindings source role c)

namespace Parted

variable (h : Parted P source S p t)
include h

/-- The children in a part, taken up in a role. -/
theorem inPart (f : Field) (hf : f ≠ .name) (role : Role)
    (ha : ∀ c, c.field = some f → t.kind.admits (some f) c.kind →
      role.Apt source S t (some p) c) :
    EachOf P (bindingsOf source (Role.inPart f role) t.children) := by
  refine bindingsOf_each fun c hc role' hr => ?_
  simp only [Role.inPart, Option.ite_none_right_eq_some, Option.some.injEq] at hr
  obtain ⟨hfield, rfl⟩ := hr
  have hadmits := (h.laid.row.mem hc).2.2.2
  exact h.each c hc (by simp [hfield, hf]) role (ha c hfield (hfield ▸ hadmits))

/-- The children in a part other than that of names and targets, taken up as plain nodes. -/
theorem plainPart (f : Field) (hf : f ≠ .name ∧ f ≠ .left)
    (hp : t.kind ≠ .packageClause ∧ t.kind ≠ .expressionList)
    (hs : ∀ c, t.kind.admits (some f) c → c.isSpecial = false) :
    EachOf P (bindingsOf source (Role.inPart f .plain) t.children) := by
  refine h.inPart _ hf.1 _ fun c hc ha => ?_
  exact .ofPart (hs _ ha) hp.1 hp.2 (by simp [hc, hf.1]) (by simp [Site.isFreshTarget, hc, hf.2])

end Parted

/-- A node with the sites of its children and what their bindings do. -/
structure Inner (source : ByteArray) (S : List Site) (p t : Tree) : Prop where
  laid : t.Laid {}
  sites : ∀ c ∈ t.children, Reference.sites (some t) (some p) c ⊆ S
  each : ∀ c ∈ t.children, ∀ role : Role,
    role.Apt source S t (some p) c → EachOf (·.Placed source S) (bindings source role c)

namespace Inner

variable (h : Inner source S p t)
include h

theorem parted : Parted (·.Placed source S) source S p t :=
  ⟨h.laid, fun c hc _ => h.each c hc⟩

theorem admits (hc : c ∈ t.children) : t.kind.admits c.field c.kind :=
  (h.laid.row.mem hc).2.2.2

/-- Marks at sites of a child, other than the names of specifications with values. -/
theorem given (hc : c ∈ t.children) {d q : Tree} {gq : Option Tree}
    (hs : ⟨d, some q, gq⟩ ∈ Reference.sites (some t) (some p) c) (hm : d.kind.isMark)
    (hne : d.kind ≠ .fieldIdentifier)
    (hd : Site.isDeclaration ⟨d, some q, gq⟩ ∨ isSwitchAlias ⟨d, some q, gq⟩ ∨
      isTypeArgument ⟨d, some q, gq⟩)
    (hq : q.kind.isValueSpec = false) (type : Option String) :
    Given source S (Ident.of source d) type :=
  ⟨_, h.sites c hc hs, hm, hne, hd, rfl,
    matches_of_parent (s := ⟨d, some q, gq⟩) hq type⟩

theorem used (hc : c ∈ t.children) (hi : c.kind.isIdentifier)
    (hd : Site.isDeclaration ⟨c, some t, some p⟩ = false) : Used source S (Ident.of source c) :=
  ⟨_, h.sites c hc (self_mem_sites c (some t) (some p)), hi, hd, rfl⟩

theorem ofNamed (role : Role)
    (ha : ∀ c ∈ t.children, c.kind.isNamed → role.Apt source S t (some p) c) :
    EachOf (·.Placed source S) (bindingsOf source (Role.ofNamed role) t.children) := by
  refine bindingsOf_each fun c hc role' hr => ?_
  simp only [Role.ofNamed, Option.ite_none_right_eq_some, Option.some.injEq] at hr
  obtain ⟨hn, rfl⟩ := hr
  exact h.each c hc role (ha c hc hn)

theorem ofNamedIf (test : Tree → Bool) (role : Role)
    (ha : ∀ c ∈ t.children, test c → role.Apt source S t (some p) c) :
    EachOf (·.Placed source S) (bindingsOf source (Role.ofNamedIf test role) t.children) := by
  refine bindingsOf_each fun c hc role' hr => ?_
  simp only [Role.ofNamedIf, Option.ite_none_right_eq_some, Option.some.injEq,
    Bool.and_eq_true] at hr
  obtain ⟨⟨_, ht⟩, rfl⟩ := hr
  exact h.each c hc role (ha c hc ht)

theorem ofSpecs (kind : Kind) (role : Role) (ha : ∀ c ∈ t.children,
      c.kind = kind ∨ c.kind = .varSpecList → role.Apt source S t (some p) c) :
    EachOf (·.Placed source S) (bindingsOf source (Role.ofSpecs kind role) t.children) := by
  refine bindingsOf_each fun c hc role' hr => ?_
  simp only [Role.ofSpecs, Option.ite_none_right_eq_some, Option.some.injEq, Bool.or_eq_true,
    decide_eq_true_eq] at hr
  obtain ⟨hk, rfl⟩ := hr
  exact h.each c hc role (ha c hc hk)

/-- Names in the name part can be declared, with the types that go with them. -/
theorem givenNames (hk : Site.declaresName t.kind)
    (hn : ∀ c, t.kind.admits (some .name) c → c.isMark ∧ c ≠ .fieldIdentifier) :
    ∀ c ∈ t.parts .name, ∀ type,
      (t.kind.isValueSpec → (Ident.of source c, type) ∈ specNames source t) →
      Given source S (Ident.of source c) type := by
  intro c hc type htype
  obtain ⟨hc, hf⟩ := List.mem_filter.mp hc
  have hf : c.field = some .name := by simpa using hf
  obtain ⟨hm, hne⟩ := hn c.kind (hf ▸ h.admits hc)
  have hsite := h.sites c hc (self_mem_sites c (some t) (some p))
  refine ⟨_, hsite, hm, hne, .inl (isDeclaration_name hk hf), rfl, ?_⟩
  rintro spec ⟨⟩
  exact htype

end Inner

end Check

end GoAtlas
