import GoAtlas.Syntax.Rule
import Mathlib.Data.List.Basic
import Mathlib.Data.Nat.Basic
import Mathlib.Order.Basic

namespace GoAtlas.Syntax

namespace Kind

def isExpression : Kind → Bool
  | .identifier | .nilLiteral | .trueLiteral | .falseLiteral | .iotaLiteral | .intLiteral
  | .floatLiteral | .imaginaryLiteral | .runeLiteral | .interpretedStringLiteral | .rawStringLiteral
  | .parenthesizedExpression | .callExpression | .selectorExpression | .indexExpression
  | .sliceExpression | .typeAssertionExpression | .typeConversionExpression
  | .typeInstantiationExpression | .compositeLiteral | .funcLiteral | .unaryExpression
  | .binaryExpression => true
  | _ => false

def isTypeName : Kind → Bool
  | .typeIdentifier | .qualifiedType => true
  | _ => false

def isType : Kind → Bool
  | .typeIdentifier | .qualifiedType | .genericType | .parenthesizedType | .pointerType
  | .negatedType | .sliceType | .arrayType | .channelType | .mapType | .structType | .interfaceType
  | .functionType => true
  | _ => false

def isStatement : Kind → Bool
  | .constDeclaration | .varDeclaration | .typeDeclaration | .returnStatement | .goStatement
  | .deferStatement | .ifStatement | .forStatement | .expressionSwitchStatement
  | .typeSwitchStatement | .selectStatement | .fallthroughStatement | .breakStatement
  | .continueStatement | .gotoStatement | .block | .emptyStatement | .labeledStatement
  | .shortVarDeclaration | .assignmentStatement | .incStatement | .decStatement | .sendStatement
  | .expressionStatement => true
  | _ => false

/-- Statements that can stand in the head of another statement. -/
def isSimple : Kind → Bool
  | .shortVarDeclaration | .assignmentStatement | .incStatement | .decStatement | .sendStatement
  | .expressionStatement => true
  | _ => false

/-- Declarations that only stand at the top level. -/
def isTopLevel : Kind → Bool
  | .packageClause | .importDeclaration | .functionDeclaration | .methodDeclaration => true
  | _ => false

def isString : Kind → Bool
  | .interpretedStringLiteral | .rawStringLiteral => true
  | _ => false

def isToken : Kind → Bool
  | .token _ => true
  | _ => false

def isMark (k : Kind) : Bool :=
  k.isIdentifier || k.isToken

/-- Kinds of nodes that start with a keyword of their own. -/
def isHeaded : Kind → Bool
  | .functionDeclaration | .methodDeclaration | .ifStatement | .returnStatement => true
  | _ => false

def order? : Kind → Option (List Field)
  | .callExpression => some [.function, .arguments]
  | .selectorExpression => some [.operand, .field]
  | _ => none

def isLeaf (k : Kind) : Bool :=
  !k.isToken && k.order?.isNone

def isLoose (k : Kind) : Bool :=
  !k.isMark && !k.isHeaded && k != .shortVarDeclaration && k != .labeledStatement &&
    k.order?.isNone && k != .constSpec

def among (ks : List Kind) (k : Kind) : Bool :=
  ks.contains k

def signatureParts : List (Option Field × (Kind → Bool)) :=
  [(some .parameters, among [.parameterList]),
    (some .result, fun c => c = .parameterList || c.isType)]

def specParts : List (Option Field × (Kind → Bool)) :=
  [(some .type, isType), (some .value, among [.expressionList])]

def parameterParts : List (Option Field × (Kind → Bool)) :=
  [(some .name, among [.identifier]), (some .type, isType)]

def typeSpecParts : List (Option Field × (Kind → Bool)) :=
  [(some .name, among [.typeIdentifier]), (some .typeParameters, among [.typeParameterList]),
    (some .type, isType)]

/-- The children of a node by the part they play, other than comments and signs. -/
def parts : Kind → List (Option Field × (Kind → Bool))
  | .sourceFile => [(none, isTopLevel), (none, isStatement)]
  | .packageClause => [(none, among [.packageIdentifier])]
  | .importDeclaration => [(none, among [.importSpec, .importSpecList])]
  | .importSpecList => [(none, among [.importSpec])]
  | .importSpec =>
    [(some .name, among [.dot, .blankIdentifier, .packageIdentifier]), (some .path, isString)]
  | .constDeclaration => [(none, among [.constSpec])]
  | .constSpec => (some .name, among [.identifier, .token ","]) :: specParts
  | .varDeclaration => [(none, among [.varSpec, .varSpecList])]
  | .varSpecList => [(none, among [.varSpec])]
  | .varSpec => (some .name, among [.identifier]) :: specParts
  | .functionDeclaration =>
    [(some .name, among [.identifier]), (some .typeParameters, among [.typeParameterList]),
      (some .body, among [.block])] ++ signatureParts
  | .methodDeclaration =>
    [(some .receiver, among [.parameterList]), (some .name, among [.fieldIdentifier]),
      (some .body, among [.block])] ++ signatureParts
  | .funcLiteral => (some .body, among [.block]) :: signatureParts
  | .functionType => signatureParts
  | .methodElem => (some .name, among [.fieldIdentifier]) :: signatureParts
  | .typeParameterList => [(none, among [.typeParameterDeclaration])]
  | .typeParameterDeclaration =>
    [(some .name, among [.identifier]), (some .type, among [.typeConstraint])]
  | .typeConstraint | .typeElem => [(none, isType)]
  | .parameterList => [(none, among [.parameterDeclaration, .variadicParameterDeclaration])]
  | .parameterDeclaration | .variadicParameterDeclaration => parameterParts
  | .typeDeclaration => [(none, among [.typeSpec, .typeAlias])]
  | .typeSpec | .typeAlias => typeSpecParts
  | .parenthesizedType | .pointerType | .negatedType => [(none, isType)]
  | .genericType => [(some .type, isTypeName), (some .typeArguments, among [.typeArguments])]
  | .typeArguments => [(none, among [.typeElem])]
  | .arrayType => [(some .length, isExpression), (some .element, isType)]
  | .sliceType | .implicitLengthArrayType => [(some .element, isType)]
  | .structType => [(none, among [.fieldDeclarationList])]
  | .fieldDeclarationList => [(none, among [.fieldDeclaration])]
  | .fieldDeclaration =>
    [(some .name, among [.fieldIdentifier]), (some .type, isType), (some .tag, isString)]
  | .interfaceType => [(none, among [.methodElem, .typeElem])]
  | .mapType => [(some .key, isType), (some .value, isType)]
  | .channelType => [(some .value, isType)]
  | .qualifiedType =>
    [(some .package, among [.packageIdentifier]), (some .name, among [.typeIdentifier])]
  | .block => [(none, among [.statementList])]
  | .statementList => [(none, isStatement)]
  | .expressionStatement | .incStatement | .decStatement | .goStatement | .deferStatement
  | .expressionList | .parenthesizedExpression | .variadicArgument => [(none, isExpression)]
  | .sendStatement => [(some .channel, isExpression), (some .value, isExpression)]
  | .receiveStatement | .rangeClause =>
    [(some .left, among [.expressionList]), (some .right, isExpression)]
  | .assignmentStatement =>
    [(some .left, among [.expressionList]), (some .operator, isToken),
      (some .right, among [.expressionList])]
  | .shortVarDeclaration =>
    [(some .left, among [.expressionList]), (some .right, among [.expressionList])]
  | .labeledStatement => [(some .label, among [.labelName]), (none, isStatement)]
  | .breakStatement | .continueStatement | .gotoStatement => [(none, among [.labelName])]
  | .returnStatement => [(none, among [.expressionList])]
  | .ifStatement =>
    [(some .initializer, isSimple), (some .condition, isExpression),
      (some .consequence, among [.block]), (some .alternative, among [.block, .ifStatement])]
  | .forStatement =>
    [(none, among [.rangeClause, .forClause]), (none, isExpression), (some .body, among [.block])]
  | .forClause =>
    [(some .initializer, isSimple), (some .condition, isExpression), (some .update, isSimple)]
  | .expressionSwitchStatement =>
    [(some .initializer, isSimple), (some .value, isExpression),
      (none, among [.expressionCase, .defaultCase])]
  | .typeSwitchStatement =>
    [(some .initializer, isSimple), (some .switchAlias, among [.expressionList]),
      (some .value, isExpression), (none, among [.typeCase, .defaultCase])]
  | .selectStatement => [(none, among [.communicationCase, .defaultCase])]
  | .expressionCase => [(some .value, among [.expressionList]), (none, among [.statementList])]
  | .typeCase => [(some .type, isType), (some .type, isToken), (none, among [.statementList])]
  | .communicationCase =>
    [(some .communication, among [.sendStatement, .receiveStatement]),
      (none, among [.statementList])]
  | .defaultCase => [(none, among [.statementList])]
  | .callExpression => [(some .function, isExpression), (some .arguments, among [.argumentList])]
  | .argumentList => [(none, isExpression), (none, isType), (none, among [.variadicArgument])]
  | .selectorExpression => [(some .operand, isExpression), (some .field, among [.fieldIdentifier])]
  | .indexExpression => [(some .operand, isExpression), (some .index, isExpression)]
  | .sliceExpression =>
    [(some .operand, isExpression), (some .start, isExpression), (some .stop, isExpression),
      (some .capacity, isExpression)]
  | .typeAssertionExpression | .typeConversionExpression =>
    [(some .operand, isExpression), (some .type, isType)]
  | .typeInstantiationExpression => [(some .type, isTypeName), (none, isType)]
  | .compositeLiteral =>
    [(some .type, isType), (some .type, among [.implicitLengthArrayType]),
      (some .body, among [.literalValue])]
  | .literalValue => [(none, among [.literalElement, .keyedElement])]
  | .literalElement => [(none, among [.literalValue]), (none, isExpression)]
  | .keyedElement => [(some .key, among [.literalElement]), (some .value, among [.literalElement])]
  | .unaryExpression => [(some .operator, isToken), (some .operand, isExpression)]
  | .binaryExpression =>
    [(some .left, isExpression), (some .operator, isToken), (some .right, isExpression)]
  | .interpretedStringLiteral => [(none, among [.interpretedStringLiteralContent, .escapeSequence])]
  | .rawStringLiteral => [(none, among [.rawStringLiteralContent])]
  | _ => []

/-- Signs and comments can stand in any node, without playing a part. -/
def isFiller (k : Kind) : Bool :=
  k.isToken || k = .comment

/-- The children a node of a kind can have, by the part they play. -/
def admits (k : Kind) (f : Option Field) (c : Kind) : Bool :=
  (f = none && c.isFiller) || k.parts.any fun p => p.1 = f && p.2 c

end Kind

namespace Kind

variable {k c : Kind} {f : Option Field} {K : Kind → Bool}

theorem admits_filler (h : c.isFiller) : k.admits none c := by
  simp [admits, h]

theorem admits_part (n : Nat) (hp : k.parts[n]? = some (f, K)) (hc : K c = true) :
    k.admits f c := by
  simp only [admits, Bool.or_eq_true, List.any_eq_true]
  exact .inr ⟨(f, K), List.mem_of_getElem? hp, by simp [hc]⟩

/-- A child is a sign or a comment, or plays a part of the table. -/
theorem cases_of_admits (h : k.admits f c) :
    (f = none ∧ c.isFiller = true) ∨ ∃ q ∈ k.parts, q.1 = f ∧ q.2 c = true := by
  simpa [admits] using h

/-- A property of the children of a node: signs and comments have it, and so do the kinds each part is
open to, of which only those that may fail it are looked up in the table. -/
theorem holds_of_admits {P : Option Field → Kind → Bool} (suspects : List Kind)
    (hrest : ∀ f c, P f c = false → c ∈ suspects) (hfiller : ∀ c, c.isFiller → P none c = true)
    (hparts : (k.parts.all fun q => suspects.all fun c => !q.2 c || P q.1 c) = true)
    (h : k.admits f c) : P f c = true := by
  obtain ⟨rfl, hc⟩ | ⟨q, hq, rfl, hc⟩ := cases_of_admits h
  · exact hfiller c hc
  · by_contra hfails
    have hsuspect := hrest q.1 c (Bool.eq_false_iff.mpr hfails)
    have hlooked := List.all_eq_true.mp (List.all_eq_true.mp hparts q hq) c hsuspect
    rw [hc, Bool.not_true, Bool.false_or] at hlooked
    exact hfails hlooked

theorem of_admits {f : Field} {qs : List (Option Field × (Kind → Bool))}
    (h : k.admits (some f) c) (hp : k.parts.filter (·.1 = some f) = qs) :
    qs.any (·.2 c) = true := by
  simp only [admits, reduceCtorEq, decide_false, Bool.false_and, Bool.false_or,
    List.any_eq_true, Bool.and_eq_true, decide_eq_true_eq] at h
  obtain ⟨q, hq, hf, hc⟩ := h
  rw [← hp]
  exact List.any_eq_true.mpr ⟨q, List.mem_filter.mpr ⟨hq, by simpa using hf⟩, hc⟩

/-- The kinds a part is open to. -/
theorem of_admits_one {f : Field} (h : k.admits (some f) c)
    (hp : k.parts.filter (·.1 = some f) = [(some f, K)]) : K c = true := by
  simpa using of_admits h hp

theorem eq_of_admits {f : Field} {k' : Kind} (h : k.admits (some f) c)
    (hp : k.parts.filter (·.1 = some f) = [(some f, among [k'])]) : c = k' := by
  simpa [among] using of_admits_one h hp

theorem not_admits {f : Field} (hp : k.parts.filter (·.1 = some f) = []) :
    ¬ k.admits (some f) c :=
  fun h => by simpa using of_admits h hp

theorem of_among {P : Kind → Bool} {ks : List Kind} (h : among ks c = true)
    (hks : ks.all P = true) : P c = true :=
  List.all_eq_true.mp hks c (by simpa [among] using h)

theorem isStatement_of_isSimple (h : k.isSimple) : k.isStatement := by
  cases k <;> first | rfl | cases h

theorem isStatement_of_isToken (h : k.isToken) : k.isStatement = false := by
  cases k <;> first | rfl | cases h

theorem order?_of_isLeaf (h : k.isLeaf = true) : k.order? = none := by
  cases k <;> first | rfl | cases h

/-- Where the parts of a node have an order, each of them has a name. -/
theorem named_of_order? {fs : List Field} (h : k.order? = some fs) {q : Option Field × (Kind → Bool)}
    (hq : q ∈ k.parts) : q.1 ≠ none := by
  have hall : k.parts.all (·.1.isSome) = true := by cases k <;> first | rfl | cases h
  exact Option.isSome_iff_ne_none.mp (List.all_eq_true.mp hall q hq)

theorem isMark_of_isIdentifier (h : k.isIdentifier) : k.isMark := by
  simp [isMark, h]

theorem isHeaded_of_isFunction (h : k.isFunction) : k.isHeaded := by
  cases k <;> first | rfl | cases h

end Kind

/-- None of the given places reaches into the bytes from `a` to `b`. -/
def Free (places : List Span) (a b : Nat) : Prop :=
  ∀ s ∈ places, s.stop ≤ a ∨ b ≤ s.start

def Alternating : List Kind → Prop
  | [] => True
  | [k] => k = .identifier
  | k :: comma :: ks => k = .identifier ∧ comma = .token "," ∧ Alternating ks

/-- The signs and keywords that cannot be missing: a short declaration with targets has its sign, and
a node that starts with a keyword has it in front of all else. A label stands before one statement at
most, and a function with a body has a name. What is called stands before the arguments, and what is
selected from before the field. The commas between the names of constants are names too. -/
structure Signed (k : Kind) (s : Span) (cs : List Tree) : Prop where
  define : k = .shortVarDeclaration → (∃ c ∈ cs, c.field = some .left) →
    ∃ c ∈ cs, c.kind = .token ":="
  filled : k.isHeaded → s.start < s.stop
  head : k.isHeaded → ∀ c ∈ cs, c.kind.isFiller ∨ s.start < c.start
  single : k = .labeledStatement → (cs.filter (·.kind.isStatement)).length ≤ 1
  named : k.isFunction → (∃ c ∈ cs, c.field = some .body) → ∃ c ∈ cs, c.field = some .name
  ordered : ∀ fs, k.order? = some fs → cs.filterMap (·.field) = fs
  series : k = .constSpec → Alternating ((cs.filter (·.field = some .name)).map (·.kind))

theorem signed_nil {k : Kind} {s : Span} (h : k.isHeaded → s.start < s.stop)
    (ho : k.order? = none) : Signed k s [] where
  define := by
    rintro - ⟨c, hc, -⟩
    cases hc
  filled := h
  head _ c hc := by cases hc
  single _ := Nat.zero_le 1
  named := by
    rintro - ⟨c, hc, -⟩
    cases hc
  ordered fs hk := by simp [ho] at hk
  series _ := trivial

theorem signed_of_isLoose {k : Kind} {s : Span} {cs : List Tree} (h : k.isLoose = true) :
    Signed k s cs := by
  simp only [Kind.isLoose, Bool.and_eq_true, Bool.not_eq_true', bne_iff_ne,
    Option.isNone_iff_eq_none] at h
  obtain ⟨⟨⟨⟨⟨-, hheaded⟩, hshort⟩, hlabel⟩, horder⟩, hspec⟩ := h
  exact ⟨fun he => (hshort he).elim, fun he => by simp [hheaded] at he,
    fun he => by simp [hheaded] at he, fun he => (hlabel he).elim,
    fun he => by simp [Kind.isHeaded_of_isFunction he] at hheaded,
    fun fs he => by simp [horder] at he, fun he => (hspec he).elim⟩

theorem signed_of_order {k : Kind} {s : Span} {cs : List Tree} {fs : List Field}
    (hk : k.order? = some fs) (h : cs.filterMap (·.field) = fs) : Signed k s cs := by
  cases k <;> cases hk <;> exact ⟨nofun, nofun, nofun, nofun, nofun, fun _ he => by cases he; exact h,
    nofun⟩

theorem signed_constSpec {s : Span} {cs : List Tree}
    (h : Alternating ((cs.filter (·.field = some .name)).map (·.kind))) :
    Signed .constSpec s cs where
  define := nofun
  filled := nofun
  head := nofun
  single := nofun
  named := nofun
  ordered := nofun
  series _ := h

/-- What trees are laid out over: places that lie between the marks, and where words and signs are
spelled. -/
structure Ground where
  places : List Span := []
  word : Span → Prop := fun _ => True
  sign : String → Span → Prop := fun _ _ => True

def Ground.Spells (C : Ground) (k : Kind) (s : Span) : Prop :=
  (k.isIdentifier → C.word s) ∧ ∀ text, k = .token text → C.sign text s

mutual
/-- A tree whose nodes hold their children one after the other, with none of the places reaching over
an end of a node or into a mark, and whose marks are spelled. -/
def Tree.Laid (C : Ground) : Tree → Prop
  | .node k _ s cs =>
    Free C.places s.start s.start ∧ Free C.places s.stop s.stop ∧
      (k.isMark → cs = [] ∧ s.start < s.stop ∧ Free C.places s.start s.stop ∧ C.Spells k s) ∧
      Signed k s cs ∧ Row C k s.start s.stop cs

/-- Children of a node of kind `k` one after the other from `a` to `b`. -/
def Row (C : Ground) (k : Kind) (a b : Nat) : List Tree → Prop
  | [] => a ≤ b
  | t :: ts => a ≤ t.start ∧ t.Laid C ∧ k.admits t.field t.kind ∧ Row C k t.stop b ts
end

variable {C : Ground} {k : Kind} {a b c : Nat} {t : Tree} {ts us : List Tree}

namespace Tree

@[simp] theorem kind_withField (f : Field) (t : Tree) : (t.withField f).kind = t.kind := by
  cases t
  rfl

@[simp] theorem field_withField (f : Field) (t : Tree) : (t.withField f).field = some f := by
  cases t
  rfl

@[simp] theorem start_withField (f : Field) (t : Tree) : (t.withField f).start = t.start := by
  cases t
  rfl

@[simp] theorem stop_withField (f : Field) (t : Tree) : (t.withField f).stop = t.stop := by
  cases t
  rfl

@[simp] theorem withField_withField (f f' : Field) (t : Tree) :
    (t.withField f).withField f' = t.withField f' := by
  cases t
  rfl

theorem Laid.withField (h : t.Laid C) (f : Field) : (t.withField f).Laid C := by
  cases t
  exact h

theorem Laid.row (h : t.Laid C) : Row C t.kind t.start t.stop t.children := by
  cases t
  exact h.2.2.2.2

theorem Laid.signed (h : t.Laid C) : Signed t.kind t.span t.children := by
  cases t
  exact h.2.2.2.1

theorem Laid.mark (h : t.Laid C) (hk : t.kind.isMark) :
    t.children = [] ∧ t.start < t.stop ∧ Free C.places t.start t.stop := by
  cases t
  obtain ⟨hleaf, hlt, hfree, -⟩ := h.2.2.1 hk
  exact ⟨hleaf, hlt, hfree⟩

theorem Laid.word (h : t.Laid C) (hk : t.kind.isIdentifier) : C.word t.span := by
  cases t
  exact (h.2.2.1 (Kind.isMark_of_isIdentifier hk)).2.2.2.1 hk

theorem Laid.sign {text : String} (h : t.Laid C) (hk : t.kind = .token text) :
    C.sign text t.span := by
  obtain ⟨k, f, s, cs⟩ := t
  obtain rfl : k = .token text := hk
  exact (h.2.2.1 rfl).2.2.2.2 text rfl

theorem Laid.start_free (h : t.Laid C) : Free C.places t.start t.start := by
  cases t
  exact h.1

theorem Laid.stop_free (h : t.Laid C) : Free C.places t.stop t.stop := by
  cases t
  exact h.2.1

theorem laid_mark {k : Kind} {f : Option Field} {s : Span} (ho : k.order? = none)
    (hs : s.start < s.stop)
    (hf : Free C.places s.start s.stop) (hw : C.Spells k s) :
    (Tree.node k f s []).Laid C := by
  have hstart : Free C.places s.start s.start := fun p hp => (hf p hp).imp id (by omega)
  have hstop : Free C.places s.stop s.stop := fun p hp => (hf p hp).imp (by omega) id
  exact ⟨hstart, hstop, fun _ => ⟨rfl, hs, hf, hw⟩, signed_nil (fun _ => hs) ho, Nat.le_of_lt hs⟩

end Tree

mutual
theorem Tree.Laid.start_le : (t : Tree) → t.Laid C → t.start ≤ t.stop
  | .node _ _ _ cs, h => Row.start_le cs _ _ _ h.2.2.2.2

theorem Row.start_le : (ts : List Tree) → ∀ k a b, Row C k a b ts → a ≤ b
  | [], _, _, _, h => h
  | t :: ts, k, _, b, h =>
    (h.1.trans (Tree.Laid.start_le t h.2.1)).trans (Row.start_le ts k t.stop b h.2.2.2)
end

theorem Tree.Laid.le (h : t.Laid C) : t.start ≤ t.stop :=
  Tree.Laid.start_le t h

theorem Free.narrow {places : List Span} (h : Free places a b) {a' b' : Nat} (ha : a ≤ a')
    (hb : b' ≤ b) : Free places a' b' :=
  fun s hs => (h s hs).imp (·.trans ha) hb.trans

mutual
theorem Tree.Laid.avoid : (t : Tree) → t.Laid { C with places := [] } →
    Free C.places t.start t.stop → t.Laid C
  | .node k f s cs, h, hf => by
    have hle : s.start ≤ s.stop := Row.start_le cs k _ _ h.2.2.2.2
    refine ⟨hf.narrow (Nat.le_refl _) hle, hf.narrow hle (Nat.le_refl _), fun hm => ?_,
      h.2.2.2.1, ?_⟩
    · exact ⟨(h.2.2.1 hm).1, (h.2.2.1 hm).2.1, hf, (h.2.2.1 hm).2.2.2⟩
    · exact Row.avoid cs k _ _ h.2.2.2.2 hf

theorem Row.avoid : (ts : List Tree) → ∀ k a b, Row { C with places := [] } k a b ts →
    Free C.places a b → Row C k a b ts
  | [], _, _, _, h, _ => h
  | t :: ts, k, a, b, h, hf => by
    have hstop : t.stop ≤ b := Row.start_le ts k _ _ h.2.2.2
    have hstart : a ≤ t.stop := h.1.trans h.2.1.le
    exact ⟨h.1, Tree.Laid.avoid t h.2.1 (hf.narrow h.1 hstop), h.2.2.1,
      Row.avoid ts k _ _ h.2.2.2 (hf.narrow hstart (Nat.le_refl _))⟩
end

/-- A ground that asks for less. -/
structure Ground.Within (C C' : Ground) : Prop where
  places : C'.places ⊆ C.places
  word : ∀ s, C.word s → C'.word s
  sign : ∀ text s, C.sign text s → C'.sign text s

theorem Ground.Within.spells {C' : Ground} (hs : C.Within C') {s : Span} (h : C.Spells k s) :
    C'.Spells k s :=
  ⟨fun hk => hs.word s (h.1 hk), fun text hk => hs.sign text s (h.2 text hk)⟩

mutual
theorem Tree.laid_within {C' : Ground} (hs : C.Within C') : (t : Tree) → t.Laid C → t.Laid C'
  | .node k f s cs, h => by
    refine ⟨fun p hp => h.1 p (hs.places hp), fun p hp => h.2.1 p (hs.places hp), fun hm => ?_,
      h.2.2.2.1, ?_⟩
    · obtain ⟨hleaf, hlt, hfree, hspells⟩ := h.2.2.1 hm
      exact ⟨hleaf, hlt, fun p hp => hfree p (hs.places hp), hs.spells hspells⟩
    · exact row_within hs cs k _ _ h.2.2.2.2

theorem row_within {C' : Ground} (hs : C.Within C') :
    (ts : List Tree) → ∀ k a b, Row C k a b ts → Row C' k a b ts
  | [], _, _, _, h => h
  | t :: ts, k, _, b, h =>
    ⟨h.1, Tree.laid_within hs t h.2.1, h.2.2.1, row_within hs ts k t.stop b h.2.2.2⟩
end

theorem Tree.Laid.within {C' : Ground} (h : t.Laid C) (hs : C.Within C') : t.Laid C' :=
  Tree.laid_within hs t h

theorem Row.within {C' : Ground} (h : Row C k a b ts) (hs : C.Within C') : Row C' k a b ts :=
  row_within hs ts k a b h

namespace Row

theorem le (h : Row C k a b ts) : a ≤ b :=
  Row.start_le ts k a b h

theorem append (h : Row C k a b ts) (h' : Row C k b c us) : Row C k a c (ts ++ us) := by
  induction ts generalizing a with
  | nil =>
    cases us with
    | nil => exact Nat.le_trans h h'
    | cons u us => exact ⟨Nat.le_trans h h'.1, h'.2⟩
  | cons t ts ih => exact ⟨h.1, h.2.1, h.2.2.1, ih h.2.2.2⟩

theorem widen (h : Row C k a b ts) {a' b' : Nat} (ha : a' ≤ a) (hb : b ≤ b') :
    Row C k a' b' ts := by
  induction ts generalizing a a' with
  | nil => exact (ha.trans h).trans hb
  | cons t ts ih => exact ⟨ha.trans h.1, h.2.1, h.2.2.1, ih h.2.2.2 (Nat.le_refl _)⟩

theorem mem (h : Row C k a b ts) (ht : t ∈ ts) :
    a ≤ t.start ∧ t.stop ≤ b ∧ t.Laid C ∧ k.admits t.field t.kind := by
  induction ts generalizing a with
  | nil => cases ht
  | cons u us ih =>
    rcases List.mem_cons.mp ht with rfl | ht
    · exact ⟨h.1, h.2.2.2.le, h.2.1, h.2.2.1⟩
    · obtain ⟨hstart, hstop, hlaid, hadmits⟩ := ih h.2.2.2 ht
      exact ⟨(h.1.trans h.2.1.le).trans hstart, hstop, hlaid, hadmits⟩

/-- The children can stand in a node of any kind that admits them. -/
theorem change (h : Row C k a b ts) {k' : Kind} (hk : ∀ t ∈ ts, k'.admits t.field t.kind) :
    Row C k' a b ts := by
  induction ts generalizing a with
  | nil => exact h
  | cons u us ih =>
    exact ⟨h.1, h.2.1, hk u List.mem_cons_self,
      ih h.2.2.2 fun t ht => hk t (List.mem_cons_of_mem u ht)⟩

theorem grow (h : Row C k a b ts) {k' : Kind} (hk : k.parts ⊆ k'.parts) : Row C k' a b ts := by
  refine h.change fun t ht => ?_
  obtain ⟨-, -, -, hadmits⟩ := h.mem ht
  simp only [Kind.admits, Bool.or_eq_true, List.any_eq_true] at hadmits ⊢
  exact hadmits.imp id fun ⟨p, hp, hc⟩ => ⟨p, hk hp, hc⟩

theorem tight (h : Row C k a b ts) (hl : ts.getLast? = some t) : Row C k a t.stop ts := by
  induction ts generalizing a with
  | nil => cases hl
  | cons u us ih =>
    cases us with
    | nil =>
      obtain rfl : u = t := by simpa using hl
      exact ⟨h.1, h.2.1, h.2.2.1, Nat.le_refl _⟩
    | cons v vs =>
      exact ⟨h.1, h.2.1, h.2.2.1, ih h.2.2.2 (by simpa [List.getLast?_cons_cons] using hl)⟩

/-- Children follow each other. -/
theorem ordered (h : Row C k a b ts) : ts.Pairwise fun u v => u.stop ≤ v.start := by
  induction ts generalizing a with
  | nil => exact .nil
  | cons t ts ih => exact List.pairwise_cons.mpr ⟨fun u hu => (h.2.2.2.mem hu).1, ih h.2.2.2⟩

/-- Two different children do not overlap. -/
theorem apart (h : Row C k a b ts) {t u : Tree} (ht : t ∈ ts) (hu : u ∈ ts) (hne : t ≠ u) :
    t.stop ≤ u.start ∨ u.stop ≤ t.start := by
  induction ts generalizing a with
  | nil => cases ht
  | cons v vs ih =>
    rcases List.mem_cons.mp ht with rfl | ht <;> rcases List.mem_cons.mp hu with rfl | hu
    · exact (hne rfl).elim
    · exact .inl (h.2.2.2.mem hu).1
    · exact .inr (h.2.2.2.mem ‹t ∈ vs›).1
    · exact ih h.2.2.2 ‹t ∈ vs› hu

end Row

theorem mem_of_part? {f : Field} {u : Tree} (h : t.part? f = some u) :
    u ∈ t.children ∧ u.field = some f :=
  ⟨List.mem_of_find?_eq_some h, by simpa using List.find?_some h⟩

/-- A part of a node is of a kind that the node admits there. -/
theorem Tree.Laid.part? {f : Field} {u : Tree} (h : t.Laid C) (hu : t.part? f = some u) :
    u.Laid C ∧ t.kind.admits (some f) u.kind := by
  obtain ⟨hmem, hfield⟩ := mem_of_part? hu
  obtain ⟨-, -, hlaid, hadmits⟩ := h.row.mem hmem
  exact ⟨hlaid, hfield ▸ hadmits⟩

/-- A tree that can be put between `a` and `b` and plays no part yet; its kind is one of `K`. -/
structure Piece (C : Ground) (K : Kind → Bool) (a b : Nat) (t : Tree) : Prop where
  laid : t.Laid C
  start : a ≤ t.start
  stop : t.stop ≤ b
  field : t.field = none
  kind : K t.kind = true

namespace Piece

variable {K K' : Kind → Bool}

theorem le (h : Piece C K a b t) : a ≤ b :=
  (h.start.trans h.laid.le).trans h.stop

theorem imp (h : Piece C K a b t) (hK : ∀ k, K k = true → K' k = true) : Piece C K' a b t :=
  ⟨h.laid, h.start, h.stop, h.field, hK _ h.kind⟩

theorem widen (h : Piece C K a b t) (hb : b ≤ c) : Piece C K a c t :=
  ⟨h.laid, h.start, h.stop.trans hb, h.field, h.kind⟩

theorem kind_eq (h : Piece C (Kind.among [k]) a b t) : t.kind = k := by
  simpa [Kind.among] using h.kind

theorem one (h : Piece C (Kind.among [k]) a b t) (hk : K k = true) : Piece C K a b t :=
  ⟨h.laid, h.start, h.stop, h.field, h.kind_eq ▸ hk⟩

/-- A sign in front of other children. -/
theorem sign (h : Piece C Kind.isToken a b t) (hr : Row C k b c ts) : Row C k a c (t :: ts) := by
  refine ⟨h.start, h.laid, ?_, hr.widen h.stop (Nat.le_refl c)⟩
  rw [h.field]
  exact Kind.admits_filler (by simp [Kind.isFiller, h.kind])

/-- A child in front of others, as the table of parts has it. -/
theorem plain (h : Piece C K a b t) (n : Nat) (hp : k.parts[n]? = some (none, K))
    (hr : Row C k b c ts) : Row C k a c (t :: ts) := by
  refine ⟨h.start, h.laid, ?_, hr.widen h.stop (Nat.le_refl c)⟩
  rw [h.field]
  exact Kind.admits_part n hp h.kind

/-- A child that is given a part it can play, in front of others. -/
theorem admitted (h : Piece C K a b t) {f : Field} (hK : ∀ c, K c = true → k.admits (some f) c)
    (hr : Row C k b c ts) : Row C k a c (t.withField f :: ts) := by
  refine ⟨by simpa using h.start, h.laid.withField f, ?_, ?_⟩
  · simpa using hK _ h.kind
  · simpa using hr.widen h.stop (Nat.le_refl c)

/-- A child that is given its part, in front of others. -/
theorem part (h : Piece C K a b t) (n : Nat) {f : Field} (hp : k.parts[n]? = some (some f, K))
    (hr : Row C k b c ts) : Row C k a c (t.withField f :: ts) :=
  h.admitted (fun _ hc => Kind.admits_part n hp hc) hr

/-- An identifier under another kind. -/
theorem withKind (h : Piece C (Kind.among [k]) a b t) (hk : k.isIdentifier) (k' : Kind)
    (hk' : k'.isLeaf = true) : Piece C (Kind.among [k']) a b (t.withKind k') := by
  have hword := h.laid.word (h.kind_eq ▸ hk)
  obtain ⟨hchildren, hlt, hfree⟩ := h.laid.mark (h.kind_eq ▸ Kind.isMark_of_isIdentifier hk)
  obtain ⟨-, hstart, hstop, hfield, -⟩ := h
  obtain ⟨k₀, f, s, cs⟩ := t
  obtain rfl : cs = [] := hchildren
  have hspells : C.Spells k' s := ⟨fun _ => hword, fun text he => by cases he; cases hk'⟩
  exact ⟨Tree.laid_mark (Kind.order?_of_isLeaf hk') hlt hfree hspells, hstart, hstop, hfield,
    by simp [Kind.among, Tree.withKind, Tree.kind]⟩

theorem ofRow {K : Kind → Bool} (h : Row C k a b ts) (hne : ts ≠ []) (hk : K k = true)
    (hmark : k.isMark = false) (hs : Signed k (Tree.spanning k ts).span ts) :
    Piece C K a b (.spanning k ts) := by
  obtain ⟨first, more, rfl⟩ := List.exists_cons_of_ne_nil hne
  obtain ⟨last, hlast⟩ := Option.isSome_iff_exists.mp (List.getLast?_isSome.mpr hne)
  obtain ⟨-, hstop, hlaid, -⟩ := h.mem (List.mem_of_getLast? hlast)
  have hrow : Row C k first.start last.stop (first :: more) :=
    ⟨Nat.le_refl _, h.2.1, h.2.2.1, (h.tight hlast).2.2.2⟩
  have hspan : Tree.spanning k (first :: more) = .node k none
      ⟨first.start, last.stop, first.span.first, last.span.last⟩ (first :: more) := by
    simp [Tree.spanning, hlast, Tree.start, Tree.stop]
  rw [hspan] at hs ⊢
  exact ⟨⟨h.2.1.start_free, hlaid.stop_free, fun hm => by simp [hmark] at hm, hs, hrow⟩, h.1, hstop,
    rfl, hk⟩

theorem spanning {K : Kind → Bool} (h : Row C k a b ts) (hne : ts ≠ []) (hk : K k = true)
    (hl : k.isLoose = true) : Piece C K a b (.spanning k ts) := by
  have hmark : k.isMark = false := by
    simp only [Kind.isLoose, Bool.and_eq_true, Bool.not_eq_true'] at hl
    exact hl.1.1.1.1.1
  exact .ofRow h hne hk hmark (signed_of_isLoose hl)

/-- A label and the statement behind it, if there is one. -/
theorem labeled {K : Kind → Bool} (h : Row C .labeledStatement a b ts) (hne : ts ≠ [])
    (hk : K .labeledStatement = true) (hs : (ts.filter (·.kind.isStatement)).length ≤ 1) :
    Piece C K a b (.spanning .labeledStatement ts) := by
  exact .ofRow h hne hk rfl ⟨nofun, nofun, nofun, fun _ => hs, nofun, nofun, nofun⟩

/-- A node over parts that stand in the order they have to. -/
theorem inOrder {K : Kind → Bool} {fs : List Field} (h : Row C k a b ts) (hne : ts ≠ [])
    (hk : K k = true) (ho : k.order? = some fs) (hs : ts.filterMap (·.field) = fs) :
    Piece C K a b (.spanning k ts) := by
  have hmark : k.isMark = false := by cases k <;> first | rfl | cases ho
  exact .ofRow h hne hk hmark (signed_of_order ho hs)

theorem headed {K : Kind → Bool} (ht : Piece C Kind.isToken a b t) (h : Row C k b c ts)
    (hk : K k = true) (hh : k.isHeaded = true)
    (hn : k.isFunction → ∃ u ∈ ts, u.field = some .name) : Piece C K a c (.spanning k (t :: ts)) := by
  have hmark : k.isMark = false := by cases k <;> first | rfl | cases hh
  have hlt : t.start < t.stop := (ht.laid.mark (by simp [Kind.isMark, ht.kind])).2.1
  have hrow : Row C k t.stop c ts := h.widen ht.stop (Nat.le_refl c)
  refine .ofRow (ht.sign h) (by simp) hk hmark
    ⟨fun he => ?_, fun _ => ?_, fun _ => ?_, fun he => ?_, fun hf _ => ?_, fun fs ho => ?_,
      fun he => ?_⟩
  · rw [he] at hh
    cases hh
  · obtain ⟨last, hlast⟩ := Option.isSome_iff_exists.mp
      (List.getLast?_isSome.mpr (List.cons_ne_nil t ts))
    have hstop : (Tree.spanning k (t :: ts)).stop = last.stop := by
      simp [Tree.spanning, hlast, Tree.stop, Tree.span]
    have hle : t.stop ≤ last.stop := by
      rcases List.mem_cons.mp (List.mem_of_getLast? hlast) with rfl | hmem
      · exact Nat.le_refl _
      · exact (hrow.mem hmem).1.trans (hrow.mem hmem).2.2.1.le
    exact (hlt.trans_le hle).trans_eq hstop.symm
  · intro c hc
    rcases List.mem_cons.mp hc with rfl | hc
    · exact .inl (by simp [Kind.isFiller, ht.kind])
    · exact .inr (hlt.trans_le (hrow.mem hc).1)
  · rw [he] at hh
    cases hh
  · obtain ⟨u, hu, hname⟩ := hn hf
    exact ⟨u, List.mem_cons_of_mem t hu, hname⟩
  · cases k <;> cases ho <;> cases hh
  · rw [he] at hh
    cases hh

end Piece

end GoAtlas.Syntax
