import GoAtlas.Proofs.Check.Roles

namespace GoAtlas.Check

open Syntax

/-- The parts of a node in which its own names stand. -/
def nameParts : Kind → List Field
  | .parameterDeclaration | .variadicParameterDeclaration | .varSpec | .constSpec | .typeSpec
  | .typeAlias | .typeParameterDeclaration => [.name]
  | .selectorExpression => [.field]
  | .qualifiedType => [.package, .name]
  | _ => []

/-- Nodes whose names are taken up together with those of the node above. -/
def Carries (t : Tree) : Prop :=
  Kind.among [.typeSpec, .typeAlias, .typeParameterDeclaration, .expressionList, .typeElem,
    .identifier, .typeIdentifier] t.kind ∨ t.field = some .typeArguments

/-- The nodes that a node takes up as names of its own, without taking up what is above them. -/
inductive Owns : Tree → Tree → Prop
  | self {t : Tree} : t.kind.isUsed → Owns t t
  | part {t c : Tree} {f : Field} : c ∈ t.children → f ∈ nameParts t.kind → c.field = some f → Owns t c
  | through {t d c : Tree} : d ∈ t.children → Carries d → Owns d c → Owns t c

variable {source : ByteArray} {t c m : Tree} {given : List Ident} {role : Role}

theorem Owns.mem_walk (h : Owns t m) : m ∈ t.walk := by
  induction h with
  | self => exact Tree.self_mem_walk _
  | part hc => exact Tree.child_mem_walk hc (Tree.self_mem_walk _)
  | through hd _ _ ih => exact Tree.child_mem_walk hd ih

/-- A name of a node, or one that the node has been given. -/
def Ident.OwnedBy (source : ByteArray) (t : Tree) (given : List Ident) (n : Ident) : Prop :=
  n ∈ given ∨ ∃ m, Owns t m ∧ Ident.of source m = n

/-- An action at names of a node, or at the node as a whole. -/
def Action.OwnedBy (source : ByteArray) (t : Tree) (given : List Ident) : Action → Prop
  | .use n _ | .declare n _ _ | .short n _ | .member _ n => n.OwnedBy source t given
  | .qualified package name => package.OwnedBy source t given ∧ name.OwnedBy source t given
  | .typed start stop _ => start = t.start ∧ stop = t.stop

theorem Owns.ident (h : Owns t m) : (Ident.of source m).OwnedBy source t given :=
  .inr ⟨m, h, rfl⟩

namespace Role

/-- The names that a role brings along from another node. -/
def names : Role → List Ident
  | .clause aliases => aliases
  | _ => []

/-- The nodes that are taken up in a role, by their kind or by the part they play. -/
def Fits (role : Role) (t : Tree) : Prop :=
  match role with
  | .function => Kind.among [.functionDeclaration, .methodDeclaration, .funcLiteral] t.kind
  | .typeParameters => t.field = some .typeParameters
  | .receivers => t.field = some .receiver
  | .body => t.field = some .body
  | .parameter => t.isParameter
  | .receiver => t.kind = .parameterDeclaration
  | .typeSpec => t.isTypeSpec
  | .valueUses => Kind.among [.varSpec, .constSpec, .varSpecList, .typeParameterDeclaration] t.kind
  | .valueSpec _ => Kind.among [.varSpec, .constSpec, .varSpecList] t.kind
  | .clause _ => t.isClause
  | _ => True

/-- The nodes that are in fact taken up in a role. -/
def Settled (role : Role) (t : Tree) : Prop :=
  match role with
  | .shortTargets _ | .freshTargets => Kind.among [.expressionList, .identifier] t.kind
  | .fieldKey => t.kind = .identifier
  | role => role.Fits t

theorem settlePlain_settled (t : Tree) :
    (Role.settle.settlePlain t).Settled t ∧ (Role.settle.settlePlain t).names = [] := by
  unfold Role.settle.settlePlain
  split
  · next hk => exact ⟨by simp [Settled, Fits, Kind.among, hk], rfl⟩
  · exact ⟨trivial, rfl⟩

theorem names_of_nil {role' : Role} (h : role'.names = []) : ∀ n ∈ role'.names, n ∈ role.names := by
  simp [h]

theorem settle_settled (h : role.Fits t) :
    (role.settle t).Settled t ∧ ∀ n ∈ (role.settle t).names, n ∈ role.names := by
  have hplain : (Role.settle.settlePlain t).Settled t ∧
      ∀ n ∈ (Role.settle.settlePlain t).names, n ∈ role.names := by
    obtain ⟨hfits, hnames⟩ := settlePlain_settled t
    exact ⟨hfits, names_of_nil hnames⟩
  cases role with
  | plain => exact hplain
  | topLevel =>
    simp only [settle]
    split
    · next hk =>
      refine ⟨?_, names_of_nil rfl⟩
      unfold Kind.isFunction at hk
      split at hk
      · next he => simp [Settled, Fits, Kind.among, he]
      · next he => simp [Settled, Fits, Kind.among, he]
      · cases hk
    · exact ⟨trivial, names_of_nil rfl⟩
  | parameters =>
    simp only [settle]
    split
    · exact ⟨trivial, names_of_nil rfl⟩
    · exact hplain
  | receiverType =>
    simp only [settle]
    split
    · exact ⟨trivial, names_of_nil rfl⟩
    · exact ⟨trivial, names_of_nil rfl⟩
    · exact ⟨trivial, names_of_nil rfl⟩
    · exact hplain
  | shortTargets types =>
    simp only [settle]
    split
    · next hk => exact ⟨by simp [Settled, Kind.among, hk], names_of_nil rfl⟩
    · next hk => exact ⟨by simp [Settled, Kind.among, hk], names_of_nil rfl⟩
    · exact hplain
  | freshTargets =>
    simp only [settle]
    split
    · next hk => exact ⟨by simp [Settled, Kind.among, hk], names_of_nil rfl⟩
    · next hk => exact ⟨by simp [Settled, Kind.among, hk], names_of_nil rfl⟩
    · exact hplain
  | key =>
    simp only [settle]
    split
    · exact ⟨trivial, names_of_nil rfl⟩
    · split
      · next hk => exact ⟨hk, names_of_nil rfl⟩
      · exact hplain
  | fieldKey =>
    simp only [settle]
    split
    · next hk => exact ⟨hk, names_of_nil rfl⟩
    · exact hplain
  | _ => exact ⟨h, fun _ hn => hn⟩

end Role

/-- Bindings made of those of the children of a node and of actions at its own names, or at names
that it has been given. -/
inductive Made (source : ByteArray) (t : Tree) (given : List Ident) : List Binding → Prop
  | nil : Made source t given []
  | append {bs bs' : List Binding} : Made source t given bs → Made source t given bs' →
      Made source t given (bs ++ bs')
  | scope {bs : List Binding} : Made source t given bs → Made source t given [.scope bs]
  | act {a : Action} : a.OwnedBy source t given → Made source t given [.act a]
  | child {c : Tree} {role : Role} : c ∈ t.children → role.Fits c →
      (∀ n ∈ role.names, n.OwnedBy source t []) → Made source t given (bindings source role c)

namespace Made

variable {select : Tree → Option Role} {ts : List Tree}

theorem acts {α : Type} {l : List α} {f : α → Action} (h : ∀ x ∈ l, (f x).OwnedBy source t given) :
    Made source t given (l.map fun x => .act (f x)) := by
  induction l with
  | nil => exact .nil
  | cons x l ih =>
    have hrest := ih fun y hy => h y (List.mem_cons_of_mem x hy)
    exact append (act (h x List.mem_cons_self)) hrest

theorem flatMap {α : Type} {l : List α} {f : α → List Binding}
    (h : ∀ x ∈ l, Made source t given (f x)) : Made source t given (l.flatMap f) := by
  induction l with
  | nil => exact .nil
  | cons x l ih =>
    exact append (h x List.mem_cons_self) (ih fun y hy => h y (List.mem_cons_of_mem x hy))

theorem selected (hts : ts ⊆ t.children) (h : ∀ c ∈ ts, ∀ role, select c = some role →
      role.Fits c ∧ ∀ n ∈ role.names, n.OwnedBy source t []) :
    Made source t given (bindingsOf source select ts) := by
  induction ts with
  | nil => exact .nil
  | cons c ts ih =>
    obtain ⟨hc, hts⟩ := List.cons_subset.mp hts
    apply append _ (ih hts fun d hd => h d (List.mem_cons_of_mem c hd))
    split
    · next role hr =>
      obtain ⟨hfits, hnames⟩ := h c List.mem_cons_self role hr
      exact child hc hfits hnames
    · exact .nil

theorem inPart (f : Field) (role : Role) (hfits : ∀ c, c.field = some f → role.Fits c)
    (hnames : role.names = []) :
    Made source t given (bindingsOf source (Role.inPart f role) t.children) := by
  apply selected (List.Subset.refl _)
  intro c hc role' hr
  simp only [Role.inPart, Option.ite_none_right_eq_some, Option.some.injEq] at hr
  obtain ⟨hf, rfl⟩ := hr
  exact ⟨hfits c hf, by simp [hnames]⟩

theorem ofNamed (hts : ts ⊆ t.children) (role : Role) (hfits : ∀ c, role.Fits c)
    (hnames : role.names = []) : Made source t given (bindingsOf source (Role.ofNamed role) ts) := by
  apply selected hts
  intro c hc role' hr
  simp only [Role.ofNamed, Option.ite_none_right_eq_some, Option.some.injEq] at hr
  obtain ⟨-, rfl⟩ := hr
  exact ⟨hfits c, by simp [hnames]⟩

theorem ofNamedIf (test : Tree → Bool) (role : Role) (hfits : ∀ c, test c = true → role.Fits c)
    (hnames : ∀ n ∈ role.names, n.OwnedBy source t []) :
    Made source t given (bindingsOf source (Role.ofNamedIf test role) t.children) := by
  apply selected (List.Subset.refl _)
  intro c hc role' hr
  simp only [Role.ofNamedIf, Option.ite_none_right_eq_some, Option.some.injEq,
    Bool.and_eq_true] at hr
  obtain ⟨⟨-, ht⟩, rfl⟩ := hr
  exact ⟨hfits c ht, hnames⟩

theorem ofSpecs (kind : Kind) (role : Role)
    (hfits : ∀ c, c.kind = kind ∨ c.kind = .varSpecList → role.Fits c) (hnames : role.names = []) :
    Made source t given (bindingsOf source (Role.ofSpecs kind role) t.children) := by
  apply selected (List.Subset.refl _)
  intro c hc role' hr
  simp only [Role.ofSpecs, Option.ite_none_right_eq_some, Option.some.injEq, Bool.or_eq_true,
    decide_eq_true_eq] at hr
  obtain ⟨hk, rfl⟩ := hr
  exact ⟨hfits c hk, by simp [hnames]⟩

theorem first (hts : ts ⊆ t.children) (role : Role) (hfits : ∀ c, role.Fits c)
    (hnames : role.names = []) : Made source t given (bindingsOfFirst source role ts) := by
  induction ts with
  | nil => exact .nil
  | cons c ts ih =>
    obtain ⟨hc, hts⟩ := List.cons_subset.mp hts
    unfold bindingsOfFirst
    split
    · exact child hc (hfits c) (by simp [hnames])
    · exact ih hts

theorem rest (hts : ts ⊆ t.children) : Made source t given (bindingsOfRest source ts) := by
  induction ts with
  | nil => exact .nil
  | cons c ts ih =>
    obtain ⟨-, hts⟩ := List.cons_subset.mp hts
    unfold bindingsOfRest
    split
    · exact ofNamed hts .plain (fun _ => trivial) rfl
    · exact ih hts

theorem declareNames (hk : .name ∈ nameParts t.kind) (kind : ObjectKind) (type : Option String) :
    Made source t given (declareNames source kind type t) := by
  apply acts
  intro n hn
  obtain ⟨hn, hf⟩ := List.mem_filter.mp hn
  exact (Owns.part hn hk (of_decide_eq_true hf)).ident

theorem specNames (hk : .name ∈ nameParts t.kind) (kind : ObjectKind) :
    Made source t given
      ((specNames source t).map fun (n, type) => .act (.declare n kind type)) := by
  apply acts
  intro x hx
  obtain ⟨⟨n, i⟩, hn, rfl⟩ := List.mem_map.mp hx
  obtain ⟨hn, hf⟩ := List.mem_filter.mp (List.fst_mem_of_mem_zipIdx hn)
  exact (Owns.part hn hk (of_decide_eq_true hf)).ident

theorem typeNames : Made source t given ((t.typeSpecs.filterMap (·.part? .name)).map
    fun n => .act (.declare (Ident.of source n) .type none)) := by
  apply acts
  intro n hn
  obtain ⟨d, hd, hn⟩ := List.mem_filterMap.mp hn
  obtain ⟨hd, hk⟩ := List.mem_filter.mp hd
  have hd : d ∈ t.children := (List.mem_filter.mp hd).1
  have hk : d.kind = .typeSpec ∨ d.kind = .typeAlias := by simpa [Tree.isTypeSpec] using hk
  obtain ⟨hn, hf⟩ := mem_of_part? hn
  have hcarries : Carries d := by rcases hk with hk | hk <;> simp [Carries, Kind.among, hk]
  have hname : .name ∈ nameParts d.kind := by rcases hk with hk | hk <;> simp [nameParts, hk]
  exact (Owns.through hd hcarries (.part hn hname hf)).ident

theorem typeParameterNames :
    Made source t given ((t.named.filter (·.kind = .typeParameterDeclaration)).flatMap
      (Check.declareNames source .type none)) := by
  apply flatMap
  intro d hd
  obtain ⟨hd, hk⟩ := List.mem_filter.mp hd
  have hd : d ∈ t.children := (List.mem_filter.mp hd).1
  have hk : d.kind = .typeParameterDeclaration := of_decide_eq_true hk
  apply acts
  intro n hn
  obtain ⟨hn, hf⟩ := List.mem_filter.mp hn
  have hname : Owns d n := .part hn (by simp [nameParts, hk]) (of_decide_eq_true hf)
  exact (Owns.through hd (by simp [Carries, Kind.among, hk]) hname).ident

/-- Names that stand as type arguments, alone or in a type element. -/
theorem receiverParameters : Made source t given (receiverParameters source t) := by
  apply acts
  intro n hn
  obtain ⟨hn, hk⟩ := List.mem_filter.mp hn
  have hk : n.kind = .typeIdentifier := of_decide_eq_true hk
  have hself : Owns n n := .self (by rw [hk]; rfl)
  have hcarries : Carries n := by simp [Carries, Kind.among, hk]
  obtain ⟨a, ha, he⟩ := List.mem_map.mp hn
  cases hl : t.part? .typeArguments with
  | none => simp [hl] at ha
  | some arguments =>
    have ha : a ∈ arguments.named := by simpa [hl] using ha
    have ha : a ∈ arguments.children := (List.mem_filter.mp ha).1
    obtain ⟨hm, hf⟩ := mem_of_part? hl
    have hname : Owns arguments n := by
      split at he
      · next helem =>
        cases hh : a.named.head? with
        | none => exact .through ha (by simp [Carries, Kind.among, helem]) (by simpa [hh, ← he] using hself)
        | some e =>
          obtain rfl : e = n := by simpa [hh] using he
          have hmem : e ∈ a.children := (List.mem_filter.mp (List.mem_of_mem_head? hh)).1
          exact .through ha (by simp [Carries, Kind.among, helem]) (.through hmem hcarries hself)
      · obtain rfl := he
        exact .through ha hcarries hself
    exact (Owns.through hm (.inr hf) hname).ident

theorem ownType : Made source t given (ownType source t) := by
  unfold Check.ownType
  split
  · exact act ⟨rfl, rfl⟩
  · split
    · exact act ⟨rfl, rfl⟩
    · exact .nil

theorem memberUse (hk : t.kind = .selectorExpression) : Made source t given (memberUse source t) := by
  unfold Check.memberUse
  split
  · next hfield =>
    split
    · obtain ⟨hc, hf⟩ := mem_of_part? hfield
      have hown : Owns t _ := .part hc (by simp [nameParts, hk]) hf
      exact act hown.ident
    · exact .nil
  · exact .nil

theorem qualifiedUse (hk : t.kind = .qualifiedType) : Made source t given (qualifiedUse source t) := by
  unfold Check.qualifiedUse
  split
  · next hpackage hname =>
    obtain ⟨hc, hf⟩ := mem_of_part? hpackage
    obtain ⟨hc', hf'⟩ := mem_of_part? hname
    have hown : Owns t _ := .part hc (by simp [nameParts, hk]) hf
    have hown' : Owns t _ := .part hc' (by simp [nameParts, hk]) hf'
    exact act ⟨hown.ident, hown'.ident⟩
  · exact .nil

/-- The names that a type switch gives to its subject. -/
theorem aliases : ∀ n ∈ ((Tree.expressions? (t.part? .switchAlias)).filter
    (·.kind = .identifier)).map (Ident.of source), n.OwnedBy source t given := by
  intro n hn
  obtain ⟨e, he, rfl⟩ := List.mem_map.mp hn
  obtain ⟨he, hk⟩ := List.mem_filter.mp he
  have hk : e.kind = .identifier := of_decide_eq_true hk
  have hself : Owns e e := .self (by rw [hk]; rfl)
  have hcarries : Carries e := by simp [Carries, Kind.among, hk]
  cases hl : t.part? .switchAlias with
  | none => simp [hl, Tree.expressions?] at he
  | some list =>
    have hm := (mem_of_part? hl).1
    simp only [hl, Tree.expressions?, Option.map_some, Option.getD_some, Tree.expressions] at he
    split at he
    · next hlist =>
      have he : e ∈ list.children := (List.mem_filter.mp (List.mem_filter.mp he).1).1
      have hown : Owns list e := .through he hcarries hself
      exact (Owns.through hm (by simp [Carries, Kind.among, hlist]) hown).ident
    · obtain rfl := List.mem_singleton.mp he
      exact (Owns.through hm hcarries hself).ident

theorem allPlain : Made source t given (bindingsOf source (Role.ofNamed .plain) t.children) :=
  ofNamed (List.Subset.refl _) .plain (fun _ => trivial) rfl

theorem plainPart (f : Field) :
    Made source t given (bindingsOf source (Role.inPart f .plain) t.children) :=
  inPart f .plain (fun _ _ => trivial) rfl

theorem specs (kind : Kind) (k : ObjectKind) (hk : kind = .varSpec ∨ kind = .constSpec) :
    Made source t given (bindingsOf source (Role.ofSpecs kind (.valueSpec k)) t.children) := by
  apply ofSpecs kind (.valueSpec k) _ rfl
  rintro c (hc | hc)
  · rcases hk with rfl | rfl <;> simp [Role.Fits, Kind.among, hc]
  · simp [Role.Fits, Kind.among, hc]

theorem specUses (kind : Kind) (hk : kind = .varSpec ∨ kind = .constSpec) :
    Made source t given (bindingsOf source (Role.ofSpecs kind .valueUses) t.children) := by
  apply ofSpecs kind .valueUses _ rfl
  rintro c (hc | hc)
  · rcases hk with rfl | rfl <;> simp [Role.Fits, Kind.among, hc]
  · simp [Role.Fits, Kind.among, hc]

theorem plain (hr : role.settle t = .plain) : Made source t given (bindings source role t) := by
  have hself : t.kind.isUsed → (Ident.of source t).OwnedBy source t given :=
    fun hk => (Owns.self hk).ident
  obtain ⟨k, f, s, cs⟩ := t
  unfold bindings
  simp only [hr]
  split
  all_goals first
    | exact .nil
    | exact scope allPlain
    | skip
  · exact append (plainPart .right) (inPart .left (.shortTargets _) (fun _ _ => trivial) rfl)
  · exact specs .varSpec .var (.inl rfl)
  · exact specs .constSpec .const (.inr rfl)
  · exact append typeNames (ofNamedIf Tree.isTypeSpec .typeSpec (fun _ hc => hc) nofun)
  · exact scope (append (append (plainPart .initializer) (plainPart .value))
      (ofNamedIf Tree.isClause (.clause _) (fun _ hc => hc) aliases))
  · split
    · exact append (plainPart .right) (inPart .left .freshTargets (fun _ _ => trivial) rfl)
    · exact append (plainPart .right) (plainPart .left)
  · split
    · exact append (plainPart .right) (inPart .left .freshTargets (fun _ _ => trivial) rfl)
    · exact append (plainPart .right) (plainPart .left)
  · exact plainPart .type
  · exact plainPart .type
  · exact append (first (List.Subset.refl _) .key (fun _ => trivial) rfl) (rest (List.Subset.refl _))
  · exact append (plainPart .operand) (memberUse rfl)
  · exact qualifiedUse rfl
  · exact act (hself rfl)
  · exact act (hself rfl)
  · exact append ownType allPlain

theorem function : Made source t given
    [.scope (bindingsOf source (Role.inPart .typeParameters .typeParameters) t.children
      ++ (if t.kind = .methodDeclaration then
          bindingsOf source (Role.inPart .receiver .receivers) t.children else [])
      ++ bindingsOf source (Role.inPart .parameters .parameters) t.children
      ++ bindingsOf source (Role.inPart .result .parameters) t.children
      ++ bindingsOf source (Role.inPart .body .body) t.children)] := by
  have hreceiver : Made source t given (if t.kind = .methodDeclaration then
      bindingsOf source (Role.inPart .receiver .receivers) t.children else []) := by
    split
    · exact inPart .receiver .receivers (fun _ hc => hc) rfl
    · exact .nil
  have hparameters : ∀ f, Made source t given
      (bindingsOf source (Role.inPart f .parameters) t.children) :=
    fun f => inPart f .parameters (fun _ _ => trivial) rfl
  apply scope
  apply append _ (inPart .body .body (fun _ hc => hc) rfl)
  apply append _ (hparameters .result)
  apply append _ (hparameters .parameters)
  exact append (inPart .typeParameters .typeParameters (fun _ hc => hc) rfl) hreceiver

theorem typeParameterUses : Made source t given (bindingsOf source
    (Role.ofNamedIf (·.kind = .typeParameterDeclaration) .valueUses) t.children) := by
  apply ofNamedIf _ .valueUses _ nofun
  intro c hc
  simp [Role.Fits, Kind.among, of_decide_eq_true hc]

theorem parameter (hk : t.isParameter) (type : Option String) :
    Made source t given (bindingsOf source (Role.inPart .type .plain) t.children
      ++ Check.declareNames source .var type t) := by
  have hname : .name ∈ nameParts t.kind := by
    simp only [Tree.isParameter, Bool.or_eq_true, decide_eq_true_eq] at hk
    rcases hk with hk | hk <;> simp [nameParts, hk]
  exact append (plainPart .type) (declareNames hname _ _)

theorem receivers : Made source t given (bindingsOf source
    (Role.ofNamedIf (·.kind = .parameterDeclaration) .receiver) t.children) := by
  apply ofNamedIf _ .receiver _ nofun
  intro c hc
  exact (of_decide_eq_true hc : c.kind = .parameterDeclaration)

theorem receiver (hk : t.kind = .parameterDeclaration) (type : Option String) :
    Made source t given (bindingsOf source (Role.inPart .type .receiverType) t.children
      ++ Check.declareNames source .var type t) := by
  have hname : .name ∈ nameParts t.kind := by simp [nameParts, hk]
  exact append (inPart .type .receiverType (fun _ _ => trivial) rfl) (declareNames hname _ _)

/-- The names of a specification, with its type and its values before them. -/
theorem valueSpec (hk : Kind.among [.varSpec, .constSpec, .varSpecList] t.kind)
    (hne : t.kind ≠ .varSpecList) (kind : ObjectKind) :
    Made source t given (bindingsOf source (Role.inPart .type .plain) t.children
      ++ bindingsOf source (Role.inPart .value .plain) t.children
      ++ (Check.specNames source t).map fun (n, type) => .act (.declare n kind type)) := by
  have hname : .name ∈ nameParts t.kind := by
    have hk : t.kind = .varSpec ∨ t.kind = .constSpec := by simpa [Kind.among, hne] using hk
    rcases hk with hk | hk <;> simp [nameParts, hk]
  exact append (append (plainPart .type) (plainPart .value)) (specNames hname kind)

/-- Targets, each an identifier or a list of targets. -/
theorem target (hsettled : Kind.among [.expressionList, .identifier] t.kind)
    (hne : t.kind ≠ .expressionList) : (Ident.of source t).OwnedBy source t given := by
  have hk : t.kind = .identifier := by simpa [Kind.among, hne] using hsettled
  exact (Owns.self (by rw [hk]; rfl)).ident

theorem fieldKey (hk : t.kind = .identifier) :
    Made source t given [.act (.use (Ident.of source t) true)] :=
  act (Owns.self (by rw [hk]; rfl)).ident

end Made

/-- Whatever role that fits it a node is taken up in, its bindings are made of these pieces. -/
theorem bindings_made (source : ByteArray) (h : role.Fits t) :
    Made source t role.names (bindings source role t) := by
  obtain ⟨hsettled, hnames⟩ := Role.settle_settled h
  generalize hr : role.settle t = settled at hsettled hnames
  cases settled
  case plain => exact .plain hr
  all_goals
    obtain ⟨k, f, s, cs⟩ := t
    unfold bindings
    simp only [hr]
  case topLevel =>
    split
    · exact .ofNamedIf Tree.isTypeSpec .typeSpec (fun _ hc => hc) nofun
    · exact .specUses .varSpec (.inl rfl)
    · exact .specUses .constSpec (.inr rfl)
    · exact .nil
  case function => exact .function
  case typeParameters => exact .append .typeParameterNames .typeParameterUses
  case parameters => exact .ofNamedIf Tree.isParameter .parameter (fun _ hc => hc) nofun
  case parameter => exact .parameter hsettled _
  case receivers => exact .receivers
  case receiver => exact .receiver hsettled _
  case receiverType =>
    split
    · exact .append (.plainPart .type) .receiverParameters
    · exact .first (List.Subset.refl _) .receiverType (fun _ => trivial) rfl
  case body => exact .allPlain
  case typeSpec =>
    exact .scope (.append (.inPart .typeParameters .typeParameters (fun _ hc => hc) rfl)
      (.plainPart .type))
  case valueUses =>
    split
    · exact .specUses .varSpec (.inl rfl)
    · exact .append (.plainPart .type) (.plainPart .value)
  case valueSpec kind =>
    split
    · exact .specs .varSpec kind (.inl rfl)
    · next hne => exact .valueSpec hsettled hne kind
  case shortTargets types =>
    split
    · exact .ofNamed (List.Subset.refl _) (.shortTargets types) (fun _ => trivial) rfl
    · next hne => exact .act (Made.target hsettled hne)
  case freshTargets =>
    split
    · exact .ofNamed (List.Subset.refl _) .freshTargets (fun _ => trivial) rfl
    · next hne => exact .act (Made.target hsettled hne)
  case clause aliases => exact .scope (.append (.acts fun n hn => .inl (hnames n hn)) .allPlain)
  case key => exact .first (List.Subset.refl _) .fieldKey (fun _ => trivial) rfl
  case fieldKey => exact .fieldKey hsettled

end GoAtlas.Check
