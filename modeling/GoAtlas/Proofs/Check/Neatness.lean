import GoAtlas.Proofs.Check.Effects

namespace GoAtlas.Check

open Syntax

variable {bs : List Binding} {source : ByteArray} {t c : Tree} {P : Tree → Prop}
  {select : Tree → Option Role} {role : Role}

namespace Role

/-- The bytes at which a node taken up in a role records something. -/
def Region (role : Role) (t : Tree) : Nat → Prop :=
  match role with
  | .typeSpec | .valueUses => Over t.children (·.field ≠ some .name)
  | _ => t.Covers

/-- The declarations that the nodes taken up in a role have in common. -/
def shared : Role → List Effect
  | .clause aliases => aliases.map (.declare · .var)
  | _ => []

/-- What the names of a node have to be for it to be taken up in a role. -/
def Suits (role : Role) (t : Tree) : Prop :=
  match role with
  | .parameter => t.isParameter
  | .receiver => t.kind = .parameterDeclaration
  | .valueSpec _ => Kind.among [.varSpec, .constSpec, .varSpecList] t.kind
  | .clause _ => Shared role.shared t.Covers
  | _ => True

end Role

/-- A node with what is known of the bindings of its children. -/
structure Tidy (source : ByteArray) (t : Tree) : Prop where
  laid : t.Laid {}
  each : ∀ c ∈ t.children, ∀ role : Role, role.Suits c →
    Neat role.shared (role.Region c) (bindings source role c)

namespace Tidy

variable (h : Tidy source t)
include h

theorem child (hc : c ∈ t.children) (role : Role) (hs : role.Suits c) (hshared : role.shared = []) :
    Neat [] c.Covers (bindings source role c) := by
  have hneat := h.each c hc role hs
  rw [hshared] at hneat
  apply hneat.mono
  intro n hn
  cases role with
  | typeSpec => exact Over.covers (h.laid.row.mem hc).2.2.1 hn
  | valueUses => exact Over.covers (h.laid.row.mem hc).2.2.1 hn
  | _ => exact hn

theorem selected (hsel : ∀ c ∈ t.children, ∀ role, select c = some role →
      P c ∧ role.Suits c ∧ role.shared = []) :
    Neat [] (Over t.children P) (bindingsOf source select t.children) := by
  apply bindingsOf_neat h.laid.row (fun c _ n hn => hn.2) (shared_nil _)
  intro c hc role hrole
  obtain ⟨hP, hs, hshared⟩ := hsel c hc role hrole
  exact (h.child hc role hs hshared).mono fun n hn => ⟨hP, hn⟩

theorem inPart (f : Field) (role : Role) (hs : ∀ c, role.Suits c) (hshared : role.shared = []) :
    Neat [] (Over t.children (·.field ∈ [some f]))
      (bindingsOf source (Role.inPart f role) t.children) := by
  apply h.selected
  intro c hc role' hr
  simp only [Role.inPart, Option.ite_none_right_eq_some, Option.some.injEq] at hr
  obtain ⟨hf, rfl⟩ := hr
  exact ⟨by simp [hf], hs c, hshared⟩

theorem andPart {fs : List (Option Field)} (hbs : Neat [] (Over t.children (·.field ∈ fs)) bs)
    (f : Field) (hf : some f ∉ fs) (role : Role) (hs : ∀ c, role.Suits c)
    (hshared : role.shared = []) : Neat [] (Over t.children (·.field ∈ fs ++ [some f]))
      (bs ++ bindingsOf source (Role.inPart f role) t.children) := by
  apply (hbs.both h.laid (h.inPart f role hs hshared) ?_).mono
  · intro n hn
    apply hn.imp
    intro c hc
    exact List.mem_append.mpr hc
  · intro c hc hc'
    rw [List.mem_singleton.mp hc'] at hc
    exact hf hc

theorem ofNamed (role : Role) (hs : ∀ c, role.Suits c) (hshared : role.shared = []) :
    Neat [] t.Covers (bindingsOf source (Role.ofNamed role) t.children) := by
  apply Neat.whole h.laid (P := fun _ => True)
  apply h.selected
  intro c hc role' hr
  simp only [Role.ofNamed, Option.ite_none_right_eq_some, Option.some.injEq] at hr
  obtain ⟨_, rfl⟩ := hr
  exact ⟨trivial, hs c, hshared⟩

theorem ofNamedIf (test : Tree → Bool) (role : Role) (hs : ∀ c, test c → role.Suits c)
    (hshared : role.shared = []) :
    Neat [] t.Covers (bindingsOf source (Role.ofNamedIf test role) t.children) := by
  apply Neat.whole h.laid (P := fun _ => True)
  apply h.selected
  intro c hc role' hr
  simp only [Role.ofNamedIf, Option.ite_none_right_eq_some, Option.some.injEq,
    Bool.and_eq_true] at hr
  obtain ⟨⟨_, ht⟩, rfl⟩ := hr
  exact ⟨trivial, hs c ht, hshared⟩

theorem ofSpecs (kind : Kind) (role : Role)
    (hs : ∀ c, c.kind = kind ∨ c.kind = .varSpecList → role.Suits c) (hshared : role.shared = []) :
    Neat [] t.Covers (bindingsOf source (Role.ofSpecs kind role) t.children) := by
  apply Neat.whole h.laid (P := fun _ => True)
  apply h.selected
  intro c hc role' hr
  simp only [Role.ofSpecs, Option.ite_none_right_eq_some, Option.some.injEq, Bool.or_eq_true,
    decide_eq_true_eq] at hr
  obtain ⟨hk, rfl⟩ := hr
  exact ⟨trivial, hs c hk, hshared⟩

/-- Names of children are declared first, and the other parts of these children are gone through. -/
theorem named {test : Tree → Bool} {role : Role} {ds : List Tree} {g : Tree → List Tree}
    {kind : ObjectKind} (hrole : role = .typeSpec ∨ role = .valueUses)
    (hds : ds = t.named.filter test) (hg : ∀ d ∈ ds, (g d).Sublist (d.parts .name))
    (hm : ∀ d ∈ ds, ∀ n ∈ d.parts .name, n.kind.isMark)
    (he : effectsOf bs = (ds.flatMap g).map fun n => .declare (Ident.of source n) kind) :
    Neat [] t.Covers
      (bs ++ bindingsOf source (Role.ofNamedIf test role) t.children) := by
  have hsub : ds.Sublist t.children := hds ▸ List.filter_sublist.trans List.filter_sublist
  have hlaid : ∀ d ∈ t.children, d.Laid {} := fun d hd => (h.laid.row.mem hd).2.2.1
  have hnames := Neat.ofChildNames h.laid hsub hg hm he
  have hrest : Neat [] (fun n => ∃ d ∈ t.children, Over d.children (·.field ≠ some .name) n)
      (bindingsOf source (Role.ofNamedIf test role) t.children) := by
    apply bindingsOf_neat h.laid.row (fun d hd n => Over.covers (hlaid d hd)) (shared_nil _)
    intro d hd role' hr
    simp only [Role.ofNamedIf, Option.ite_none_right_eq_some, Option.some.injEq] at hr
    obtain ⟨_, rfl⟩ := hr
    rcases hrole with rfl | rfl
    · exact h.each d hd .typeSpec trivial
    · exact h.each d hd .valueUses trivial
  apply (hnames.append hrest (shared_nil _) ?_).mono
  · rintro n (⟨d, hd, hn⟩ | ⟨d, hd, hn⟩)
    · have hd := hsub.subset hd
      exact h.laid.covers (Tree.child_mem_walk hd d.self_mem_walk) (hn.covers (hlaid d hd))
    · exact h.laid.covers (Tree.child_mem_walk hd d.self_mem_walk) (hn.covers (hlaid d hd))
  · rintro n ⟨d, hd, hn⟩ ⟨d', hd', hn'⟩
    have hd := hsub.subset hd
    obtain rfl := h.laid.row.covers_eq hd hd' (hn.covers (hlaid d hd)) (hn'.covers (hlaid d' hd'))
    obtain ⟨c, hc, hf, hcn⟩ := hn
    obtain ⟨c', hc', hf', hcn'⟩ := hn'
    exact hf' ((hlaid d hd).row.covers_eq hc hc' hcn hcn' ▸ hf)

theorem function (hr : role.settle t = .function) : Neat [] t.Covers (bindings source role t) := by
  have htypes := h.inPart .typeParameters .typeParameters (fun _ => trivial) rfl
  have hreceiver : Neat [] (Over t.children (·.field ∈ [some .typeParameters, some .receiver]))
      (bindingsOf source (Role.inPart .typeParameters .typeParameters) t.children
        ++ if t.kind = .methodDeclaration then
          bindingsOf source (Role.inPart .receiver .receivers) t.children else []) := by
    split
    · exact h.andPart htypes .receiver (by simp) .receivers (fun _ => trivial) rfl
    · rw [List.append_nil]
      exact htypes.mono fun n hn => hn.imp fun c hc => List.mem_cons.mpr (.inl (by simpa using hc))
  have hparameters := h.andPart hreceiver .parameters (by simp) .parameters (fun _ => trivial) rfl
  have hresult := h.andPart hparameters .result (by simp) .parameters (fun _ => trivial) rfl
  have hbody := h.andPart hresult .body (by simp) .body (fun _ => trivial) rfl
  obtain ⟨k, f, s, cs⟩ := t
  unfold bindings
  simp only [hr]
  exact (hbody.whole h.laid).scope

theorem typeParameters : Neat [] t.Covers (bindings source .typeParameters t) := by
  have hdeclarations : ∀ d ∈ t.named.filter (·.kind = .typeParameterDeclaration),
      ∀ n ∈ d.parts .name, n.kind.isMark := by
    intro d hd n hn
    obtain ⟨hd, hk⟩ := List.mem_filter.mp hd
    have hd := (List.mem_filter.mp hd).1
    obtain ⟨hn, hf⟩ := List.mem_filter.mp hn
    have ha := ((h.laid.row.mem hd).2.2.1.row.mem hn).2.2.2
    rw [of_decide_eq_true hk, of_decide_eq_true hf] at ha
    rw [Kind.eq_of_admits ha rfl]
    rfl
  have he : effectsOf ((t.named.filter (·.kind = .typeParameterDeclaration)).flatMap
      (declareNames source .type none)) =
      ((t.named.filter (·.kind = .typeParameterDeclaration)).flatMap (·.parts .name)).map
        fun n => .declare (Ident.of source n) .type := by
    simp only [effectsOf_flatMap, effectsOf_declareNames, List.map_flatMap]
  have hneat := h.named (.inr rfl) rfl (fun _ _ => List.Sublist.refl _) hdeclarations he
  obtain ⟨k, f, s, cs⟩ := t
  exact hneat

/-- The types of a declaration inside a function. -/
theorem typeSpecs : Neat [] t.Covers
    ((t.typeSpecs.filterMap (·.part? .name)).map
        (fun n => .act (.declare (Ident.of source n) .type none))
      ++ bindingsOf source (Role.ofNamedIf Tree.isTypeSpec .typeSpec) t.children) := by
  apply h.named (.inl rfl) (g := fun d => (d.part? .name).toList) rfl
  · intro d hd
    exact part?_sublist d .name
  · intro d hd n hn
    obtain ⟨hd, hk⟩ := List.mem_filter.mp hd
    have hd := (List.mem_filter.mp hd).1
    obtain ⟨hn, hf⟩ := List.mem_filter.mp hn
    have ha := ((h.laid.row.mem hd).2.2.1.row.mem hn).2.2.2
    rw [of_decide_eq_true hf] at ha
    simp only [Tree.isTypeSpec, Bool.or_eq_true, decide_eq_true_eq] at hk
    rcases hk with hk | hk <;> rw [hk] at ha <;> rw [Kind.eq_of_admits ha rfl] <;> rfl
  · rw [effectsOf_map, List.filterMap_eq_flatMap_toList]
    exact List.flatMap_pure_eq_map _ _

/-- The types and values of a specification. -/
theorem values : Neat [] (Over t.children (·.field ∈ [some .type, some .value]))
    (bindingsOf source (Role.inPart .type .plain) t.children
      ++ bindingsOf source (Role.inPart .value .plain) t.children) :=
  h.andPart (h.inPart .type .plain (fun _ => trivial) rfl) .value (by simp) .plain
    (fun _ => trivial) rfl

theorem valueUses : Neat [] (Over t.children (·.field ≠ some .name))
    (bindings source .valueUses t) := by
  have hvalues := h.values
  have hspecs : t.kind = .varSpecList → Neat [] (Over t.children (·.field ≠ some .name))
      (bindingsOf source (Role.ofSpecs .varSpec .valueUses) t.children) := by
    intro hk
    apply h.selected
    intro c hc role hr
    simp only [Role.ofSpecs, Option.ite_none_right_eq_some, Option.some.injEq] at hr
    obtain ⟨_, rfl⟩ := hr
    refine ⟨?_, trivial, rfl⟩
    intro hf
    have ha := (h.laid.row.mem hc).2.2.2
    rw [hk, hf] at ha
    exact Kind.not_admits rfl ha
  obtain ⟨k, f, s, cs⟩ := t
  unfold bindings
  simp only [Role.settle]
  split
  · next hk => exact hspecs hk
  · apply hvalues.mono
    intro n hn
    apply hn.imp
    intro c hc hf
    simp [hf] at hc

theorem valueSpec (hk : Kind.among [.varSpec, .constSpec, .varSpecList] t.kind) (kind : ObjectKind) :
    Neat [] t.Covers (bindings source (.valueSpec kind) t) := by
  have hk : t.kind = .varSpec ∨ t.kind = .constSpec ∨ t.kind = .varSpecList := by
    simpa [Kind.among] using hk
  have hnames : ∀ n ∈ t.parts .name, n.kind.isMark := by
    intro n hn
    obtain ⟨hn, hf⟩ := List.mem_filter.mp hn
    have ha := (h.laid.row.mem hn).2.2.2
    rw [of_decide_eq_true hf] at ha
    rcases hk with hk | hk | hk <;> rw [hk] at ha
    · rw [Kind.eq_of_admits ha rfl]
      rfl
    · -- the commas between the names of a constant stand in the same part
      have hc : n.kind = .identifier ∨ n.kind = .token "," := by
        simpa [Kind.among] using Kind.of_admits_one ha rfl
      rcases hc with hc | hc
      · rw [hc]
        rfl
      · rw [hc]
        rfl
    · exact (Kind.not_admits rfl ha).elim
  have hspecs := h.ofSpecs .varSpec (.valueSpec kind)
    (by rintro c (hc | hc) <;> simp [Role.Suits, Kind.among, hc]) rfl
  have hall := Neat.both h.laid h.values (specNames_neat source h.laid hnames kind)
    (by intro c hc hf; simp [hf] at hc)
  obtain ⟨k, f, s, cs⟩ := t
  unfold bindings
  simp only [Role.settle]
  split
  · exact hspecs
  · exact hall.whole h.laid

theorem typeSpec : Neat [] (Over t.children (·.field ≠ some .name))
    (bindings source .typeSpec t) := by
  have hparts := h.andPart (h.inPart .typeParameters .typeParameters (fun _ => trivial) rfl)
    .type (by simp) .plain (fun _ => trivial) rfl
  obtain ⟨k, f, s, cs⟩ := t
  apply Neat.scope
  apply hparts.mono
  intro n hn
  apply hn.imp
  intro c hc hf
  simp [hf] at hc

theorem parameterNames (hk : t.isParameter) : ∀ n ∈ t.parts .name, n.kind.isMark := by
  intro n hn
  obtain ⟨hn, hf⟩ := List.mem_filter.mp hn
  have ha := (h.laid.row.mem hn).2.2.2
  rw [of_decide_eq_true hf] at ha
  simp only [Tree.isParameter, Bool.or_eq_true, decide_eq_true_eq] at hk
  rcases hk with hk | hk <;> rw [hk] at ha <;> rw [Kind.eq_of_admits ha rfl] <;> rfl

theorem parameter (hk : t.isParameter) : Neat [] t.Covers (bindings source .parameter t) := by
  have hall := Neat.both h.laid (h.inPart .type .plain (fun _ => trivial) rfl)
    (declareNames_neat source h.laid (h.parameterNames hk) .var (parameterType source t))
    (by intro c hc hf; simp [hf] at hc)
  obtain ⟨k, f, s, cs⟩ := t
  exact hall.whole h.laid

theorem receiver (hk : t.kind = .parameterDeclaration) :
    Neat [] t.Covers (bindings source .receiver t) := by
  have hnames := h.parameterNames (by simp [Tree.isParameter, hk])
  have hall := Neat.both h.laid (h.inPart .type .receiverType (fun _ => trivial) rfl)
    (declareNames_neat source h.laid hnames .var (some (Tree.text? source (t.part? .type))))
    (by intro c hc hf; simp [hf] at hc)
  obtain ⟨k, f, s, cs⟩ := t
  exact hall.whole h.laid

/-- The type parameters of a receiver stand in the list of its type arguments. -/
theorem receiverParameters :
    Neat [] (Over t.children (·.field = some .typeArguments)) (receiverParameters source t) := by
  cases hl : t.part? .typeArguments with
  | none =>
    have hnone : Check.receiverParameters source t = [] := by simp [Check.receiverParameters, hl]
    rw [hnone]
    exact .nil _ _
  | some arguments =>
    obtain ⟨hm, hf⟩ := mem_of_part? hl
    have hlaid := (h.laid.row.mem hm).2.2.1
    let target : Tree → Tree := fun a => if a.kind = .typeElem then a.named.head?.getD a else a
    let declared := arguments.named.filter ((·.kind = .typeIdentifier) ∘ target)
    have hsub : declared.Sublist arguments.children := List.filter_sublist.trans List.filter_sublist
    have htarget : ∀ a ∈ declared, target a ∈ a.walk ∧ (target a).kind.isMark := by
      intro a ha
      have hk : (target a).kind = .typeIdentifier := by simpa using (List.mem_filter.mp ha).2
      refine ⟨?_, by rw [hk]; rfl⟩
      unfold target
      split
      · cases hh : a.named.head? with
        | none => exact a.self_mem_walk
        | some e =>
          have he : e ∈ a.children := (List.mem_filter.mp (List.mem_of_mem_head? hh)).1
          exact Tree.child_mem_walk he e.self_mem_walk
      · exact a.self_mem_walk
    have he : effectsOf (Check.receiverParameters source t) =
        (declared.flatMap fun a => [target a]).map fun n => .declare (Ident.of source n) .type := by
      rw [Check.receiverParameters, hl, effectsOf_map, List.filter_map, List.flatMap_map,
        List.map_flatMap]
      rfl
    apply Neat.ofNames he
    · apply starts_pairwise Nat.ne_of_lt ((Row.ordered hlaid.row).sublist hsub)
      · intro a ha
        exact (hlaid.row.mem (hsub.subset ha)).2.2.1
      · intro a ha n hn
        rw [List.mem_singleton.mp hn]
        exact htarget a ha
      · intro a _
        exact List.pairwise_singleton _ _
    · intro n hn
      obtain ⟨a, ha, hn⟩ := List.mem_flatMap.mp hn
      obtain rfl := List.mem_singleton.mp hn
      obtain ⟨hw, hmark⟩ := htarget a ha
      have hw := Tree.child_mem_walk (hsub.subset ha) hw
      have hn := covers_start (Tree.walk_within _ hlaid _ hw).2.2 hmark
      exact ⟨arguments, hm, hf, hlaid.covers hw hn⟩

/-- The bindings of the first named child. -/
theorem first (role : Role) (hs : ∀ c, role.Suits c) (hshared : role.shared = []) :
    Neat [] t.Covers (bindingsOfFirst source role t.children) := by
  have hfirst : ∀ ts, ts ⊆ t.children →
      Neat [] t.Covers (bindingsOfFirst source role ts) := by
    intro ts hts
    induction ts with
    | nil => exact .nil _ _
    | cons c ts ih =>
      obtain ⟨hc, hts⟩ := List.cons_subset.mp hts
      rw [bindingsOfFirst]
      split
      · apply (h.child hc role (hs c) hshared).mono
        intro n hn
        exact h.laid.covers (Tree.child_mem_walk hc c.self_mem_walk) hn
      · exact ih hts
  exact hfirst t.children (List.Subset.refl _)

theorem receiverType (hr : role.settle t = .receiverType) :
    Neat [] t.Covers (bindings source role t) := by
  have hgeneric := Neat.both h.laid (h.inPart .type .plain (fun _ => trivial) rfl)
    h.receiverParameters (by intro c hc hf; simp [hf] at hc)
  have hfirst := h.first .receiverType (fun _ => trivial) rfl
  obtain ⟨k, f, s, cs⟩ := t
  unfold bindings
  simp only [hr]
  split
  · exact hgeneric.whole h.laid
  · exact hfirst

/-- A node that is a mark records something at its own start. -/
theorem self (hm : t.kind.isMark) {x : Effect} (hx : x.name = Ident.of source t)
    (he : effectsOf bs = [x]) : Neat [] t.Covers bs := by
  constructor
  · intro y hy
    rw [he, List.mem_singleton] at hy
    have hs : x.start = t.start := congrArg Ident.start hx
    exact .inr (by rw [hy, hs]; exact covers_start h.laid hm)
  · rw [he]
    exact List.pairwise_singleton _ _

theorem shortTargets (types : List (Nat × Option String))
    (hk : t.kind = .expressionList ∨ t.kind = .identifier)
    (hr : role.settle t = .shortTargets types) : Neat [] t.Covers (bindings source role t) := by
  have hlist := h.ofNamed (.shortTargets types) (fun _ => trivial) rfl
  have hself := fun hm types => h.self (x := .either (Ident.of source t)) hm rfl
    (effectsOf_act (.short (Ident.of source t) types))
  obtain ⟨k, f, s, cs⟩ := t
  unfold bindings
  simp only [hr]
  split
  · exact hlist
  · next hne =>
    obtain rfl : k = .identifier := hk.resolve_left hne
    exact hself rfl _

theorem freshTargets (hk : t.kind = .expressionList ∨ t.kind = .identifier)
    (hr : role.settle t = .freshTargets) : Neat [] t.Covers (bindings source role t) := by
  have hlist := h.ofNamed .freshTargets (fun _ => trivial) rfl
  have hself := fun hm => h.self (x := .declare (Ident.of source t) .var) hm rfl
    (effectsOf_act (.declare (Ident.of source t) .var none))
  obtain ⟨k, f, s, cs⟩ := t
  unfold bindings
  simp only [hr]
  split
  · exact hlist
  · next hne =>
    obtain rfl : k = .identifier := hk.resolve_left hne
    exact hself rfl

theorem clause {aliases : List Ident} (hD : Shared (Role.clause aliases).shared t.Covers) :
    Neat (Role.clause aliases).shared t.Covers (bindings source (.clause aliases) t) := by
  have hbody := h.ofNamed .plain (fun _ => trivial) rfl
  have haliases : effectsOf (aliases.map fun a => .act (.declare a .var none)) =
      (Role.clause aliases).shared := by
    rw [effectsOf_map]
    exact List.flatMap_pure_eq_map _ _
  obtain ⟨k, f, s, cs⟩ := t
  apply Neat.scope
  constructor
  · intro x hx
    rw [effectsOf_append, haliases] at hx
    rcases List.mem_append.mp hx with hx | hx
    · exact .inl hx
    · exact (hbody.within x hx).imp_left nofun
  · rw [effectsOf_append, haliases]
    apply List.pairwise_append.mpr
    refine ⟨?_, hbody.agree, ?_⟩
    · exact List.pairwise_of_forall_mem_list hD.agree
    · intro x hx y hy he
      rcases hbody.within y hy with hy | hy
      · cases hy
      · exact (hD.outside x hx (he ▸ hy)).elim

/-- The names that a type switch gives to its subject. -/
def aliases (source : ByteArray) (t : Tree) : List Ident :=
  ((Tree.expressions? (t.part? .switchAlias)).filter (·.kind = .identifier)).map (Ident.of source)

omit h in
theorem mem_aliases (hl : t.Laid {}) (hk : t.kind = .typeSwitchStatement) {n : Ident}
    (hn : n ∈ aliases source t) : ∃ list ∈ t.children, list.kind = .expressionList ∧
      ∃ e ∈ list.children, e.kind = .identifier ∧ n = Ident.of source e ∧
        t.part? .switchAlias = some list := by
  obtain ⟨e, he, rfl⟩ := List.mem_map.mp hn
  obtain ⟨he, hid⟩ := List.mem_filter.mp he
  cases hlist : t.part? .switchAlias with
  | none => simp [hlist, Tree.expressions?] at he
  | some list =>
    obtain ⟨hm, hf⟩ := mem_of_part? hlist
    have ha := hf ▸ (hl.row.mem hm).2.2.2
    rw [hk] at ha
    have hkl : list.kind = .expressionList := Kind.eq_of_admits ha rfl
    have he : e ∈ list.children := by
      simp only [hlist, Tree.expressions?, Option.map_some, Option.getD_some, Tree.expressions,
        hkl, if_true] at he
      exact (List.mem_filter.mp (List.mem_filter.mp he).1).1
    exact ⟨list, hm, hkl, e, he, by simpa using hid, rfl, rfl⟩

omit h in
theorem shared_aliases (source : ByteArray) (hl : t.Laid {}) (hk : t.kind = .typeSwitchStatement) :
    Shared (Role.clause (aliases source t)).shared
      (fun n => Over t.children (·.field ∈ [some .initializer, some .value]) n ∨
        Over t.children (·.isClause) n) ∧
      ∀ x ∈ (Role.clause (aliases source t)).shared, t.Covers x.start := by
  have hcovers : ∀ {list e : Tree}, list ∈ t.children → e ∈ list.children → e.kind = .identifier →
      list.Covers e.start := by
    intro list e hlist he hid
    have hlaid := (hl.row.mem hlist).2.2.1
    have hmark : e.kind.isMark := by rw [hid]; rfl
    exact hlaid.covers (Tree.child_mem_walk he e.self_mem_walk)
      (covers_start (hlaid.row.mem he).2.2.1 hmark)
  refine ⟨⟨?_, ?_⟩, ?_⟩
  · intro x hx y hy he
    obtain ⟨n, hn, rfl⟩ := List.mem_map.mp hx
    obtain ⟨n', hn', rfl⟩ := List.mem_map.mp hy
    obtain ⟨list, hlist, hkl, e, hel, hid, rfl, hpart⟩ := mem_aliases hl hk hn
    obtain ⟨list', hlist', hkl', e', hel', hid', rfl, hpart'⟩ := mem_aliases hl hk hn'
    obtain rfl := Option.some.inj (hpart.symm.trans hpart')
    have hlaid := (hl.row.mem hlist).2.2.1
    have hcov : ∀ d ∈ list.children, d.kind = .identifier → d.Covers d.start := by
      intro d hd hkd
      exact covers_start (hlaid.row.mem hd).2.2.1 (by rw [hkd]; rfl)
    have hsame : e.start = e'.start := he
    obtain rfl := hlaid.row.covers_eq hel hel' (hcov e hel hid) (hsame ▸ hcov e' hel' hid')
    exact ⟨rfl, _, _, rfl⟩
  · intro x hx hr
    obtain ⟨n, hn, rfl⟩ := List.mem_map.mp hx
    obtain ⟨list, hlist, hkl, e, hel, hid, rfl, hpart⟩ := mem_aliases hl hk hn
    have hn := hcovers hlist hel hid
    rcases hr with ⟨c, hc, hf, hcn⟩ | ⟨c, hc, hclause, hcn⟩
    · obtain rfl := hl.row.covers_eq hlist hc hn hcn
      have hf' := (mem_of_part? hpart).2
      simp [hf'] at hf
    · obtain rfl := hl.row.covers_eq hlist hc hn hcn
      simp [Tree.isClause, hkl] at hclause
  · intro x hx
    obtain ⟨n, hn, rfl⟩ := List.mem_map.mp hx
    obtain ⟨list, hlist, hkl, e, hel, hid, rfl, hpart⟩ := mem_aliases hl hk hn
    exact hl.covers (Tree.child_mem_walk hlist list.self_mem_walk) (hcovers hlist hel hid)

theorem typeSwitch (hk : t.kind = .typeSwitchStatement) : Neat [] t.Covers
    (bindingsOf source (Role.inPart .initializer .plain) t.children
      ++ bindingsOf source (Role.inPart .value .plain) t.children
      ++ bindingsOf source
        (Role.ofNamedIf Tree.isClause (.clause (aliases source t))) t.children) := by
  obtain ⟨hD, hin⟩ := shared_aliases source h.laid hk
  have hhead := h.andPart (h.inPart .initializer .plain (fun _ => trivial) rfl) .value (by simp)
    .plain (fun _ => trivial) rfl
  have hclauses : Neat (Role.clause (aliases source t)).shared (Over t.children (·.isClause))
      (bindingsOf source
        (Role.ofNamedIf Tree.isClause (.clause (aliases source t))) t.children) := by
    apply bindingsOf_neat h.laid.row (fun c _ n hn => hn.2) (hD.mono fun n hn => .inr hn)
    intro c hc role hr
    simp only [Role.ofNamedIf, Option.ite_none_right_eq_some, Option.some.injEq,
      Bool.and_eq_true] at hr
    obtain ⟨⟨_, hclause⟩, rfl⟩ := hr
    have hsuits : (Role.clause (aliases source t)).Suits c :=
      hD.mono fun n hn => .inr ⟨c, hc, hclause, hn⟩
    exact (h.each c hc _ hsuits).mono fun n hn => ⟨hclause, hn⟩
  apply ((hhead.widen _).append hclauses hD ?_).close hin
  · rintro n (hn | hn)
    · exact hn.covers h.laid
    · exact hn.covers h.laid
  · rintro n ⟨c, hc, hf, hn⟩ ⟨d, hd, hclause, hn'⟩
    obtain rfl := h.laid.row.covers_eq hc hd hn hn'
    have ha := (h.laid.row.mem hc).2.2.2
    rw [hk] at ha
    have hf : c.field = some .initializer ∨ c.field = some .value := by simpa using hf
    have hkind : c.kind.isSimple ∨ c.kind.isExpression := by
      rcases hf with hf | hf <;> rw [hf] at ha
      · exact .inl (Kind.of_admits_one ha rfl)
      · exact .inr (Kind.of_admits_one ha rfl)
    unfold Tree.isClause at hclause
    split at hclause
    all_goals simp_all [Kind.isSimple, Kind.isExpression]

/-- A key of a literal and its value. -/
theorem keyed : Neat [] t.Covers
    (bindingsOfFirst source .key t.children ++ bindingsOfRest source t.children) := by
  have hall : ∀ (ts : List Tree) (a : Nat), ts ⊆ t.children → Row {} t.kind a t.stop ts →
      Neat [] (Over ts fun _ => True)
        (bindingsOfFirst source .key ts ++ bindingsOfRest source ts) := by
    intro ts
    induction ts with
    | nil =>
      intro a hts hr
      exact .nil _ _
    | cons c ts ih =>
      intro a hts hr
      obtain ⟨hc, hts⟩ := List.cons_subset.mp hts
      have hcons : ∀ n, c.Covers n ∨ Over ts (fun _ => True) n → Over (c :: ts) (fun _ => True) n := by
        rintro n (hn | ⟨d, hd, hn⟩)
        · exact ⟨c, List.mem_cons_self, trivial, hn⟩
        · exact ⟨d, List.mem_cons_of_mem c hd, hn⟩
      rw [bindingsOfFirst, bindingsOfRest]
      by_cases hnamed : c.kind.isNamed
      · rw [if_pos hnamed, if_pos hnamed]
        have hrest : Neat [] (Over ts fun _ => True) (bindingsOf source (Role.ofNamed .plain) ts) := by
          apply bindingsOf_neat hr.2.2.2 (fun d _ n hn => hn.2) (shared_nil _)
          intro d hd role hrole
          simp only [Role.ofNamed, Option.ite_none_right_eq_some, Option.some.injEq] at hrole
          obtain ⟨_, rfl⟩ := hrole
          exact (h.child (hts hd) .plain trivial rfl).mono fun n hn => ⟨trivial, hn⟩
        apply ((h.child hc .key trivial rfl).append hrest (shared_nil _) ?_).mono hcons
        rintro n hn ⟨d, hd, _, hdn⟩
        have := (hr.2.2.2.mem hd).1
        have := hn.2
        have := hdn.1
        omega
      · rw [if_neg hnamed, if_neg hnamed]
        exact (ih c.stop hts hr.2.2.2).mono fun n hn => hcons n (.inr hn)
  exact (hall t.children t.start (List.Subset.refl _) h.laid.row).whole h.laid

theorem usedPart {f : Field} (hc : t.part? f = some c) (hm : c.kind.isMark)
    (he : effectsOf bs = [.use (Ident.of source c)]) :
    Neat [] (Over t.children (·.field ∈ [some f])) bs := by
  obtain ⟨hmem, hf⟩ := mem_of_part? hc
  apply Neat.ofUse _ he
  exact ⟨c, hmem, by simp [hf], covers_start (h.laid.row.mem hmem).2.2.1 hm⟩

theorem memberUse (hk : t.kind = .selectorExpression) :
    Neat [] (Over t.children (·.field ∈ [some .field])) (memberUse source t) := by
  unfold Check.memberUse
  split
  · next operand field _ hfield =>
    split
    · obtain ⟨hc, hf⟩ := mem_of_part? hfield
      have ha := hf ▸ (h.laid.row.mem hc).2.2.2
      rw [hk] at ha
      have hkind : field.kind = .fieldIdentifier := Kind.eq_of_admits ha rfl
      exact h.usedPart hfield (by rw [hkind]; rfl) (effectsOf_act _)
    · exact .nil _ _
  · exact .nil _ _

theorem qualifiedUse (hk : t.kind = .qualifiedType) :
    Neat [] t.Covers (qualifiedUse source t) := by
  unfold Check.qualifiedUse
  split
  · next package name hpackage hname =>
    obtain ⟨hc, hf⟩ := mem_of_part? hpackage
    obtain ⟨hc', hf'⟩ := mem_of_part? hname
    have ha := hf ▸ (h.laid.row.mem hc).2.2.2
    have ha' := hf' ▸ (h.laid.row.mem hc').2.2.2
    rw [hk] at ha ha'
    have hkp : package.kind = .packageIdentifier := Kind.eq_of_admits ha rfl
    have hkn : name.kind = .typeIdentifier := Kind.eq_of_admits ha' rfl
    have hfirst := h.usedPart hpackage (by rw [hkp]; rfl)
      (effectsOf_act (.use (Ident.of source package) false))
    have hsecond := h.usedPart hname (by rw [hkn]; rfl)
      (effectsOf_act (.use (Ident.of source name) false))
    have hboth := hfirst.both h.laid hsecond
      (by intro c hp hn; simp_all)
    exact (hboth.whole h.laid).ofEffects rfl
  · exact .nil _ _

theorem plain (hr : role.settle t = .plain) : Neat [] t.Covers (bindings source role t) := by
  have hall := h.ofNamed .plain (fun _ => trivial) rfl
  have hright := h.inPart .right .plain (fun _ => trivial) rfl
  have hself := fun hm soft => h.self (x := .use (Ident.of source t)) hm rfl
    (effectsOf_act (.use (Ident.of source t) soft))
  have hmember := fun hk => Neat.both h.laid (h.inPart .operand .plain (fun _ => trivial) rfl)
    (h.memberUse hk) (by intro c hc hf; simp_all)
  obtain ⟨k, f, s, cs⟩ := t
  unfold bindings
  simp only [hr]
  split
  all_goals first
    | exact .nil _ _
    | exact hall.scope
    | skip
  · exact (h.andPart hright .left (by simp) (.shortTargets _) (fun _ => trivial) rfl).whole h.laid
  · refine h.ofSpecs _ _ ?_ rfl
    rintro c (hc | hc) <;> simp [Role.Suits, Kind.among, hc]
  · refine h.ofSpecs _ _ ?_ rfl
    rintro c (hc | hc) <;> simp [Role.Suits, Kind.among, hc]
  · exact h.typeSpecs
  · exact (h.typeSwitch rfl).scope
  · split
    · exact (h.andPart hright .left (by simp) .freshTargets (fun _ => trivial) rfl).whole h.laid
    · exact (h.andPart hright .left (by simp) .plain (fun _ => trivial) rfl).whole h.laid
  · split
    · exact (h.andPart hright .left (by simp) .freshTargets (fun _ => trivial) rfl).whole h.laid
    · exact (h.andPart hright .left (by simp) .plain (fun _ => trivial) rfl).whole h.laid
  · exact (h.inPart .type .plain (fun _ => trivial) rfl).whole h.laid
  · exact (h.inPart .type .plain (fun _ => trivial) rfl).whole h.laid
  · exact h.keyed
  · exact (hmember rfl).whole h.laid
  · exact h.qualifiedUse rfl
  · exact hself rfl false
  · exact hself rfl false
  · apply hall.ofEffects
    rw [effectsOf_append, effectsOf_ownType]
    rfl

theorem settledPlain (hr : role.settle t = Role.settle.settlePlain t) :
    Neat [] t.Covers (bindings source role t) := by
  unfold Role.settle.settlePlain at hr
  split at hr
  · exact h.function hr
  · exact h.plain hr

theorem topLevel : Neat [] t.Covers (bindings source .topLevel t) := by
  by_cases hf : t.kind.isFunction
  · exact h.function (by simp [Role.settle, hf])
  · have htypes := h.ofNamedIf Tree.isTypeSpec .typeSpec (fun _ _ => trivial) rfl
    have hvars := fun kind => h.ofSpecs kind .valueUses (fun _ _ => trivial) rfl
    have hsettle : Role.settle t .topLevel = .topLevel := by simp [Role.settle, hf]
    obtain ⟨k, f, s, cs⟩ := t
    unfold bindings
    simp only [hsettle]
    split
    · exact htypes
    · exact hvars .varSpec
    · exact hvars .constSpec
    · exact .nil _ _

theorem key (hr : role.settle t = .key) : Neat [] t.Covers (bindings source role t) := by
  have hfirst := h.first .fieldKey (fun _ => trivial) rfl
  obtain ⟨k, f, s, cs⟩ := t
  unfold bindings
  simp only [hr]
  exact hfirst

theorem fieldKey (hk : t.kind = .identifier) (hr : role.settle t = .fieldKey) :
    Neat [] t.Covers (bindings source role t) := by
  have hself := h.self (x := .use (Ident.of source t)) (by rw [hk]; rfl) rfl
    (effectsOf_act (.use (Ident.of source t) true))
  obtain ⟨k, f, s, cs⟩ := t
  unfold bindings
  simp only [hr]
  exact hself

theorem parameters (hr : role.settle t = .parameters) :
    Neat [] t.Covers (bindings source role t) := by
  have hall := h.ofNamedIf Tree.isParameter .parameter (fun _ hc => hc) rfl
  obtain ⟨k, f, s, cs⟩ := t
  unfold bindings
  simp only [hr]
  exact hall

theorem receivers : Neat [] t.Covers (bindings source .receivers t) := by
  have hall := h.ofNamedIf (·.kind = .parameterDeclaration) .receiver
    (fun c hc => (of_decide_eq_true hc : c.kind = .parameterDeclaration)) rfl
  obtain ⟨k, f, s, cs⟩ := t
  exact hall

theorem body : Neat [] t.Covers (bindings source .body t) := by
  have hall := h.ofNamed .plain (fun _ => trivial) rfl
  obtain ⟨k, f, s, cs⟩ := t
  exact hall

theorem bindings (hs : role.Suits t) :
    Neat role.shared (role.Region t) (bindings source role t) := by
  cases role with
  | plain => exact h.settledPlain rfl
  | topLevel => exact h.topLevel
  | function => exact h.function rfl
  | typeParameters => exact h.typeParameters
  | parameters =>
    by_cases hk : t.kind = .parameterList
    · exact h.parameters (by simp [Role.settle, hk])
    · exact h.settledPlain (by simp [Role.settle, hk])
  | parameter => exact h.parameter hs
  | receivers => exact h.receivers
  | receiver => exact h.receiver hs
  | receiverType =>
    by_cases hk : t.kind = .pointerType ∨ t.kind = .parenthesizedType ∨ t.kind = .genericType
    · exact h.receiverType (by rcases hk with hk | hk | hk <;> simp [Role.settle, hk])
    · apply h.settledPlain
      unfold Role.settle
      split <;> simp_all
  | body => exact h.body
  | typeSpec => exact h.typeSpec
  | valueUses => exact h.valueUses
  | valueSpec kind => exact h.valueSpec hs kind
  | shortTargets types =>
    by_cases hk : t.kind = .expressionList ∨ t.kind = .identifier
    · exact h.shortTargets types hk (by rcases hk with hk | hk <;> simp [Role.settle, hk])
    · apply h.settledPlain
      unfold Role.settle
      split <;> simp_all
  | freshTargets =>
    by_cases hk : t.kind = .expressionList ∨ t.kind = .identifier
    · exact h.freshTargets hk (by rcases hk with hk | hk <;> simp [Role.settle, hk])
    · apply h.settledPlain
      unfold Role.settle
      split <;> simp_all
  | clause aliases => exact h.clause hs
  | key =>
    by_cases hk : t.kind = .literalElement ∧ t.named.isEmpty = false
    · exact h.key (by simp [Role.settle, hk])
    · by_cases hid : t.kind = .identifier
      · exact h.fieldKey hid (by simp [Role.settle, hid])
      · exact h.settledPlain (by simp_all [Role.settle])
  | fieldKey =>
    by_cases hid : t.kind = .identifier
    · exact h.fieldKey hid (by simp [Role.settle, hid])
    · exact h.settledPlain (by simp [Role.settle, hid])

end Tidy

theorem bindings_neat (source : ByteArray) (t : Tree) (role : Role) (hl : t.Laid {})
    (hs : role.Suits t) : Neat role.shared (role.Region t) (bindings source role t) := by
  have h : Tidy source t :=
    { laid := hl
      each := fun c hc role hs => bindings_neat source c role (hl.row.mem hc).2.2.1 hs }
  exact h.bindings hs
termination_by sizeOf t
decreasing_by exact Tree.sizeOf_lt_of_mem_children hc

theorem fileBindings_agree {size : Nat} {root : Tree} (source : ByteArray)
    (hr : Parsed size root) : (effectsOf (fileBindings source root)).Pairwise Effect.Agree := by
  have hnamed : root.named.Sublist root.children := List.filter_sublist
  have hneat : ∀ t ∈ root.named, Neat [] t.Covers (bindings source .topLevel t) := by
    intro t ht
    exact bindings_neat source t .topLevel (hr.row.mem (hnamed.subset ht)).2.2.1 trivial
  rw [fileBindings, effectsOf_flatMap]
  apply List.pairwise_flatMap.mpr
  refine ⟨fun t ht => (hneat t ht).agree, ?_⟩
  apply ((Row.ordered hr.row).sublist hnamed).imp_of_mem
  intro t u ht hu hle x hx y hy he
  have hxt := ((hneat t ht).within x hx).resolve_left nofun
  have hyu := ((hneat u hu).within y hy).resolve_left nofun
  have := hxt.2
  have := hyu.1
  omega

end GoAtlas.Check
