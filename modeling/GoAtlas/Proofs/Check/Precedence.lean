import GoAtlas.Proofs.Check.Composition
import GoAtlas.Proofs.Check.Recording

namespace GoAtlas

namespace Syntax.Kind

variable {k c : Kind}

/-- The parts of a statement that binds names: that of the names, and that of what they are bound
to. -/
def bindingParts : Kind → Option (Field × Field)
  | .shortVarDeclaration | .rangeClause | .receiveStatement => some (.left, .right)
  | .varSpec | .constSpec => some (.name, .value)
  | .typeSwitchStatement => some (.switchAlias, .value)
  | _ => none

theorem bindingParts_of_isMark (h : k.isMark) : k.bindingParts = none := by
  cases k <;> first | rfl | cases h

theorem bindingParts_of_among {ks : List Kind} (h : among ks k)
    (hks : ks.all (·.bindingParts.isNone)) : k.bindingParts = none :=
  Option.isNone_iff_eq_none.mp (of_among h hks)

theorem bindingParts_of_admits {f : Field} (h : k.admits (some f) c)
    (hf : f = .typeParameters ∨ f = .receiver ∨ f = .body ∨ f = .typeArguments) :
    c.bindingParts = none := by
  rcases hf with rfl | rfl | rfl | rfl
  all_goals
    cases k <;> first
      | exact (not_admits rfl h).elim
      | (rw [eq_of_admits h rfl]; rfl)

end Syntax.Kind

namespace Check

open Syntax

variable {source : ByteArray} {root t c d m n : Tree} {given : List Ident} {role : Role}
  {l r : Field} {es es' : List Effect} {x y : Effect}

theorem isMark_of_namePart {k c : Kind} {f : Field} (hf : f ∈ nameParts k)
    (h : k.admits (some f) c) : c.isMark := by
  unfold nameParts at hf
  split at hf
  all_goals simp only [List.mem_cons, List.not_mem_nil, or_false] at hf
  case h_4 =>
    -- the commas between the names of a constant stand in the same part
    subst hf
    have hc : c = .identifier ∨ c = .token "," := by
      simpa [Kind.among] using Kind.of_admits_one h rfl
    rcases hc with rfl | rfl
    · rfl
    · rfl
  all_goals
    rcases hf with rfl | rfl <;> rw [Kind.eq_of_admits h rfl] <;> rfl

theorem Owns.isMark (hl : t.Laid {}) (h : Owns t m) : m.kind.isMark := by
  induction h with
  | self hk => exact Kind.isMark_of_isIdentifier (Kind.isIdentifier_of_isUsed hk)
  | part hc hf hfield => exact isMark_of_namePart hf (hfield ▸ (hl.row.mem hc).2.2.2)
  | through hd _ _ ih => exact ih (hl.row.mem hd).2.2.1

theorem Owns.covers (hl : t.Laid {}) (h : Owns t m) : t.Covers m.start :=
  hl.covers h.mem_walk
    (covers_start (Tree.walk_within t hl m h.mem_walk).2.2 (h.isMark hl))

def Exposed (t m : Tree) : Prop :=
  ∀ n ∈ t.walk, n ≠ t → n.kind.bindingParts ≠ none → ¬n.Covers m.start

theorem exposed_child (hl : t.Laid {}) (hc : m ∈ t.children) (hm : m.kind.isMark) :
    Exposed t m := by
  intro n hn hne hk hcovers
  have hlm := (hl.row.mem hc).2.2.1
  rcases Tree.mem_walk_iff.mp hn with rfl | ⟨c, hc', hn⟩
  · exact hne rfl
  · have hlc := (hl.row.mem hc').2.2.1
    obtain rfl := hl.row.covers_eq hc' hc (hlc.covers hn hcovers) (covers_start hlm hm)
    rw [walk_of_isMark hlc hm, List.mem_singleton] at hn
    rw [hn] at hk
    exact hk (Kind.bindingParts_of_isMark hm)

theorem Exposed.through (hl : t.Laid {}) (hd : d ∈ t.children) (hk : d.kind.bindingParts = none)
    (hm : d.Covers m.start) (h : Exposed d m) : Exposed t m := by
  intro n hn hne hkn hcovers
  rcases Tree.mem_walk_iff.mp hn with rfl | ⟨c, hc, hn⟩
  · exact hne rfl
  · have hlc := (hl.row.mem hc).2.2.1
    obtain rfl := hl.row.covers_eq hc hd (hlc.covers hn hcovers) hm
    apply h n hn _ hkn hcovers
    rintro rfl
    exact hkn hk

theorem Carries.bindingParts {k : Kind} (h : Carries d) (ha : k.admits d.field d.kind) :
    d.kind.bindingParts = none := by
  rcases h with h | h
  · exact Kind.bindingParts_of_among h rfl
  · rw [h] at ha
    exact Kind.bindingParts_of_admits ha (.inr (.inr (.inr rfl)))

theorem Owns.exposed (hl : t.Laid {}) (h : Owns t m) : Exposed t m := by
  induction h with
  | self hk =>
    intro n hn hne
    have hmark := Kind.isMark_of_isIdentifier (Kind.isIdentifier_of_isUsed hk)
    rw [walk_of_isMark hl hmark, List.mem_singleton] at hn
    exact (hne hn).elim
  | part hc hf hfield =>
    exact exposed_child hl hc (isMark_of_namePart hf (hfield ▸ (hl.row.mem hc).2.2.2))
  | through hd hcarries hown ih =>
    obtain ⟨-, -, hld, ha⟩ := hl.row.mem hd
    exact (ih hld).through hl hd (hcarries.bindingParts ha) (hown.covers hld)

theorem Ident.OwnedBy.covers {i : Ident} (h : i.OwnedBy source t given) (hl : t.Laid {}) :
    i ∈ given ∨ t.Covers i.start := by
  rcases h with h | ⟨m, hm, rfl⟩
  · exact .inl h
  · exact .inr (hm.covers hl)

theorem Ident.OwnedBy.outside {i : Ident} (h : i.OwnedBy source t given) (hl : t.Laid {})
    (hn : n ∈ t.walk) (hne : n ≠ t) (hk : n.kind.bindingParts ≠ none) :
    i ∈ given ∨ ¬n.Covers i.start := by
  rcases h with h | ⟨m, hm, rfl⟩
  · exact .inl h
  · exact .inr (hm.exposed hl n hn hne hk)

theorem Action.OwnedBy.effects {a : Action} (h : a.OwnedBy source t given) :
    ∀ x ∈ a.effects, x.name.OwnedBy source t given := by
  intro x hx
  cases a with
  | use n soft => exact List.mem_singleton.mp hx ▸ h
  | declare n kind type => exact List.mem_singleton.mp hx ▸ h
  | short n type => exact List.mem_singleton.mp hx ▸ h
  | member operand field => exact List.mem_singleton.mp hx ▸ h
  | qualified package name =>
    rcases List.mem_pair.mp hx with rfl | rfl
    · exact h.1
    · exact h.2
  | typed start stop type => cases hx

theorem effects_within (hl : t.Laid {}) (hfits : role.Fits t) :
    ∀ x ∈ effectsOf (bindings source role t), x.name ∈ role.names ∨ t.Covers x.start := by
  induction t using Tree.by_children generalizing role with
  | h t ih =>
    have hmade := bindings_made source hfits
    generalize bindings source role t = bs at hmade
    intro x hx
    induction hmade with
    | nil => cases hx
    | append _ _ h h' =>
      rw [effectsOf_append] at hx
      rcases List.mem_append.mp hx with hx | hx
      · exact h hx
      · exact h' hx
    | scope _ h =>
      rw [effectsOf_scope] at hx
      exact h hx
    | act ha =>
      rw [effectsOf_act] at hx
      exact (ha.effects x hx).covers hl
    | @child c role' hc hfits' hnames =>
      have hlc := (hl.row.mem hc).2.2.1
      rcases ih c hc hlc hfits' x hx with hx | hx
      · exact .inr (((hnames _ hx).covers hl).resolve_left nofun)
      · exact .inr (hl.covers (Tree.child_mem_walk hc c.self_mem_walk) hx)

def Effect.isBinding : Effect → Bool
  | .use _ => false
  | _ => true

def valueEffects (source : ByteArray) (n : Tree) (r : Field) : List Effect :=
  effectsOf (bindingsOf source (Role.inPart r .plain) n.children)

def InPart (n : Tree) (f : Field) (b : Nat) : Prop :=
  Over n.children (·.field = some f) b

/-- Effects of which those in the part `r` of a node come before what is bound in its part `l`, and
only come of that part. -/
structure InOrder (source : ByteArray) (n : Tree) (l r : Field) (es : List Effect) : Prop where
  values : ∀ y ∈ es, InPart n r y.start → y ∈ valueEffects source n r
  first : ∀ before x behind, es = before ++ x :: behind → x.isBinding → InPart n l x.start →
    valueEffects source n r ⊆ before

namespace InOrder

theorem nil : InOrder source n l r [] :=
  ⟨nofun, by simp⟩

theorem append (h : InOrder source n l r es) (h' : InOrder source n l r es') :
    InOrder source n l r (es ++ es') where
  values y hy := by
    rcases List.mem_append.mp hy with hy | hy
    · exact h.values y hy
    · exact h'.values y hy
  first before x behind he hx hl := by
    rcases List.append_eq_append_iff.mp he with ⟨more, rfl, hright⟩ | ⟨more, rfl, hright⟩
    · exact List.subset_append_of_subset_right es (h'.first more x behind hright hx hl)
    · rcases List.cons_eq_append_iff.mp hright with ⟨rfl, hright⟩ | ⟨rest, rfl, -⟩
      · have hsub := h'.first [] x behind hright.symm hx hl
        exact List.Subset.trans hsub (List.nil_subset _)
      · exact h.first before x rest rfl hx hl

theorem flatMap {α : Type} {ts : List α} {f : α → List Effect}
    (h : ∀ t ∈ ts, InOrder source n l r (f t)) : InOrder source n l r (ts.flatMap f) := by
  induction ts with
  | nil => exact .nil
  | cons t ts ih =>
    exact append (h t List.mem_cons_self) (ih fun u hu => h u (List.mem_cons_of_mem t hu))

/-- Effects of which none stands in the node. -/
theorem outside (hl : n.Laid {}) (h : ∀ x ∈ es, ¬n.Covers x.start) : InOrder source n l r es where
  values y hy hr := (h y hy (hr.covers hl)).elim
  first before x behind he _ hx := by
    have hmem : x ∈ es := by simp [he]
    exact (h x hmem (hx.covers hl)).elim

/-- A bound name and what comes behind it, in effects that agree: in the part `r`, that is only a
declaration that is made again. -/
theorem declared_again (h : InOrder source n l r es) (hagree : es.Pairwise Effect.Agree)
    {before rest : List Effect} (he : es = before ++ y :: rest) (hx : x ∈ before)
    (hbinds : x.isBinding) (hxl : InPart n l x.start) (hyr : InPart n r y.start) :
    y.isDeclaration := by
  obtain ⟨first, more, rfl⟩ := List.append_of_mem hx
  rw [List.append_assoc, List.cons_append] at he
  have hvalue : y ∈ valueEffects source n r := h.values y (by simp [he]) hyr
  have hfirst : y ∈ first := h.first first x _ he hbinds hxl hvalue
  rw [he] at hagree
  have hself := (List.pairwise_append.mp hagree).2.2 y hfirst y (by simp)
  obtain ⟨-, i, kind, rfl⟩ := hself rfl
  rfl

end InOrder

theorem mem_effectsOf_bindingsOf {select : Tree → Option Role} {ts : List Tree} :
    x ∈ effectsOf (bindingsOf source select ts) ↔
      ∃ c ∈ ts, ∃ role, select c = some role ∧ x ∈ effectsOf (bindings source role c) := by
  induction ts with
  | nil => simp [bindingsOf, effectsOf]
  | cons c ts ih =>
    rw [bindingsOf, effectsOf_append, List.mem_append, ih]
    cases hs : select c with
    | none => simp [hs, effectsOf]
    | some role => simp [hs]

theorem effects_inPart (hl : n.Laid {}) {f : Field} (role : Role) (hfits : ∀ c, role.Fits c)
    (hnames : role.names = []) :
    ∀ x ∈ effectsOf (bindingsOf source (Role.inPart f role) n.children), InPart n f x.start := by
  intro x hx
  obtain ⟨c, hc, role', hr, hx⟩ := mem_effectsOf_bindingsOf.mp hx
  simp only [Role.inPart, Option.ite_none_right_eq_some, Option.some.injEq] at hr
  obtain ⟨hf, rfl⟩ := hr
  have hwithin := effects_within (hl.row.mem hc).2.2.1 (hfits c) x hx
  rw [hnames] at hwithin
  exact ⟨c, hc, hf, hwithin.resolve_left List.not_mem_nil⟩

theorem InPart.eq (hl : n.Laid {}) {f g : Field} {b : Nat} (h : InPart n f b) (h' : InPart n g b) :
    f = g := by
  obtain ⟨c, hc, hf, hb⟩ := h
  obtain ⟨d, hd, hg, hb'⟩ := h'
  obtain rfl := hl.row.covers_eq hc hd hb hb'
  exact Option.some.inj (hf.symm.trans hg)

/-- Something else, then what the names are bound to, then the names. -/
theorem InOrder.ofParts (hl : n.Laid {}) (hne : l ≠ r)
    (hes : ∀ x ∈ es, ¬InPart n l x.start ∧ ¬InPart n r x.start)
    (hes' : ∀ x ∈ es', ¬InPart n r x.start) :
    InOrder source n l r (es ++ valueEffects source n r ++ es') where
  values y hy hr := by
    rcases List.mem_append.mp hy with hy | hy
    · rcases List.mem_append.mp hy with hy | hy
      · exact ((hes y hy).2 hr).elim
      · exact hy
    · exact (hes' y hy hr).elim
  first before x behind he _ hx := by
    have hfirst : x ∉ es ++ valueEffects source n r := by
      intro hmem
      rcases List.mem_append.mp hmem with hmem | hmem
      · exact (hes x hmem).1 hx
      · exact hne (hx.eq hl (effects_inPart hl .plain (fun _ => trivial) rfl x hmem))
    rcases List.append_eq_append_iff.mp he with ⟨more, rfl, -⟩ | ⟨more, hleft, hright⟩
    · intro y hy
      simp [hy]
    · rcases List.cons_eq_append_iff.mp hright with ⟨rfl, -⟩ | ⟨rest, rfl, -⟩
      · rw [List.append_nil] at hleft
        rw [← hleft]
        exact List.subset_append_right _ _
      · exact (hfirst (by simp [hleft])).elim

theorem Role.Fits.settle_cases {k : Kind} (hfits : role.Fits n) (ha : k.admits n.field n.kind)
    (hk : n.kind.bindingParts = some (l, r)) :
    role.settle n = .plain ∨ role.settle n = .topLevel ∨
      Kind.among [.varSpec, .constSpec] n.kind ∧
        (role.settle n = .valueUses ∨ ∃ kind, role.settle n = .valueSpec kind) := by
  have hfield : ∀ f, (f = .typeParameters ∨ f = .receiver ∨ f = .body ∨ f = .typeArguments) →
      n.field ≠ some f := by
    intro f hf he
    rw [he] at ha
    rw [Kind.bindingParts_of_admits ha hf] at hk
    cases hk
  obtain ⟨kind, f, s, cs⟩ := n
  cases kind <;> first | (cases hk; done) | skip
  all_goals
    cases role with
    | typeParameters => exact (hfield .typeParameters (.inl rfl) hfits).elim
    | receivers => exact (hfield .receiver (.inr (.inl rfl)) hfits).elim
    | body => exact (hfield .body (.inr (.inr (.inl rfl))) hfits).elim
    | topLevel => exact .inr (.inl rfl)
    | valueUses => first | (cases hfits; done) | exact .inr (.inr ⟨rfl, .inl rfl⟩)
    | valueSpec kind => first | (cases hfits; done) | exact .inr (.inr ⟨rfl, .inr ⟨kind, rfl⟩⟩)
    | _ => first | (cases hfits; done) | exact .inl rfl

section
variable (hl : n.Laid {})
include hl

theorem targets_inOrder (role : Role) (hfits : ∀ c, role.Fits c) (hnames : role.names = []) :
    InOrder source n .left .right
      (effectsOf (bindingsOf source (Role.inPart .right .plain) n.children
        ++ bindingsOf source (Role.inPart .left role) n.children)) := by
  have hnone : ∀ x ∈ ([] : List Effect), ¬InPart n .left x.start ∧ ¬InPart n .right x.start := nofun
  rw [effectsOf_append]
  apply InOrder.ofParts hl (by simp) hnone
  intro x hx hr
  have hx := effects_inPart hl role hfits hnames x hx
  cases hr.eq hl hx

theorem typeSwitch_inOrder (hk : n.kind = .typeSwitchStatement) :
    InOrder source n .switchAlias .value
      (effectsOf (bindingsOf source (Role.inPart .initializer .plain) n.children
        ++ bindingsOf source (Role.inPart .value .plain) n.children
        ++ bindingsOf source
          (Role.ofNamedIf Tree.isClause (.clause (Tidy.aliases source n))) n.children)) := by
  rw [effectsOf_append, effectsOf_append]
  apply InOrder.ofParts hl (by simp)
  · intro x hx
    have hx := effects_inPart hl .plain (fun _ => trivial) rfl x hx
    constructor
    · intro he
      cases he.eq hl hx
    · intro he
      cases he.eq hl hx
  · intro x hx hr
    obtain ⟨c, hc, role, hrole, hx⟩ := mem_effectsOf_bindingsOf.mp hx
    simp only [Role.ofNamedIf, Option.ite_none_right_eq_some, Option.some.injEq,
      Bool.and_eq_true] at hrole
    obtain ⟨⟨-, hclause⟩, rfl⟩ := hrole
    obtain ⟨-, -, hlc, ha⟩ := hl.row.mem hc
    have hfits : (Role.clause (Tidy.aliases source n)).Fits c := hclause
    rcases effects_within hlc hfits x hx with hx | hx
    · obtain ⟨list, hlist, -, e, he, hid, hname, hpart⟩ := Tidy.mem_aliases hl hk hx
      have hle := ((hl.row.mem hlist).2.2.1.row.mem he).2.2.1
      have hcovers : list.Covers e.start :=
        (hl.row.mem hlist).2.2.1.covers (Tree.child_mem_walk he e.self_mem_walk)
          (covers_start hle (by rw [hid]; rfl))
      have hstart : x.start = e.start := congrArg Ident.start hname
      have halias : InPart n .switchAlias x.start :=
        ⟨list, hlist, (mem_of_part? hpart).2, hstart ▸ hcovers⟩
      cases hr.eq hl halias
    · obtain ⟨v, hv, hf, hvx⟩ := hr
      obtain rfl := hl.row.covers_eq hc hv hx hvx
      rw [hk, hf] at ha
      have hexpression : c.kind.isExpression := Kind.of_admits_one ha rfl
      unfold Tree.isClause at hclause
      split at hclause
      all_goals simp_all [Kind.isExpression]

theorem specName_isIdentifier (hk : Kind.among [.varSpec, .constSpec] n.kind) (hc : c ∈ n.children)
    (hf : c.field = some .name) : c.kind = .identifier ∨ c.kind = .token "," := by
  have ha := (hl.row.mem hc).2.2.2
  rw [hf] at ha
  have hk : n.kind = .varSpec ∨ n.kind = .constSpec := by simpa [Kind.among] using hk
  rcases hk with hk | hk <;> rw [hk] at ha
  · exact .inl (Kind.eq_of_admits ha rfl)
  · simpa [Kind.among] using Kind.of_admits_one ha rfl

theorem spec_inOrder (source : ByteArray) (es : List Effect)
    (hes : ∀ x ∈ es, InPart n .name x.start) :
    InOrder source n .name .value
      (effectsOf (bindingsOf source (Role.inPart .type .plain) n.children
        ++ bindingsOf source (Role.inPart .value .plain) n.children) ++ es) := by
  rw [effectsOf_append]
  apply InOrder.ofParts hl (by simp)
  · intro x hx
    have hx := effects_inPart hl .plain (fun _ => trivial) rfl x hx
    constructor
    · intro he
      cases he.eq hl hx
    · intro he
      cases he.eq hl hx
  · intro x hx hr
    cases hr.eq hl (hes x hx)

theorem plain_inPart {f : Field}
    (hx : x ∈ effectsOf (bindingsOf source (Role.ofNamed .plain) n.children))
    (hf : InPart n f x.start) : ∃ c ∈ n.children, c.field = some f ∧ c.kind.isNamed ∧
      x ∈ effectsOf (bindings source .plain c) := by
  obtain ⟨v, hv, hf, hvx⟩ := hf
  obtain ⟨c, hc, role, hrole, hx⟩ := mem_effectsOf_bindingsOf.mp hx
  simp only [Role.ofNamed, Option.ite_none_right_eq_some, Option.some.injEq] at hrole
  obtain ⟨hnamed, rfl⟩ := hrole
  have hfits : Role.plain.Fits c := trivial
  have hcovers := (effects_within (hl.row.mem hc).2.2.1 hfits x hx).resolve_left List.not_mem_nil
  obtain rfl := hl.row.covers_eq hc hv hcovers hvx
  exact ⟨c, hc, hf, hnamed, hx⟩

theorem plainSpec_inOrder (hk : Kind.among [.varSpec, .constSpec] n.kind) :
    InOrder source n .name .value
      (effectsOf (bindingsOf source (Role.ofNamed .plain) n.children)) where
  values y hy hr := by
    obtain ⟨c, hc, hf, -, hy⟩ := plain_inPart hl hy hr
    exact mem_effectsOf_bindingsOf.mpr ⟨c, hc, .plain, by simp [Role.inPart, hf], hy⟩
  first before x behind he hx hr := by
    have hmem : x ∈ effectsOf (bindingsOf source (Role.ofNamed .plain) n.children) := by simp [he]
    obtain ⟨c, hc, hf, hnamed, hmem⟩ := plain_inPart hl hmem hr
    rcases specName_isIdentifier hl hk hc hf with hk | hk
    · obtain ⟨k, f, s, cs⟩ := c
      cases hk
      obtain rfl := List.mem_singleton.mp hmem
      cases hx
    · rw [hk] at hnamed
      cases hnamed

theorem settledSpec_inOrder (hk : Kind.among [.varSpec, .constSpec] n.kind)
    (hr : role.settle n = .valueUses ∨ ∃ kind, role.settle n = .valueSpec kind) :
    InOrder source n .name .value (effectsOf (bindings source role n)) := by
  have hmarks : ∀ c ∈ n.parts .name, c.kind.isMark := by
    intro c hc
    obtain ⟨hc, hf⟩ := List.mem_filter.mp hc
    rcases specName_isIdentifier hl hk hc (of_decide_eq_true hf) with hk | hk <;> rw [hk] <;> rfl
  have hnames := fun kind x hx =>
    ((specNames_neat source hl hmarks kind).within x hx).resolve_left List.not_mem_nil
  have hne : n.kind ≠ .varSpecList := by
    intro he
    simp [Kind.among, he] at hk
  have huses := spec_inOrder hl source [] (by simp)
  rw [List.append_nil] at huses
  have hspec := fun kind => spec_inOrder hl source _ (hnames kind)
  obtain ⟨k, f, s, cs⟩ := n
  have hne : k ≠ .varSpecList := hne
  unfold bindings
  rcases hr with hr | ⟨kind, hr⟩
  · simp only [hr]
    rw [if_neg hne]
    exact huses
  · simp only [hr]
    rw [if_neg hne, effectsOf_append]
    exact hspec kind

theorem plain_inOrder (hk : n.kind.bindingParts = some (l, r)) (hr : role.settle n = .plain) :
    InOrder source n l r (effectsOf (bindings source role n)) := by
  obtain ⟨k, f, s, cs⟩ := n
  unfold bindings
  simp only [hr]
  cases k <;> first | (cases hk; done) | cases hk
  case shortVarDeclaration => exact targets_inOrder hl (.shortTargets _) (fun _ => trivial) rfl
  case typeSwitchStatement =>
    rw [effectsOf_scope]
    exact typeSwitch_inOrder hl rfl
  case rangeClause =>
    dsimp only
    split
    · exact targets_inOrder hl .freshTargets (fun _ => trivial) rfl
    · exact targets_inOrder hl .plain (fun _ => trivial) rfl
  case receiveStatement =>
    dsimp only
    split
    · exact targets_inOrder hl .freshTargets (fun _ => trivial) rfl
    · exact targets_inOrder hl .plain (fun _ => trivial) rfl
  all_goals
    rw [effectsOf_append, effectsOf_ownType]
    exact plainSpec_inOrder hl rfl

end

theorem topLevel_inOrder (hk : n.kind.bindingParts = some (l, r)) (hr : role.settle n = .topLevel) :
    InOrder source n l r (effectsOf (bindings source role n)) := by
  obtain ⟨k, f, s, cs⟩ := n
  unfold bindings
  simp only [hr]
  cases k <;> first | (cases hk; done) | exact .nil

theorem statement_inOrder {k : Kind} (hl : n.Laid {}) (ha : k.admits n.field n.kind)
    (hfits : role.Fits n) (hk : n.kind.bindingParts = some (l, r)) :
    InOrder source n l r (effectsOf (bindings source role n)) := by
  rcases hfits.settle_cases ha hk with hr | hr | ⟨hspec, hr⟩
  · exact plain_inOrder hl hk hr
  · exact topLevel_inOrder hk hr
  · obtain ⟨rfl, rfl⟩ : .name = l ∧ .value = r := by
      have hkind : n.kind = .varSpec ∨ n.kind = .constSpec := by simpa [Kind.among] using hspec
      rcases hkind with he | he <;> rw [he] at hk <;> cases hk <;> exact ⟨rfl, rfl⟩
    exact settledSpec_inOrder hl hspec hr

theorem bindings_inOrder {k : Kind} (hn : n ∈ t.walk) (hk : n.kind.bindingParts = some (l, r))
    (hl : t.Laid {}) (ha : k.admits t.field t.kind) (hfits : role.Fits t)
    (hgiven : n ≠ t → ∀ i ∈ role.names, ¬n.Covers i.start) :
    InOrder source n l r (effectsOf (bindings source role t)) := by
  induction t using Tree.by_children generalizing role k with
  | h t ih =>
    by_cases hne : n = t
    · subst hne
      exact statement_inOrder hl ha hfits hk
    have hln := (Tree.walk_within t hl n hn).2.2
    have hbinds : n.kind.bindingParts ≠ none := by simp [hk]
    have hmade := bindings_made source hfits
    generalize bindings source role t = bs at hmade
    induction hmade with
    | nil => exact .nil
    | append _ _ h h' =>
      rw [effectsOf_append]
      exact h.append h'
    | scope _ h =>
      rw [effectsOf_scope]
      exact h
    | act hact =>
      rw [effectsOf_act]
      apply InOrder.outside hln
      intro x hx
      rcases (hact.effects x hx).outside hl hn hne hbinds with hx | hx
      · exact hgiven hne _ hx
      · exact hx
    | @child c role' hc hfits' hnames =>
      obtain ⟨-, -, hlc, hac⟩ := hl.row.mem hc
      have hapart : ∀ i ∈ role'.names, ¬n.Covers i.start := by
        intro i hi
        exact ((hnames i hi).outside hl hn hne hbinds).resolve_left nofun
      by_cases hnc : n ∈ c.walk
      · exact ih c hc hnc hlc hac hfits' fun _ => hapart
      · apply InOrder.outside hln
        intro x hx hcovers
        rcases effects_within hlc hfits' x hx with hx | hx
        · exact hapart _ hx hcovers
        · -- the statement lies in another child
          obtain ⟨d, hd, hnd⟩ := (Tree.mem_walk_iff.mp hn).resolve_left hne
          have hdx := (hl.row.mem hd).2.2.1.covers hnd hcovers
          exact hnc (hl.row.covers_eq hc hd hx hdx ▸ hnd)

theorem fileBindings_inOrder {size : Nat} (source : ByteArray) (hr : Parsed size root)
    (hn : n ∈ root.walk) (hk : n.kind.bindingParts = some (l, r)) :
    InOrder source n l r (effectsOf (fileBindings source root)) := by
  have hne : n ≠ root := by
    rintro rfl
    rw [hr.kind] at hk
    cases hk
  obtain ⟨d, hd, hnd⟩ := (Tree.mem_walk_iff.mp hn).resolve_left hne
  have hld := (hr.row.mem hd).2.2.1
  rw [fileBindings, effectsOf_flatMap]
  apply InOrder.flatMap
  intro t ht
  obtain ⟨-, -, hlt, ha⟩ := hr.row.mem (TopName.mem_of_named ht)
  have hfits : Role.topLevel.Fits t := trivial
  by_cases hnt : n ∈ t.walk
  · exact bindings_inOrder hnt hk hlt ha hfits fun _ _ hi => (List.not_mem_nil hi).elim
  · apply InOrder.outside (Tree.walk_within d hld n hnd).2.2
    intro x hx hcovers
    have hxt := (effects_within hlt hfits x hx).resolve_left List.not_mem_nil
    exact hnt (hr.row.covers_eq (TopName.mem_of_named ht) hd hxt (hld.covers hnd hcovers) ▸ hnd)

end Check

end GoAtlas
