import GoAtlas.Proofs.Check.Denotation
import GoAtlas.Proofs.Check.Neatness

namespace GoAtlas.Check

open Syntax Reference

section

variable {d d' d'' : Dict Spot Object} {o : Object} {spot : Spot}

/-- A table has an object of the same name and kind at a place. -/
def Defines (d : Dict Spot Object) (spot : Spot) (o : Object) : Prop :=
  ∃ o', d.lookup spot = some o' ∧ o'.name = o.name ∧ o'.kind = o.kind

/-- A table has all that another has. -/
def Extends (d d' : Dict Spot Object) : Prop :=
  ∀ spot o, Defines d spot o → Defines d' spot o

theorem Extends.refl (d : Dict Spot Object) : Extends d d :=
  fun _ _ h => h

theorem Extends.trans (h : Extends d d') (h' : Extends d' d'') : Extends d d'' :=
  fun spot o ho => h' spot o (h spot o ho)

theorem defines_put (d : Dict Spot Object) (spot : Spot) (o : Object) :
    Defines (d.put spot o) spot o :=
  ⟨o, by simp [Dict.lookup_put], rfl, rfl⟩

theorem extends_put (h : ∀ o', d.lookup spot = some o' → o.name = o'.name ∧ o.kind = o'.kind) :
    Extends d (d.put spot o) := by
  rintro place o₀ ⟨o', ho', hname, hkind⟩
  by_cases hp : place = spot
  · subst hp
    obtain ⟨hname', hkind'⟩ := h o' ho'
    exact ⟨o, by simp [Dict.lookup_put], hname'.trans hname, hkind'.trans hkind⟩
  · exact ⟨o', by simp [Dict.lookup_put, hp, ho'], hname, hkind⟩

theorem extends_adjust {g : Object → Object} (hname : ∀ o, (g o).name = o.name)
    (hkind : ∀ o, (g o).kind = o.kind) (spot : Spot) : Extends d (d.adjust spot g) := by
  rintro place o₀ ⟨o', ho', hn, hk⟩
  by_cases hp : place = spot
  · subst hp
    exact ⟨g o', by simp [Dict.lookup_adjust, ho'], (hname o').trans hn, (hkind o').trans hk⟩
  · exact ⟨o', by simp [Dict.lookup_adjust, hp, ho'], hn, hk⟩

end

-- `abroad` holds of the objects that other packages declare
variable {own : List SourceFile} {package : String} {abroad : Object → Prop}
  {defs defs' uses : Dict Spot Object} {f : SourceFile} {o : Object} {n : Ident}

/-- An object that is declared, if anywhere, in another package or where this one defines it. -/
def Object.Known (package : String) (abroad : Object → Prop) (defs : Dict Spot Object)
    (o : Object) : Prop :=
  ∀ spot, o.spot = some spot → abroad o ∨ o.package = package ∧ Defines defs spot o

theorem Object.known_of_spot (h : o.spot = none) : o.Known package abroad defs := by
  simp [Known, h]

theorem Object.Known.mono (h : o.Known package abroad defs) (he : Extends defs defs') :
    o.Known package abroad defs' := by
  intro spot hspot
  rcases h spot hspot with h | ⟨hp, hd⟩
  · exact .inl h
  · exact .inr ⟨hp, he spot o hd⟩

def Effect.Stands (f : SourceFile) : Effect → Prop
  | .use n => n.UsedIn f
  | .declare n _ => n.Within f
  | .either n =>
    n.Within f ∧ Targeted f.content (sitesOf (some f.tree) none f.tree.children) n

/-- What a file can record at one of its places. -/
structure Deed where
  file : SourceFile
  effect : Effect

namespace Deed

def spot (x : Deed) : Spot :=
  ⟨x.file.path, x.effect.start⟩

/-- Deeds at the same place are the same declaration. -/
def Agree (x y : Deed) : Prop :=
  x.spot = y.spot → x.effect = y.effect ∧ ∃ n kind, x.effect = .declare n kind

end Deed

def Effect.isDeclaration : Effect → Bool
  | .declare .. => true
  | _ => false

/-- An identifier of some file spells a name at a place. -/
def Occurs (own : List SourceFile) (spot : Spot) (name : String) : Prop :=
  ∃ f ∈ own, f.path = spot.file ∧ ∃ t ∈ Tree.walkAll f.tree.children, t.kind.isIdentifier ∧
    t.start = spot.offset ∧ f.text t = name

def Introduced (own : List SourceFile) (spot : Spot) : Prop :=
  ∃ f ∈ own, f.path = spot.file ∧
    ((∃ t, TopName f.tree t ∧ t.start = spot.offset) ∨
      ∃ n : Ident, n.Within f ∧ n.start = spot.offset)

theorem Effect.Stands.occurs {x : Effect} (h : x.Stands f) (hx : x.isDeclaration = false)
    (hf : f ∈ own) : Occurs own ⟨f.path, x.start⟩ x.name.name := by
  cases x with
  | use n =>
    obtain ⟨s, hs, hi, -, rfl⟩ := h
    exact ⟨f, hf, rfl, s.node, mem_walkAll_of_mem_sitesOf hs, hi, rfl, rfl⟩
  | declare n kind => cases hx
  | either n =>
    obtain ⟨-, s, hs, hk, -, rfl, -⟩ := h
    exact ⟨f, hf, rfl, s.node, mem_walkAll_of_mem_sitesOf hs, by rw [hk]; rfl, rfl, rfl⟩

mutual
theorem Binding.Each.effects {P : Action → Prop} {Q : Effect → Prop}
    (hPQ : ∀ a, P a → ∀ x ∈ a.effects, Q x) : (b : Binding) → b.Each P → ∀ x ∈ b.effects, Q x
  | .act a, h => hPQ a h
  | .scope body, h => EachOf.effects hPQ body h

theorem EachOf.effects {P : Action → Prop} {Q : Effect → Prop}
    (hPQ : ∀ a, P a → ∀ x ∈ a.effects, Q x) :
    (bs : List Binding) → EachOf P bs → ∀ x ∈ effectsOf bs, Q x
  | [], _ => nofun
  | b :: bs, h => by
    intro x hx
    rcases List.mem_append.mp hx with hx | hx
    · exact Binding.Each.effects hPQ b h.1 x hx
    · exact EachOf.effects hPQ bs h.2 x hx
end

theorem Action.Inside.stands {a : Action} (h : a.Inside f.content f.tree) :
    ∀ x ∈ a.effects, x.Stands f := by
  obtain ⟨q, d, c, hd, hc, hfield, ha⟩ := h
  have hsites : ∀ {s}, s ∈ sites (some d) (some q) c →
      s ∈ sitesOf (some f.tree) none f.tree.children := hd.mem_sitesOf hc
  have hused : ∀ {n}, Used f.content (sites (some d) (some q) c) n → n.UsedIn f := by
    rintro n ⟨s, hs, hn⟩
    exact ⟨s, hsites hs, hn⟩
  intro x hx
  cases a with
  | use n soft =>
    obtain rfl := List.mem_singleton.mp hx
    exact hused ha
  | declare n kind type =>
    obtain rfl := List.mem_singleton.mp hx
    exact ⟨q, d, c, hd, hc, hfield, ha.bound⟩
  | short n type =>
    obtain rfl := List.mem_singleton.mp hx
    obtain ⟨s, hs, hn⟩ := id ha
    exact ⟨⟨q, d, c, hd, hc, hfield, ha.bound⟩, s, hsites hs, hn⟩
  | member operand field =>
    obtain rfl := List.mem_singleton.mp hx
    exact hused ha.used
  | qualified package name =>
    rcases List.mem_pair.mp hx with rfl | rfl
    · exact hused ha.1.used
    · exact hused ha.2.used
  | typed start stop type => cases hx

/-- What has been recorded for a package while some deeds are still to come: their places are free,
but for declarations that are made again. -/
structure Recorded (own : List SourceFile) (package : String) (abroad : Object → Prop)
    (pending : List Deed) (defs uses : Dict Spot Object) : Prop where
  agree : pending.Pairwise Deed.Agree
  stands : ∀ x ∈ pending, x.file ∈ own ∧ x.effect.Stands x.file
  unused : ∀ x ∈ pending, uses.lookup x.spot = none
  fresh : ∀ x ∈ pending, ∀ o, defs.lookup x.spot = some o →
    ∃ n, x.effect = .declare n o.kind ∧ n.name = o.name
  defined : ∀ spot o, defs.lookup spot = some o → o.spot = some spot ∧ Introduced own spot
  used : ∀ spot o, uses.lookup spot = some o →
    defs.lookup spot = none ∧ Occurs own spot o.name ∧ o.Known package abroad defs

namespace Recorded

variable {x : Deed} {pending : List Deed}

theorem tail (h : Recorded own package abroad (x :: pending) defs uses) :
    Recorded own package abroad pending defs uses where
  agree := (List.pairwise_cons.mp h.agree).2
  stands y hy := h.stands y (List.mem_cons_of_mem x hy)
  unused y hy := h.unused y (List.mem_cons_of_mem x hy)
  fresh y hy := h.fresh y (List.mem_cons_of_mem x hy)
  defined := h.defined
  used := h.used

/-- Nothing is declared where a name is about to be used. -/
theorem undefined (h : Recorded own package abroad (x :: pending) defs uses)
    (hx : x.effect.isDeclaration = false) : defs.lookup x.spot = none := by
  cases hd : defs.lookup x.spot with
  | none => rfl
  | some o =>
    obtain ⟨n, hn, -⟩ := h.fresh x List.mem_cons_self o hd
    rw [hn] at hx
    cases hx

/-- Only declarations come again. -/
theorem apart (h : Recorded own package abroad (x :: pending) defs uses)
    (hx : x.effect.isDeclaration = false) : ∀ y ∈ pending, y.spot ≠ x.spot := by
  intro y hy he
  obtain ⟨-, n, kind, hn⟩ := (List.pairwise_cons.mp h.agree).1 y hy he.symm
  rw [hn] at hx
  cases hx

theorem use (h : Recorded own package abroad (x :: pending) defs uses)
    (hx : x.effect.isDeclaration = false) (hname : o.name = x.effect.name.name)
    (ho : o.Known package abroad defs) :
    Recorded own package abroad pending defs (uses.put x.spot o) where
  agree := h.tail.agree
  stands := h.tail.stands
  unused y hy := by
    simp only [Dict.lookup_put, beq_eq_false_iff_ne.mpr (h.apart hx y hy)]
    exact h.tail.unused y hy
  fresh := h.tail.fresh
  defined := h.defined
  used spot o' ho' := by
    obtain ⟨rfl, rfl⟩ | ho' := Dict.cases_of_lookup_put ho'
    · obtain ⟨hf, hstands⟩ := h.stands x List.mem_cons_self
      exact ⟨h.undefined hx, hname ▸ hstands.occurs hx hf, ho⟩
    · exact h.used spot o' ho'

section

variable {kind : ObjectKind}
  (h : Recorded own package abroad (x :: pending) defs uses)
  (hx : x.effect = .declare n kind ∨ x.effect = .either n ∧ kind = .var)
include h hx

theorem redeclared {o' : Object} (ho' : defs.lookup x.spot = some o') :
    n.name = o'.name ∧ kind = o'.kind := by
  obtain ⟨n', he, hn⟩ := h.fresh x List.mem_cons_self o' ho'
  rcases hx with hx | ⟨hx, -⟩
  · obtain ⟨rfl, rfl⟩ := Effect.declare.inj (hx.symm.trans he)
    exact ⟨hn, rfl⟩
  · cases hx.symm.trans he

theorem declare_extends (hname : o.name = n.name) (hkind : o.kind = kind) :
    Extends defs (defs.put x.spot o) := by
  apply extends_put
  intro o' ho'
  rw [hname, hkind]
  exact h.redeclared hx ho'

theorem introduced : Introduced own x.spot := by
  obtain ⟨hf, hstands⟩ := h.stands x List.mem_cons_self
  have hspot : x.spot = ⟨x.file.path, n.start⟩ := by
    rcases hx with hx | ⟨hx, -⟩ <;> simp only [Deed.spot, Effect.start, hx, Effect.name]
  have hwithin : n.Within x.file := by
    rcases hx with hx | ⟨hx, -⟩ <;> rw [hx] at hstands
    · exact hstands
    · exact hstands.1
  rw [hspot]
  exact ⟨x.file, hf, rfl, .inr ⟨n, hwithin, rfl⟩⟩

theorem declare (hname : o.name = n.name) (hkind : o.kind = kind) (hspot : o.spot = some x.spot) :
    Recorded own package abroad pending (defs.put x.spot o) uses where
  agree := h.tail.agree
  stands := h.tail.stands
  unused := h.tail.unused
  fresh y hy o' ho' := by
    obtain ⟨he, rfl⟩ | ho' := Dict.cases_of_lookup_put ho'
    · obtain ⟨heq, n', kind', hn'⟩ := (List.pairwise_cons.mp h.agree).1 y hy he.symm
      rcases hx with hx | ⟨hx, -⟩
      · exact ⟨n, by rw [← heq, hx, hkind], hname.symm⟩
      · cases hx.symm.trans hn'
    · exact h.tail.fresh y hy o' ho'
  defined spot o' ho' := by
    obtain ⟨rfl, rfl⟩ | ho' := Dict.cases_of_lookup_put ho'
    · exact ⟨hspot, h.introduced hx⟩
    · exact h.defined spot o' ho'
  used spot o' ho' := by
    obtain ⟨hnone, hoccurs, hknown⟩ := h.used spot o' ho'
    refine ⟨?_, hoccurs, hknown.mono (h.declare_extends hx hname hkind)⟩
    have hne : spot ≠ x.spot := by
      intro he
      have := h.unused x List.mem_cons_self
      rw [← he, ho'] at this
      cases this
    rw [Dict.lookup_put, if_neg (by simpa using hne), hnone]

end

end Recorded

theorem Scope.bind_binds {P : Object → Prop} {s : Scope} (h : ∀ fr ∈ s, Frame.Binds P fr)
    (ho : P o) : ∀ fr ∈ s.bind o, Frame.Binds P fr := by
  cases s with
  | nil =>
    intro fr hfr e he
    obtain rfl := List.mem_singleton.mp hfr
    obtain rfl := List.mem_singleton.mp he
    exact ⟨rfl, ho⟩
  | cons first s =>
    intro fr hfr
    rcases List.mem_cons.mp hfr with rfl | hfr
    · exact (h first List.mem_cons_self).put ho
    · exact h fr (List.mem_cons_of_mem first hfr)

structure Surroundings.Sees (package : String) (abroad : Object → Prop) (f : SourceFile)
    (e : Surroundings) : Prop where
  file : e.file = f.path
  package : e.package = package
  imports : ∀ i ∈ e.imports, Frame.Binds abroad i.handle.names
  dots : ∀ h ∈ e.dots, Frame.Binds abroad h.names

theorem Handle.member_known {h : Handle} {name : String} (hh : Frame.Binds abroad h.names)
    (hm : h.member? name = some o) : o.name = name ∧ o.Known package abroad defs :=
  Handle.member_binds (fun _ => Object.known_of_spot) (hh.imp fun _ ho _ _ => .inl ho) hm

namespace State

variable {e : Surroundings} {s t u : State} {pending rest : List Deed}

/-- Records and scopes as they are found while deeds are still to come. -/
structure Records (own : List SourceFile) (package : String) (abroad : Object → Prop)
    (pending : List Deed) (s : State) : Prop where
  info : Recorded own package abroad pending s.info.defs s.info.uses
  scope : ∀ fr ∈ s.scope, Frame.Binds (Object.Known package abroad s.info.defs) fr

structure Advances (own : List SourceFile) (package : String) (abroad : Object → Prop)
    (rest : List Deed) (s t : State) : Prop where
  records : t.Records own package abroad rest
  grown : Extends s.info.defs t.info.defs

theorem Advances.trans {rest' : List Deed} (h : Advances own package abroad rest' s t)
    (h' : Advances own package abroad rest t u) : Advances own package abroad rest s u :=
  ⟨h'.records, h.grown.trans h'.grown⟩

theorem Records.stay (h : s.Records own package abroad rest) :
    Advances own package abroad rest s s :=
  ⟨h, .refl _⟩

theorem Records.drop {x : Deed} (h : s.Records own package abroad (x :: rest)) :
    Advances own package abroad rest s s :=
  ⟨⟨h.info.tail, h.scope⟩, .refl _⟩

theorem Advances.fail (h : Advances own package abroad rest s t) (n : Ident) (message : String) :
    Advances own package abroad rest s (t.fail e n message) :=
  ⟨⟨h.records.info, h.records.scope⟩, h.grown⟩

/-- What a name denotes is bound to it, in a scope or as a member. -/
theorem denotes?_binds {P : Object → Prop} {name : String} (hP : ∀ o, o.spot = none → P o)
    (hscope : ∀ fr ∈ s.scope, Frame.Binds P fr) (hdots : ∀ h ∈ e.dots, Frame.Binds P h.names)
    (hd : s.denotes? e name = some o) : o.name = name ∧ P o := by
  unfold State.denotes? at hd
  split at hd
  · next o' hl =>
    obtain rfl := Option.some.inj hd
    exact Scope.lookup_binds hscope hl
  · obtain ⟨g, hg, hm⟩ := List.exists_of_findSome?_eq_some hd
    exact Handle.member_binds hP (hdots g hg) hm

theorem recordUse_defs (e : Surroundings) (n : Ident) (o : Object) (s : State) :
    (s.recordUse e n o).info.defs = s.info.defs := by
  unfold recordUse
  cases o.type with
  | none => rfl
  | some type => dsimp only; split <;> rfl

section

variable (he : e.Sees package abroad f) {x : Effect}
include he

theorem Records.recordUse (h : s.Records own package abroad (⟨f, x⟩ :: rest))
    (hx : x.isDeclaration = false) (ho : o.name = x.name.name ∧ o.Known package abroad s.info.defs) :
    Advances own package abroad rest s (s.recordUse e x.name o) := by
  have hspot : (⟨e.file, x.name.start⟩ : Spot) = Deed.spot ⟨f, x⟩ := by
    rw [he.file]
    rfl
  have hdefs := recordUse_defs e x.name o s
  refine ⟨⟨?_, ?_⟩, ?_⟩
  · rw [hdefs, recordUse_uses, hspot]
    exact h.info.use hx ho.1 ho.2
  · rw [hdefs, scope_recordUse]
    exact h.scope
  · rw [hdefs]
    exact .refl _

theorem Records.denotes? (h : s.Records own package abroad pending) {name : String}
    (hd : s.denotes? e name = some o) : o.name = name ∧ o.Known package abroad s.info.defs := by
  have hdots : ∀ g ∈ e.dots, Frame.Binds (Object.Known package abroad s.info.defs) g.names :=
    fun g hg => (he.dots g hg).imp fun _ ho _ _ => .inl ho
  exact denotes?_binds (fun _ => Object.known_of_spot) h.scope hdots hd

theorem Records.use (h : s.Records own package abroad (⟨f, x⟩ :: rest))
    (hx : x.isDeclaration = false) (soft : Bool) :
    Advances own package abroad rest s (s.use e x.name soft) := by
  unfold State.use
  split
  · exact h.drop
  split
  · next o ho => exact h.recordUse he hx (h.denotes? he ho)
  split
  · exact h.drop
  · exact h.drop.fail _ _

theorem Records.useMember (h : s.Records own package abroad (⟨f, x⟩ :: rest))
    (hx : x.isDeclaration = false) (package' : Object) :
    Advances own package abroad rest s (s.useMember e package' x.name) := by
  unfold State.useMember
  cases hi : e.imports.find? (·.name == package'.name) with
  | none => exact h.drop
  | some i =>
    have himport := he.imports i (List.mem_of_find?_eq_some hi)
    dsimp only
    cases hm : i.handle.member? x.name.name with
    | some o => exact h.recordUse he hx (Handle.member_known himport hm)
    | none =>
      dsimp only
      split
      · exact h.drop.fail _ _
      · exact h.drop

theorem Records.declare {kind : ObjectKind} (h : s.Records own package abroad (⟨f, x⟩ :: rest))
    (hx : x = .declare n kind ∨ x = .either n ∧ kind = .var) (type : Option String) :
    Advances own package abroad rest s (s.declare e n kind type) := by
  unfold State.declare
  split
  · exact h.drop
  · have hspot : (⟨e.file, n.start⟩ : Spot) = Deed.spot ⟨f, x⟩ := by
      rcases hx with rfl | ⟨rfl, -⟩ <;> rw [he.file] <;> rfl
    let o : Object := ⟨n.name, kind, e.package, some (Deed.spot ⟨f, x⟩), type, []⟩
    have hgrown : Extends s.info.defs (s.info.defs.put (Deed.spot ⟨f, x⟩) o) :=
      h.info.declare_extends hx rfl rfl
    have ho : o.Known package abroad (s.info.defs.put (Deed.spot ⟨f, x⟩) o) := by
      intro spot hs
      obtain rfl := Option.some.inj hs
      exact .inr ⟨he.package, defines_put _ _ _⟩
    simp only [hspot]
    refine ⟨⟨h.info.declare hx rfl rfl rfl, ?_⟩, hgrown⟩
    apply Scope.bind_binds _ ho
    intro fr hfr
    exact (h.scope fr hfr).imp fun _ ho => ho.mono hgrown

theorem Records.act {a : Action}
    (h : s.Records own package abroad (a.effects.map (Deed.mk f) ++ rest)) :
    Advances own package abroad rest s (s.act e a) := by
  cases a with
  | use n soft => exact h.use he (x := .use n) rfl soft
  | declare n kind type => exact h.declare he (.inl rfl) type
  | short n type =>
    simp only [State.act]
    split
    · exact h.use he (x := .either n) rfl false
    · exact h.declare he (.inr ⟨rfl, rfl⟩) type
  | member operand field =>
    simp only [State.act]
    split
    · split
      · exact h.useMember he (x := .use field) rfl _
      · exact h.drop
    · exact h.drop
  | qualified package' name =>
    simp only [State.act]
    split
    · next o ho =>
      split
      · have hfirst := h.recordUse he (x := .use package') rfl (Scope.lookup_binds h.scope ho)
        exact hfirst.trans (hfirst.records.useMember he (x := .use name) rfl o)
      · exact (h.drop.trans h.drop.records.drop).fail _ _
    · exact (h.drop.trans h.drop.records.drop).fail _ _
  | typed start stop type => exact ⟨⟨h.info, h.scope⟩, .refl _⟩

end

/-- A scope that has been left is as it was, while more may have been declared. -/
theorem Records.leave {t : State} (h : s.Records own package abroad pending)
    (ht : Advances own package abroad rest s.enter t) :
    Advances own package abroad rest s { t with scope := s.scope } := by
  refine ⟨⟨ht.records.info, ?_⟩, ht.grown⟩
  intro fr hfr
  exact (h.scope fr hfr).imp fun _ ho => ho.mono ht.grown

mutual
theorem records_follow (he : e.Sees package abroad f) : (b : Binding) → ∀ (s : State) (rest),
    s.Records own package abroad (b.effects.map (Deed.mk f) ++ rest) →
      Advances own package abroad rest s (s.follow e b)
  | .act a, _, _, h => h.act he
  | .scope body, s, rest, h => by
    have hin : s.enter.Records own package abroad
        ((effectsOf body).map (Deed.mk f) ++ rest) := by
      refine ⟨h.info, List.forall_mem_cons.mpr ⟨?_, h.scope⟩⟩
      exact nofun
    rw [follow_scope]
    exact h.leave (records_followAll he body _ rest hin)

theorem records_followAll (he : e.Sees package abroad f) : (bs : List Binding) →
    ∀ (s : State) (rest), s.Records own package abroad ((effectsOf bs).map (Deed.mk f) ++ rest) →
      Advances own package abroad rest s (s.followAll e bs)
  | [], _, _, h => h.stay
  | b :: bs, s, rest, h => by
    rw [effectsOf, List.map_append, List.append_assoc] at h
    have hfirst := records_follow he b s _ h
    exact hfirst.trans (records_followAll he bs _ rest hfirst.records)
end

end State

end GoAtlas.Check
