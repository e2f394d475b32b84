import GoAtlas.Proofs.Check.Roles

namespace GoAtlas.Check

open Syntax

/-- What an action can record at an identifier. -/
inductive Effect where
  | use (n : Ident)
  | declare (n : Ident) (kind : ObjectKind)
  /-- The target of a short declaration, which is used if the scope binds it already. -/
  | either (n : Ident)

namespace Effect

def name : Effect → Ident
  | .use n | .declare n _ | .either n => n

def start (x : Effect) : Nat := x.name.start

/-- Effects at the same byte are the same declaration. -/
def Agree (x y : Effect) : Prop :=
  x.start = y.start → x = y ∧ ∃ n kind, x = .declare n kind

end Effect

def Action.effects : Action → List Effect
  | .use n _ => [.use n]
  | .declare n kind _ => [.declare n kind]
  | .short n _ => [.either n]
  | .member _ field => [.use field]
  | .qualified package name => [.use package, .use name]
  | .typed .. => []

mutual
def Binding.effects : Binding → List Effect
  | .act a => a.effects
  | .scope body => effectsOf body

def effectsOf : List Binding → List Effect
  | [] => []
  | b :: bs => b.effects ++ effectsOf bs
end

variable {bs bs' : List Binding}

theorem effectsOf_append (bs bs' : List Binding) :
    effectsOf (bs ++ bs') = effectsOf bs ++ effectsOf bs' := by
  induction bs with
  | nil => rfl
  | cons b bs ih => rw [List.cons_append, effectsOf, effectsOf, ih, List.append_assoc]

theorem effectsOf_act (a : Action) : effectsOf [.act a] = a.effects :=
  List.append_nil _

theorem effectsOf_scope (bs : List Binding) : effectsOf [.scope bs] = effectsOf bs :=
  List.append_nil _

theorem effectsOf_map {α : Type} (l : List α) (f : α → Action) :
    effectsOf (l.map fun x => .act (f x)) = l.flatMap fun x => (f x).effects := by
  induction l with
  | nil => rfl
  | cons x l ih => rw [List.map_cons, effectsOf, ih, List.flatMap_cons]; rfl

theorem effectsOf_flatMap {α : Type} (l : List α) (f : α → List Binding) :
    effectsOf (l.flatMap f) = l.flatMap fun x => effectsOf (f x) := by
  induction l with
  | nil => rfl
  | cons x l ih => rw [List.flatMap_cons, effectsOf_append, ih, List.flatMap_cons]

theorem effectsOf_ownType (source : ByteArray) (t : Tree) : effectsOf (ownType source t) = [] := by
  unfold ownType
  split
  · rfl
  · split <;> rfl

variable {D : List Effect} {R R' : Nat → Prop}

/-- Declarations that bindings in a region may have in common, none of them in the region. -/
structure Shared (D : List Effect) (R : Nat → Prop) : Prop where
  agree : ∀ x ∈ D, ∀ y ∈ D, x.Agree y
  outside : ∀ x ∈ D, ¬R x.start

theorem shared_nil (R : Nat → Prop) : Shared [] R :=
  ⟨nofun, nofun⟩

theorem Shared.mono (h : Shared D R) (hR : ∀ n, R' n → R n) : Shared D R' :=
  ⟨h.agree, fun x hx hr => h.outside x hx (hR _ hr)⟩

/-- Bindings whose effects agree and are those in common or stand in a region. -/
structure Neat (D : List Effect) (R : Nat → Prop) (bs : List Binding) : Prop where
  within : ∀ x ∈ effectsOf bs, x ∈ D ∨ R x.start
  agree : (effectsOf bs).Pairwise Effect.Agree

namespace Neat

theorem nil (D : List Effect) (R : Nat → Prop) : Neat D R [] :=
  ⟨nofun, .nil⟩

theorem mono (h : Neat D R bs) (hR : ∀ n, R n → R' n) : Neat D R' bs :=
  ⟨fun x hx => (h.within x hx).imp_right (hR _), h.agree⟩

theorem scope (h : Neat D R bs) : Neat D R [.scope bs] := by
  constructor
  · rw [effectsOf_scope]
    exact h.within
  · rw [effectsOf_scope]
    exact h.agree

theorem ofEffects (h : Neat D R bs) (he : effectsOf bs' = effectsOf bs) : Neat D R bs' := by
  constructor
  · rw [he]
    exact h.within
  · rw [he]
    exact h.agree

theorem append (h : Neat D R bs) (h' : Neat D R' bs') (hD : Shared D fun n => R n ∨ R' n)
    (hapart : ∀ n, R n → R' n → False) : Neat D (fun n => R n ∨ R' n) (bs ++ bs') := by
  constructor
  · intro x hx
    rw [effectsOf_append] at hx
    rcases List.mem_append.mp hx with hx | hx
    · exact (h.within x hx).imp_right .inl
    · exact (h'.within x hx).imp_right .inr
  · rw [effectsOf_append]
    apply List.pairwise_append.mpr
    refine ⟨h.agree, h'.agree, ?_⟩
    intro x hx y hy he
    rcases h.within x hx with hxD | hxR
    · rcases h'.within y hy with hyD | hyR
      · exact hD.agree x hxD y hyD he
      · exact (hD.outside x hxD (.inr (he ▸ hyR))).elim
    · rcases h'.within y hy with hyD | hyR
      · exact (hD.outside y hyD (.inl (he ▸ hxR))).elim
      · exact (hapart _ hxR (he ▸ hyR)).elim

theorem widen (h : Neat [] R bs) (D : List Effect) : Neat D R bs :=
  ⟨fun x hx => (h.within x hx).imp_left nofun, h.agree⟩

/-- The declarations in common may stand in a wider region. -/
theorem close (h : Neat D R bs) (hD : ∀ x ∈ D, R' x.start) (hR : ∀ n, R n → R' n) :
    Neat [] R' bs := by
  refine ⟨?_, h.agree⟩
  intro x hx
  rcases h.within x hx with hx | hx
  · exact .inr (hD x hx)
  · exact .inr (hR _ hx)

theorem ofUse {bs : List Binding} {n : Ident} (hn : R n.start) (he : effectsOf bs = [.use n]) :
    Neat [] R bs := by
  constructor
  · intro x hx
    rw [he, List.mem_singleton] at hx
    exact .inr (hx ▸ hn)
  · rw [he]
    exact List.pairwise_singleton _ _

end Neat

variable {source : ByteArray} {t c : Tree} {ts : List Tree} {k : Kind} {a b : Nat}
  {P Q : Tree → Prop} {select : Tree → Option Role} {role : Role}

/-- A byte lies in one of the nodes that satisfy `P`. -/
def Over (ts : List Tree) (P : Tree → Prop) (n : Nat) : Prop :=
  ∃ c ∈ ts, P c ∧ c.Covers n

theorem Over.imp {n : Nat} (h : Over ts P n) (hPQ : ∀ c, P c → Q c) : Over ts Q n := by
  obtain ⟨d, hd, hP, hn⟩ := h
  exact ⟨d, hd, hPQ d hP, hn⟩

theorem Over.covers {n : Nat} (hl : t.Laid {}) (h : Over t.children P n) : t.Covers n := by
  obtain ⟨c, hc, _, hn⟩ := h
  exact hl.covers (Tree.child_mem_walk hc c.self_mem_walk) hn

/-- Children of a row record what they do in parts `R` of their own. -/
theorem bindingsOf_neat {R : Tree → Nat → Prop} (hr : Row {} k a b ts)
    (hR : ∀ c ∈ ts, ∀ n, R c n → c.Covers n) (hD : Shared D fun n => ∃ c ∈ ts, R c n)
    (h : ∀ c ∈ ts, ∀ role, select c = some role → Neat D (R c) (bindings source role c)) :
    Neat D (fun n => ∃ c ∈ ts, R c n) (bindingsOf source select ts) := by
  induction ts generalizing a with
  | nil => exact .nil D _
  | cons c ts ih =>
    have hsplit : ∀ n, R c n ∨ (∃ d ∈ ts, R d n) → ∃ d ∈ c :: ts, R d n := by
      rintro n (hn | ⟨d, hd, hn⟩)
      · exact ⟨c, List.mem_cons_self, hn⟩
      · exact ⟨d, List.mem_cons_of_mem c hd, hn⟩
    have hrest := ih hr.2.2.2 (fun d hd => hR d (List.mem_cons_of_mem c hd))
      (hD.mono fun n hn => hsplit n (.inr hn)) fun d hd => h d (List.mem_cons_of_mem c hd)
    rw [bindingsOf]
    split
    · next role hrole =>
      have hc := h c List.mem_cons_self role hrole
      apply (hc.append hrest (hD.mono hsplit) ?_).mono hsplit
      rintro n hn ⟨d, hd, hdn⟩
      have hn := hR c List.mem_cons_self n hn
      have hdn := hR d (List.mem_cons_of_mem c hd) n hdn
      have := (hr.2.2.2.mem hd).1
      have := hn.2
      have := hdn.1
      omega
    · exact hrest.mono fun n hn => hsplit n (.inr hn)

theorem Neat.both (hl : t.Laid {}) (h : Neat [] (Over t.children P) bs)
    (h' : Neat [] (Over t.children Q) bs') (hPQ : ∀ c, P c → Q c → False) :
    Neat [] (Over t.children fun c => P c ∨ Q c) (bs ++ bs') := by
  apply (h.append h' (shared_nil _) ?_).mono
  · rintro n (hn | hn)
    · exact hn.imp fun _ => .inl
    · exact hn.imp fun _ => .inr
  · rintro n ⟨c, hc, hP, hn⟩ ⟨d, hd, hQ, hn'⟩
    obtain rfl := hl.row.covers_eq hc hd hn hn'
    exact hPQ c hP hQ

theorem Neat.whole (hl : t.Laid {}) (h : Neat [] (Over t.children P) bs) : Neat [] t.Covers bs :=
  h.mono fun _ hn => hn.covers hl

/-- Marks taken from nodes that follow each other start in their order. -/
theorem starts_pairwise {R : Nat → Nat → Prop} (hR : ∀ {a b}, a < b → R a b) {l : List Tree}
    {g : Tree → List Tree} (hord : l.Pairwise fun u v => u.stop ≤ v.start)
    (hl : ∀ u ∈ l, u.Laid {}) (hg : ∀ u ∈ l, ∀ v ∈ g u, v ∈ u.walk ∧ v.kind.isMark)
    (hin : ∀ u ∈ l, (g u).Pairwise fun v w => R v.start w.start) :
    (l.flatMap g).Pairwise fun v w => R v.start w.start := by
  apply List.pairwise_flatMap.mpr
  refine ⟨hin, hord.imp_of_mem ?_⟩
  intro u u' hu hu' hle v hv w hw
  obtain ⟨hv, hm⟩ := hg u hu v hv
  obtain ⟨hw, -⟩ := hg u' hu' w hw
  obtain ⟨-, hstop, hlaid⟩ := Tree.walk_within u (hl u hu) v hv
  obtain ⟨hstart, -, -⟩ := Tree.walk_within u' (hl u' hu') w hw
  have := (hlaid.mark hm).2.1
  apply hR
  omega

theorem names_lt (hl : t.Laid {}) (hm : ∀ n ∈ t.parts .name, n.kind.isMark) :
    (t.parts .name).Pairwise fun v w => v.start < w.start := by
  have hsub : (t.parts .name).Sublist t.children := List.filter_sublist
  have h := starts_pairwise (R := (· < ·)) id (g := fun u => [u])
    ((Row.ordered hl.row).sublist hsub)
    (fun u hu => (hl.row.mem (hsub.subset hu)).2.2.1)
    (fun u hu v hv => by
      obtain rfl := List.mem_singleton.mp hv
      exact ⟨v.self_mem_walk, hm v hu⟩)
    fun _ _ => List.pairwise_singleton _ _
  simpa using h

theorem names_ne (hl : t.Laid {}) (hm : ∀ n ∈ t.parts .name, n.kind.isMark) :
    (t.parts .name).Pairwise fun v w => v.start ≠ w.start :=
  (names_lt hl hm).imp Nat.ne_of_lt

theorem part?_sublist (t : Tree) (f : Field) : (t.part? f).toList.Sublist (t.parts f) := by
  have he : t.part? f = (t.parts f).head? := List.head?_filter.symm
  rw [he]
  cases t.parts f with
  | nil => exact .slnil
  | cons n ns => exact (List.nil_sublist ns).cons_cons n

theorem covers_start (hl : t.Laid {}) (hm : t.kind.isMark) : t.Covers t.start :=
  ⟨Nat.le_refl _, (hl.mark hm).2.1⟩

theorem Neat.ofNames {ns : List Tree} {kind : ObjectKind}
    (he : effectsOf bs = ns.map fun n => .declare (Ident.of source n) kind)
    (hne : ns.Pairwise fun v w => v.start ≠ w.start) (hR : ∀ n ∈ ns, R n.start) : Neat [] R bs := by
  constructor
  · intro x hx
    rw [he] at hx
    obtain ⟨n, hn, rfl⟩ := List.mem_map.mp hx
    exact .inr (hR n hn)
  · rw [he]
    apply List.pairwise_map.mpr
    apply hne.imp
    intro v w hvw hs
    exact (hvw hs).elim

theorem over_name (hl : t.Laid {}) (hc : c ∈ t.parts .name) (hm : c.kind.isMark) :
    Over t.children (·.field = some .name) c.start := by
  obtain ⟨hc, hf⟩ := List.mem_filter.mp hc
  exact ⟨c, hc, by simpa using hf, covers_start (hl.row.mem hc).2.2.1 hm⟩

theorem effectsOf_declareNames (source : ByteArray) (kind : ObjectKind) (type : Option String)
    (t : Tree) : effectsOf (declareNames source kind type t) =
      (t.parts .name).map fun n => .declare (Ident.of source n) kind := by
  rw [declareNames, effectsOf_map]
  exact List.flatMap_pure_eq_map _ _

theorem declareNames_neat (source : ByteArray) (hl : t.Laid {})
    (hm : ∀ n ∈ t.parts .name, n.kind.isMark) (kind : ObjectKind) (type : Option String) :
    Neat [] (Over t.children (·.field = some .name)) (declareNames source kind type t) :=
  .ofNames (effectsOf_declareNames source kind type t) (names_ne hl hm)
    fun n hn => over_name hl hn (hm n hn)

theorem specNames_neat (source : ByteArray) (hl : t.Laid {})
    (hm : ∀ n ∈ t.parts .name, n.kind.isMark) (kind : ObjectKind) :
    Neat [] (Over t.children (·.field = some .name))
      ((specNames source t).map fun (n, type) => .act (.declare n kind type)) := by
  have he : effectsOf ((specNames source t).map fun (n, type) => .act (.declare n kind type)) =
      (t.parts .name).map fun n => .declare (Ident.of source n) kind := by
    rw [effectsOf_map, specNames, List.flatMap_map]
    conv => rhs; rw [← List.zipIdx_map_fst 0 (t.parts .name), List.map_map]
    exact List.flatMap_pure_eq_map _ _
  exact .ofNames he (names_ne hl hm) fun n hn => over_name hl hn (hm n hn)

/-- The names of children that follow each other, taken together. -/
theorem Neat.ofChildNames (hl : t.Laid {}) {ds : List Tree} {g : Tree → List Tree}
    {kind : ObjectKind} (hds : ds.Sublist t.children) (hg : ∀ d ∈ ds, (g d).Sublist (d.parts .name))
    (hm : ∀ d ∈ ds, ∀ n ∈ d.parts .name, n.kind.isMark)
    (he : effectsOf bs = (ds.flatMap g).map fun n => .declare (Ident.of source n) kind) :
    Neat [] (fun n => ∃ d ∈ ds, Over d.children (·.field = some .name) n) bs := by
  have hlaid : ∀ d ∈ ds, d.Laid {} := fun d hd => (hl.row.mem (hds.subset hd)).2.2.1
  apply Neat.ofNames he
  · apply starts_pairwise Nat.ne_of_lt ((Row.ordered hl.row).sublist hds) hlaid
    · intro d hd n hn
      have hn := (hg d hd).subset hn
      have hc := (List.mem_filter.mp hn).1
      exact ⟨Tree.child_mem_walk hc n.self_mem_walk, hm d hd n hn⟩
    · intro d hd
      exact (names_ne (hlaid d hd) (hm d hd)).sublist (hg d hd)
  · intro n hn
    obtain ⟨d, hd, hn⟩ := List.mem_flatMap.mp hn
    have hn := (hg d hd).subset hn
    exact ⟨d, hd, over_name (hlaid d hd) hn (hm d hd n hn)⟩

end GoAtlas.Check
