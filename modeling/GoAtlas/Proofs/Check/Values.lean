import GoAtlas.Proofs.Check.Capture
import GoAtlas.Proofs.Check.Integrity

namespace GoAtlas

namespace Reference

open Syntax

variable {p gp : Option Tree} {t c root : Tree} {ts : List Tree} {s : Site}

mutual
theorem sites_of_mem : (t : Tree) → ∀ p gp, ∀ s ∈ sites p gp t,
    sites s.parent s.grandparent s.node ⊆ sites p gp t
  | .node k f sp cs, p, gp, s, hs => by
    rcases List.mem_cons.mp hs with rfl | hs
    · exact List.Subset.refl _
    · exact List.subset_cons_of_subset _ (sitesOf_of_mem cs _ _ s hs)

theorem sitesOf_of_mem : (ts : List Tree) → ∀ p gp, ∀ s ∈ sitesOf p gp ts,
    sites s.parent s.grandparent s.node ⊆ sitesOf p gp ts
  | [], _, _, _, hs => by cases hs
  | t :: ts, p, gp, s, hs => by
    rcases List.mem_append.mp hs with hs | hs
    · exact List.subset_append_of_subset_left _ (sites_of_mem t p gp s hs)
    · exact List.subset_append_of_subset_right _ (sitesOf_of_mem ts p gp s hs)
end

theorem exists_site_of_child (ht : t ∈ root.walk) (hc : c ∈ t.children) :
    ∃ gp, ⟨c, some t, gp⟩ ∈ sitesOf (some root) none root.children := by
  rcases Tree.mem_walk_iff.mp ht with rfl | ⟨d, hd, ht⟩
  · exact ⟨none, sites_subset_sitesOf hc (self_mem_sites c (some t) none)⟩
  · rw [← map_node_sites d (some root) none] at ht
    obtain ⟨s, hs, rfl⟩ := List.mem_map.mp ht
    have hbelow := List.Subset.trans (sites_of_mem d _ _ s hs) (sites_subset_sitesOf hd)
    exact ⟨s.parent, hbelow (sites_child_subset hc (self_mem_sites c (some s.node) s.parent))⟩

end Reference

namespace Check

open Syntax Reference

variable {P : Object → Prop} {defs : Dict Spot Object} {o : Object} {f g : SourceFile}
  {package : String} {t n x spec : Tree}

/-- All objects stand where they are recorded and satisfy `P`. -/
def Holds (P : Object → Prop) (defs : Dict Spot Object) : Prop :=
  ∀ spot o, defs.lookup spot = some o → o.spot = some spot ∧ P o

/-- Definitions are added, if any, by which all objects go on satisfying `P` and none is lost. -/
structure Adds (P : Object → Prop) (defs defs' : Dict Spot Object) : Prop where
  holds : Holds P defs → Holds P defs'
  retains : ∀ spot, (defs.lookup spot).isSome → (defs'.lookup spot).isSome

theorem Adds.refl (P : Object → Prop) (defs : Dict Spot Object) : Adds P defs defs :=
  ⟨id, fun _ => id⟩

theorem Adds.trans {defs' defs'' : Dict Spot Object} (h : Adds P defs defs')
    (h' : Adds P defs' defs'') : Adds P defs defs'' :=
  ⟨fun hs => h'.holds (h.holds hs), fun spot hs => h'.retains spot (h.retains spot hs)⟩

theorem adds_put {spot : Spot} (hspot : o.spot = some spot) (ho : P o) :
    Adds P defs (defs.put spot o) := by
  constructor
  · intro h place o' ho'
    obtain ⟨rfl, rfl⟩ | ho' := Dict.cases_of_lookup_put ho'
    · exact ⟨hspot, ho⟩
    · exact h place o' ho'
  · intro place h
    rw [Dict.lookup_put]
    split
    · rfl
    · exact h

theorem adds_adjust (hP : ∀ name o, P o → P (Declared.withMethod name o)) (name : String)
    (spot : Spot) : Adds P defs (defs.adjust spot (Declared.withMethod name)) := by
  constructor
  · intro h place o ho
    rw [Dict.lookup_adjust] at ho
    split at ho
    · obtain ⟨o', ho', rfl⟩ := Option.map_eq_some_iff.mp ho
      obtain ⟨hspot, hobject⟩ := h place o' ho'
      rw [Declared.withMethod_spot]
      exact ⟨hspot, hP name o' hobject⟩
    · exact h place o ho
  · intro place h
    rw [Dict.lookup_adjust]
    split
    · simpa using h
    · exact h

namespace Declared

variable {d : Declared}

theorem adds_add (d : Declared) (ho : P o) (bound : Bool) :
    Adds P d.defs (d.add o bound).defs := by
  unfold Declared.add
  dsimp only
  split
  · next spot hspot => exact adds_put hspot ho
  · exact .refl P _

theorem isSome_add {spot : Spot} (hspot : o.spot = some spot) (bound : Bool) :
    ((d.add o bound).defs.lookup spot).isSome := by
  simp [Declared.add, hspot, Dict.lookup_put]

theorem adds_addMethod (d : Declared) (hP : ∀ name o, P o → P (withMethod name o))
    (hm : ∀ n, t.part? .name = some n → P (objectAt package f.path (Ident.of f.content n) .method
      (some (signature f.content t)))) : Adds P d.defs (d.addMethod package f t).defs := by
  unfold Declared.addMethod
  split
  · exact .refl P _
  · next n hn =>
    have hadd := adds_add d (hm n hn) false
    dsimp only
    split
    · split
      · dsimp only
        split
        · exact hadd.trans (adds_adjust hP _ _)
        · exact hadd
      · exact hadd
    · exact hadd

theorem holds_ofFiles {fs : List SourceFile} (hP : ∀ name o, P o → P (withMethod name o))
    (h : ∀ f ∈ fs, ∀ t ∈ f.tree.named, ∀ x ∈ objects package f t, P x.1)
    (hm : ∀ f ∈ fs, ∀ t ∈ f.tree.named, t.kind = .methodDeclaration →
      ∀ n, t.part? .name = some n → P (objectAt package f.path (Ident.of f.content n) .method
        (some (signature f.content t)))) : Holds P (ofFiles package fs).defs := by
  have hempty : Holds P ({} : Declared).defs := nofun
  apply List.foldlRecOn (motive := fun d : Declared => Holds P d.defs)
  · apply List.foldlRecOn (motive := fun d : Declared => Holds P d.defs) _ _ hempty
    intro d hd f hf
    apply List.foldlRecOn (motive := fun d : Declared => Holds P d.defs) _ _ hd
    intro d hd x hx
    obtain ⟨t, ht, hx⟩ := List.mem_flatMap.mp hx
    exact (adds_add d (h f hf t ht x hx) x.2).holds hd
  · intro d hd f hf
    apply List.foldlRecOn (motive := fun d : Declared => Holds P d.defs) _ _ hd
    intro d hd t ht
    obtain ⟨ht, hk⟩ := List.mem_filter.mp ht
    exact (adds_addMethod d hP (hm f hf t ht (of_decide_eq_true hk))).holds hd

theorem foldl_of_mem {α β : Type} {step : β → α → β} {Q : β → Prop} {l : List α} {a : α}
    (ha : a ∈ l) (hmake : ∀ b, Q (step b a)) (hkeep : ∀ b, ∀ c ∈ l, Q b → Q (step b c)) (b : β) :
    Q (l.foldl step b) := by
  induction l generalizing b with
  | nil => cases ha
  | cons c l ih =>
    have hkeep' := fun b d hd => hkeep b d (List.mem_cons_of_mem c hd)
    rcases List.mem_cons.mp ha with rfl | ha
    · exact List.foldlRecOn (motive := Q) l step (hmake b) fun b hb d hd => hkeep' b d hd hb
    · exact ih ha hkeep' (step b c)

theorem isSome_ofFiles {fs : List SourceFile} {x : Object × Bool} {spot : Spot} (hf : f ∈ fs)
    (ht : t ∈ f.tree.named) (hx : x ∈ objects package f t) (hspot : x.1.spot = some spot) :
    ((ofFiles package fs).defs.lookup spot).isSome := by
  let Q (d : Declared) : Prop := (d.defs.lookup spot).isSome
  have hadd : ∀ d, ∀ y : Object × Bool, Q d → Q (d.add y.1 y.2) := fun d y =>
    (adds_add (P := fun _ => True) d trivial y.2).retains spot
  have hmethod : ∀ d, ∀ g t, Q d → Q (addMethod package g d t) := fun d g t =>
    (adds_addMethod (P := fun _ => True) d (fun _ _ h => h) fun _ _ => trivial).retains spot
  have hnames : ∀ d, Q (addNames package d f) := fun d =>
    foldl_of_mem (Q := Q) (List.mem_flatMap.mpr ⟨t, ht, hx⟩) (fun d => isSome_add (d := d) hspot x.2)
      (fun d y _ => hadd d y) d
  have hkept : ∀ d (g : SourceFile), Q d → Q (addNames package d g) := fun d g hd =>
    List.foldlRecOn (motive := Q) _ _ hd fun d hd y _ => hadd d y hd
  apply List.foldlRecOn (motive := Q) fs _ (foldl_of_mem hf hnames (fun d g _ => hkept d g) {})
  intro d hd g _
  exact List.foldlRecOn (motive := Q) _ _ hd fun d hd t _ => hmethod d g t hd

end Declared

def Action.Makes (P : Object → Prop) (e : Surroundings) : Action → Prop
  | .declare n kind type => P (Declared.objectAt e.package e.file n kind type)
  | .short n type => P (Declared.objectAt e.package e.file n .var type)
  | _ => True

namespace State

variable {e : Surroundings} {s s' : State}

theorem adds_of_eq (h : s'.info.defs = s.info.defs) : Adds P s.info.defs s'.info.defs :=
  h ▸ .refl P _

theorem useMember_defs (o : Object) (n : Ident) :
    (s.useMember e o n).info.defs = s.info.defs := by
  unfold State.useMember
  split
  · rfl
  split
  · exact recordUse_defs e n _ s
  split <;> rfl

theorem use_defs (n : Ident) (soft : Bool) : (s.use e n soft).info.defs = s.info.defs := by
  unfold State.use
  split
  · rfl
  split
  · exact recordUse_defs e n _ s
  split <;> rfl

theorem adds_declare {n : Ident} {kind : ObjectKind} {type : Option String}
    (h : P (Declared.objectAt e.package e.file n kind type)) :
    Adds P s.info.defs (s.declare e n kind type).info.defs := by
  unfold State.declare
  split
  · exact .refl P _
  · exact adds_put rfl h

theorem adds_act {a : Action} (h : a.Makes P e) : Adds P s.info.defs (s.act e a).info.defs := by
  cases a with
  | use n soft => exact adds_of_eq (use_defs n soft)
  | declare n kind type => exact adds_declare h
  | short n type =>
    simp only [State.act]
    split
    · exact adds_of_eq (use_defs n false)
    · exact adds_declare h
  | member operand field =>
    simp only [State.act]
    split
    · split
      · exact adds_of_eq (useMember_defs _ field)
      · exact .refl P _
    · exact .refl P _
  | qualified package name =>
    simp only [State.act]
    split
    · split
      · exact adds_of_eq ((useMember_defs _ name).trans (recordUse_defs e package _ s))
      · exact adds_of_eq rfl
    · exact adds_of_eq rfl
  | typed start stop type => exact adds_of_eq rfl

mutual
theorem adds_follow : (b : Binding) → ∀ s : State, b.Each (·.Makes P e) →
    Adds P s.info.defs (s.follow e b).info.defs
  | .act _, _, hb => adds_act hb
  | .scope body, s, hb => by
    rw [follow_scope]
    exact adds_followAll body s.enter hb

theorem adds_followAll : (bs : List Binding) → ∀ s : State, EachOf (·.Makes P e) bs →
    Adds P s.info.defs (s.followAll e bs).info.defs
  | [], _, _ => .refl P _
  | b :: bs, s, hbs => (adds_follow b s hbs.1).trans (adds_followAll bs (s.follow e b) hbs.2)
end

end State

theorem Outcome.adds (package : String) (own : List SourceFile)
    {linked : List (SourceFile × Linked)}
    (h : ∀ gl ∈ linked,
      EachOf (·.Makes P gl.2.surroundings) (fileBindings gl.1.content gl.1.tree)) :
    Adds P (Declared.ofFiles package own).defs (ofLinked package own linked).info.defs := by
  apply List.foldlRecOn
    (motive := fun s : State => Adds P (Declared.ofFiles package own).defs s.info.defs)
  · exact .refl P _
  · rintro s hs ⟨g, l⟩ hgl
    let start : State :=
      { s with scope := [l.frame, (Declared.ofFiles package own).names, universeFrame] }
    exact hs.trans (State.adds_followAll _ start (h (g, l) hgl))

/-- The place in the name part of a specification of the identifier with a number. The commas between
the names of constants have places too. -/
def namePlace (k : Kind) (n : Nat) : Nat :=
  if k = .varSpec then n else 2 * n

theorem identifiers_of_alternating : {l : List Tree} → Alternating (l.map (·.kind)) → ∀ n,
    (l.filter (·.kind = .identifier))[n]? = l[2 * n]?
  | [], _, _ => rfl
  | [x], hx, n => by
    have hx : x.kind = .identifier := hx
    rw [List.filter_cons_of_pos (by simpa using hx)]
    cases n <;> simp
  | x :: c :: l, h, n => by
    obtain ⟨hx, hc, hl⟩ := h
    rw [List.filter_cons_of_pos (by simpa using hx), List.filter_cons_of_neg (by simp [hc])]
    cases n with
    | zero => rfl
    | succ n => simpa [Nat.mul_succ] using identifiers_of_alternating hl n

section

variable {C : Ground} (hl : spec.Laid C) (hk : spec.kind.isValueSpec)
include hl hk

theorem name_admitted (hn : n ∈ spec.parts .name) :
    n.kind = .identifier ∨ n.kind = .token "," ∧ spec.kind = .constSpec := by
  obtain ⟨hn, hf⟩ := List.mem_filter.mp hn
  have hf : n.field = some .name := by simpa using hf
  exact Kind.identifier_or_comma hk (hf ▸ (hl.row.mem hn).2.2.2)

theorem identifiers_getElem? (n : Nat) :
    ((spec.parts .name).filter (·.kind = .identifier))[n]? =
      (spec.parts .name)[namePlace spec.kind n]? := by
  rcases Kind.isValueSpec_iff.mp hk with hs | hs
  · have hall : ∀ n ∈ spec.parts .name, n.kind = .identifier := by
      intro n hn
      refine (name_admitted hl hk hn).resolve_right ?_
      simp [hs]
    rw [List.filter_eq_self.mpr (by simpa using hall), namePlace, if_pos hs]
  · rw [namePlace, if_neg (by simp [hs])]
    exact identifiers_of_alternating (hl.signed.series hs) n

end

theorem type_of_mem_specNames {source : ByteArray} {type : Option String} {n : Nat}
    (hl : spec.Laid {}) (hk : spec.kind.isValueSpec) (ht : spec.part? .type = none)
    (hx : (spec.parts .name)[n]? = some x) (h : (Ident.of source x, type) ∈ specNames source spec) :
    type = (Tree.expressions? (spec.part? .value))[n]?.bind (defaultType? source) := by
  obtain ⟨⟨y, i⟩, hy, he⟩ := List.mem_map.mp h
  obtain ⟨hname, htype⟩ := Prod.mk.inj he
  have hy : (spec.parts .name)[i]? = some y := List.mem_zipIdx_iff_getElem?.mp hy
  have hmarks : ∀ n ∈ spec.parts .name, n.kind.isMark := by
    intro n hn
    rcases name_admitted hl hk hn with hn | ⟨hn, -⟩ <;> rw [hn] <;> rfl
  have hnodup : ((spec.parts .name).map (·.start)).Nodup :=
    List.pairwise_map.mpr (names_ne hl hmarks)
  have hstart : y.start = x.start := congrArg Ident.start hname
  have hi : i < ((spec.parts .name).map (·.start)).length := by
    rw [List.length_map]
    exact (List.getElem?_eq_some_iff.mp hy).1
  obtain rfl : i = n := (List.getElem?_inj hi hnodup).mp (by simp [hx, hy, hstart])
  rw [← htype, ht]

def Object.Paired (f : SourceFile) (o : Object) : Prop :=
  ∀ spec ∈ f.tree.walk, spec.kind.isValueSpec → ∀ x ∈ spec.parts .name, x.kind = .identifier →
    o.spot = some ⟨f.path, x.start⟩ → (Ident.of f.content x, o.type) ∈ specNames f.content spec

section

variable {size : Nat} (hr : Parsed size f.tree)
include hr

theorem paired_of_site {s : Site} (hs : s ∈ sitesOf (some f.tree) none f.tree.children)
    (hm : s.node.kind.isMark) (ho : o.spot = some ⟨f.path, s.node.start⟩)
    (hmatch : Matches f.content s o.type) : o.Paired f := by
  intro spec hspec hk x hx hxk hspot
  obtain ⟨gp, hsite⟩ := exists_site_of_child hspec (List.mem_filter.mp hx).1
  have hstart : s.node.start = x.start := by
    have he := Option.some.inj (ho.symm.trans hspot)
    exact (Spot.mk.inj he).2
  have hnode : s.node = x := hr.row.mark_eq (mem_walkAll_of_mem_sitesOf hs)
    (mem_walkAll_of_mem_sitesOf hsite) hm (by simp only [hxk]; rfl) hstart
  obtain rfl : s = ⟨x, some spec, gp⟩ := by
    apply Site.eq_of_start hr hs _ hsite _ hstart
    · rw [Site.isIdentifier, hnode, hxk]
      rfl
    · simp only [Site.isIdentifier, hxk]
      rfl
  exact hmatch spec rfl hk

theorem TopTyped.paired (h : TopTyped f.content f.tree n o.type)
    (ho : o.spot = some ⟨f.path, n.start⟩) : o.Paired f := by
  have hm := (h.top.mark hr).2
  obtain ⟨q, d, hd, hn, htype⟩ := h
  obtain ⟨gq, hsites⟩ := hd.sites_subset
  have hsite := hsites
    (sites_child_subset (List.mem_filter.mp hn).1 (self_mem_sites n (some d) (some q)))
  apply paired_of_site hr hsite hm ho
  intro spec hs
  obtain rfl := Option.some.inj hs
  exact htype

end

theorem paired_of_path {spot : Spot} (ho : o.spot = some spot) (h : spot.file ≠ f.path) :
    o.Paired f := by
  intro spec _ _ x _ _ hspot
  obtain rfl := Option.some.inj (ho.symm.trans hspot)
  exact (h rfl).elim

theorem withMethod_paired (name : String) (h : o.Paired f) :
    (Declared.withMethod name o).Paired f := by
  obtain ⟨methods, he⟩ := Declared.withMethod_eq name o
  rw [he]
  exact h

/-- A specification at the top level is one of those of a declaration of the file. -/
theorem Declares.mem_specs {root q d : Tree} (h : Declares root q d) (hk : d.kind.isValueSpec) :
    ∃ t ∈ root.named, t.kind = .varDeclaration ∧ d ∈ t.specs .varSpec ∨
      t.kind = .constDeclaration ∧ d ∈ t.specs .constSpec := by
  have hnamed : ∀ {t c : Tree} {k : Kind}, c ∈ t.children → c.kind = k → k.isNamed = true →
      c ∈ t.named := fun hc hck hn => List.mem_filter.mpr ⟨hc, hck ▸ hn⟩
  cases h with
  | function _ hf => rcases Kind.isValueSpec_iff.mp hk with hk | hk <;> simp [hk, Kind.isFunction] at hf
  | type _ _ _ hs => rcases Kind.isValueSpec_iff.mp hk with hk | hk <;> simp [hk, Tree.isTypeSpec] at hs
  | var ht htk hd hs =>
    refine ⟨q, hnamed ht htk rfl, .inl ⟨htk, List.mem_flatMap.mpr ⟨d, hnamed hd hs rfl, ?_⟩⟩⟩
    simp [hs]
  | listed ht htk hl hlk hd hs =>
    refine ⟨_, hnamed ht htk rfl, .inl ⟨htk, List.mem_flatMap.mpr ⟨q, hnamed hl hlk rfl, ?_⟩⟩⟩
    simpa [hlk, hs] using hnamed hd hs rfl
  | const ht htk hd hs =>
    refine ⟨q, hnamed ht htk rfl, .inr ⟨htk, List.mem_flatMap.mpr ⟨d, hnamed hd hs rfl, ?_⟩⟩⟩
    simp [hs]

theorem exists_object_of_declares {q : Tree} (package : String) (h : Declares f.tree q spec)
    (hk : spec.kind.isValueSpec) (hx : x ∈ spec.parts .name) :
    ∃ t ∈ f.tree.named, ∃ y ∈ Declared.objects package f t,
      y.1.spot = some ⟨f.path, x.start⟩ := by
  obtain ⟨type, hname⟩ : ∃ type, (Ident.of f.content x, type) ∈ specNames f.content spec := by
    obtain ⟨j, hj, rfl⟩ := List.mem_iff_getElem.mp hx
    exact ⟨_, List.mem_map.mpr ⟨(_, j), List.mk_mem_zipIdx_iff_getElem?.mpr (List.getElem?_eq_getElem hj),
      rfl⟩⟩
  obtain ⟨t, ht, ⟨htk, hs⟩ | ⟨htk, hs⟩⟩ := h.mem_specs hk
  · refine ⟨t, ht, ?_⟩
    simp only [Declared.objects, htk]
    exact ⟨_, List.mem_map_of_mem (List.mem_flatMap.mpr ⟨spec, hs, hname⟩), rfl⟩
  · refine ⟨t, ht, ?_⟩
    simp only [Declared.objects, htk]
    exact ⟨_, List.mem_map_of_mem (List.mem_flatMap.mpr ⟨spec, hs, hname⟩), rfl⟩

section

variable {size : Nat} (hr : Parsed size g.tree) (hg : g.path = f.path → g = f)
include hr hg

theorem objects_paired (ht : t ∈ g.tree.named) {y : Object × Bool}
    (hy : y ∈ Declared.objects package g t) : y.1.Paired f := by
  obtain ⟨n, -, htop, he⟩ := Declared.objects_top hr ht hy
  have hspot : y.1.spot = some ⟨g.path, n.start⟩ := by rw [he]; rfl
  by_cases hpath : g.path = f.path
  · obtain rfl := hg hpath
    exact htop.paired hr hspot
  · exact paired_of_path hspot hpath

theorem method_paired (ht : t ∈ g.tree.named) (hk : t.kind = .methodDeclaration)
    (hn : t.part? .name = some n) (type : Option String) :
    (Declared.objectAt package g.path (Ident.of g.content n) .method type).Paired f := by
  by_cases hpath : g.path = f.path
  · obtain rfl := hg hpath
    exact TopTyped.paired hr (.function ht (by rw [hk]; rfl) hn) rfl
  · exact paired_of_path rfl hpath

theorem makes_paired {e : Surroundings} (he : e.file = g.path) {a : Action}
    (ha : a.Inside g.content g.tree) : a.Makes (·.Paired f) e := by
  obtain ⟨q, d, c, hd, hc, -, hplaced⟩ := ha
  have hgiven : ∀ {n type kind}, Given g.content (sites (some d) (some q) c) n type →
      (Declared.objectAt e.package e.file n kind type).Paired f := by
    rintro n type kind ⟨s, hs, hm, -, -, rfl, hmatch⟩
    rw [he]
    by_cases hpath : g.path = f.path
    · obtain rfl := hg hpath
      exact paired_of_site hr (hd.mem_sitesOf hc hs) hm rfl hmatch
    · exact paired_of_path rfl hpath
  cases a with
  | declare n kind type => exact hgiven hplaced
  | short n type => exact hgiven (hplaced.given type)
  | _ => trivial

end

namespace Checks

variable {ws : Workspace} {fs : List SourceFile} {i : TypeInfo}

/-- Whatever is checked, the objects of a file have the types that go with their names, and those at
the top level are among them. -/
theorem Finds.paired (hws : ws.Loaded) (h : Finds ws fs i) (hf : f ∈ fs) :
    Holds (·.Paired f) i.defs ∧
      ∃ package, Adds (·.Paired f) (Declared.ofFiles package fs).defs i.defs := by
  obtain ⟨hfs, package, linked, rfl, rfl, hresolves⟩ := h.linked hws
  have hparsed : ∀ g ∈ linked.map (·.1), ∃ size, Parsed size g.tree :=
    fun g hg => hws.parsed g (hfs hg)
  have hsame : ∀ g ∈ linked.map (·.1), g.path = f.path → g = f :=
    fun g hg he => List.inj_on_of_nodup_map hws.paths (hfs hg) (hfs hf) he
  have hmakes : ∀ gl ∈ linked,
      EachOf (·.Makes (·.Paired f) gl.2.surroundings) (fileBindings gl.1.content gl.1.tree) := by
    intro gl hgl
    have hg : gl.1 ∈ linked.map (·.1) := List.mem_map_of_mem hgl
    obtain ⟨size, hr⟩ := hparsed gl.1 hg
    obtain ⟨answers, hresolved⟩ := hresolves gl hgl
    have hfile := (Linked.ofAnswers_handles package gl.1 hresolved.answered).1
    rw [← hresolved.linked] at hfile
    exact EachOf.imp (fun a => makes_paired hr (hsame gl.1 hg) hfile) _
      (fileBindings_inside gl.1.content hr)
  have hadds := Outcome.adds package (linked.map (·.1)) hmakes
  refine ⟨hadds.holds ?_, package, hadds⟩
  apply Declared.holds_ofFiles (fun name _ => withMethod_paired name)
  · intro g hg t ht y hy
    obtain ⟨size, hr⟩ := hparsed g hg
    exact objects_paired hr (hsame g hg) ht hy
  · intro g hg t ht hk n hn
    obtain ⟨size, hr⟩ := hparsed g hg
    exact method_paired hr (hsame g hg) ht hk hn _

/-- Where a specification gives no type, what is recorded for an identifier in it has the type that
the value in the identifier's place shows. The commas between constants have places as well, so it is
only of variables that the n-th has the type of the n-th value. Every name at the top level is
recorded. -/
theorem value_types {s : Files.Store} {root : String} {respectIgnore : Bool} {log : List LogRecord}
    (hs : s.Proper) (hws : Load.workspace s root respectIgnore = (.ok ws, log))
    (h : Finds ws fs i) (hf : f ∈ fs) (hspec : spec ∈ f.tree.walk) (hk : spec.kind.isValueSpec)
    (ht : spec.part? .type = none) {n : Nat}
    (hx : ((spec.parts .name).filter (·.kind = .identifier))[n]? = some x) :
    (∀ o, i.defs.lookup ⟨f.path, x.start⟩ = some o →
      o.type = (Tree.expressions? (spec.part? .value))[namePlace spec.kind n]?.bind
        (defaultType? f.content)) ∧
    ∀ q, Declares f.tree q spec → (i.defs.lookup ⟨f.path, x.start⟩).isSome := by
  have hloaded := Load.loaded hs hws
  obtain ⟨hfs, -⟩ := h.linked hloaded
  obtain ⟨size, hr⟩ := hloaded.parsed f (hfs hf)
  obtain ⟨hmem, hxk⟩ := List.mem_filter.mp (List.mem_of_getElem? hx)
  have hne : spec ≠ f.tree := by
    intro he
    rw [he, hr.kind] at hk
    cases hk
  have hl := laid_of_mem_walk hr hspec hne
  rw [identifiers_getElem? hl hk] at hx
  obtain ⟨hholds, package, hadds⟩ := h.paired hloaded hf
  constructor
  · intro o ho
    obtain ⟨hspot, hpaired⟩ := hholds _ o ho
    exact type_of_mem_specNames hl hk ht hx
      (hpaired spec hspec hk x hmem (of_decide_eq_true hxk) hspot)
  · intro q hd
    obtain ⟨t, ht, y, hy, hspot⟩ := exists_object_of_declares package hd hk hmem
    exact hadds.retains _ (Declared.isSome_ofFiles hf ht hy hspot)

/-- Constants in one specification, each with a value of its own. -/
def series : ByteArray :=
  "package p\n\nconst a, b, c = 1, \"s\", true\n".toUTF8

/-- The second constant has the type of the third value. -/
theorem value_types_series : ∃ ws log f i q spec x o,
    Load.workspace (Load.sole series) "/ws" true = (.ok ws, log) ∧ Finds ws [f] i ∧
    Declares f.tree q spec ∧ spec.kind.isValueSpec ∧ spec.part? .type = none ∧
    ((spec.parts .name).filter (·.kind = .identifier))[1]? = some x ∧ f.text x = "b" ∧
    i.defs.lookup ⟨f.path, x.start⟩ = some o ∧ o.type = some "bool" := by
  obtain ⟨tree, htree, hname, himports, hinfo, q, hq, hqk, spec, hspec, hk, ht, x, hx, htext, htype⟩ :
      ∃ tree ∈ parse? series, tree.packageName series = "p" ∧ tree.imports series = [] ∧
      ((performAll (Load.soleWorkspace series tree) {}
        [.check (Load.solePackage series tree) (List.mem_singleton_self _)]).info?
          (Load.solePackage series tree)).isSome = true ∧
      ∃ q ∈ tree.children, q.kind = .constDeclaration ∧ ∃ spec ∈ q.children,
        spec.kind = .constSpec ∧ spec.part? .type = none ∧
        ∃ x ∈ ((spec.parts .name).filter (·.kind = .identifier))[1]?, x.text series = "b" ∧
          (Tree.expressions? (spec.part? .value))[2]?.bind (defaultType? series) = some "bool" := by
    decide +kernel
  obtain ⟨log, hload⟩ := (Load.single_sole series).workspace htree hname himports
  let f := Load.soleFile "/ws/main.go" series tree {}
  let p := Load.solePackage series tree
  have hp : p ∈ (Load.soleWorkspace series tree).packages := List.mem_singleton_self p
  obtain ⟨i, hi⟩ := Option.isSome_iff_exists.mp hinfo
  have hfinds : Finds (Load.soleWorkspace series tree) [f] i := .package _ hp hi
  have hd : Declares f.tree q spec := .const hq hqk hspec hk
  have hvalue : spec.kind.isValueSpec := by rw [hk]; rfl
  have hwalk : spec ∈ f.tree.walk :=
    Tree.child_mem_walk hq (Tree.child_mem_walk hspec (Tree.self_mem_walk _))
  obtain ⟨htypes, hsome⟩ := value_types (Load.proper_sole series) hload hfinds
    (List.mem_singleton_self f) hwalk hvalue ht hx
  obtain ⟨o, ho⟩ := Option.isSome_iff_exists.mp (hsome q hd)
  have hplace : namePlace spec.kind 1 = 2 := by rw [hk]; rfl
  refine ⟨_, log, f, i, q, spec, x, o, hload, hfinds, hd, hvalue, ht, hx, htext, ho, ?_⟩
  rw [htypes o ho, hplace]
  exact htype

end Checks

end Check

end GoAtlas
