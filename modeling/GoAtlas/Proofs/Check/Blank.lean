import GoAtlas.Proofs.Check.Imported
import GoAtlas.Proofs.Symbol.PackageNames

namespace GoAtlas.Check

open Syntax Reference

variable {e : Surroundings} {s t : State} {o : Object} {n : Ident} {f g : SourceFile} {l : Linked}
  {fs : List SourceFile} {linked : List (SourceFile × Linked)} {package : String}

/-- What scopes bind the blank name to, from the innermost one on. -/
def Scope.blanks (s : Scope) : List (Option Object) :=
  s.map (List.lookup "_")

theorem Scope.blanks_bind {s : Scope} (hs : s ≠ []) (ho : o.name ≠ "_") :
    (s.bind o).blanks = s.blanks := by
  cases s with
  | nil => exact (hs rfl).elim
  | cons first s =>
    have hfirst : (first.put o.name o).lookup "_" = first.lookup "_" := by
      rw [Dict.lookup_put, if_neg (by simpa using ho.symm)]
    simp only [bind, blanks, List.map_cons, hfirst]

theorem Scope.mem_blanks {s : Scope} (h : s.lookup "_" = some o) : some o ∈ s.blanks := by
  obtain ⟨fr, hfr, ho⟩ := List.exists_of_findSome?_eq_some h
  exact ho ▸ List.mem_map_of_mem hfr

namespace State

theorem scope_ne_nil (h : t.scope.blanks = s.scope.blanks) (hs : s.scope ≠ []) : t.scope ≠ [] := by
  intro ht
  rw [ht] at h
  exact hs (List.map_eq_nil_iff.mp h.symm)

theorem blanks_declare (hs : s.scope ≠ []) (n : Ident) (kind : ObjectKind) (type : Option String) :
    (s.declare e n kind type).scope.blanks = s.scope.blanks := by
  unfold State.declare
  split
  · rfl
  · next hn => exact Scope.blanks_bind hs hn

theorem blanks_act (hs : s.scope ≠ []) (a : Action) :
    (s.act e a).scope.blanks = s.scope.blanks := by
  cases a with
  | use n soft => exact congrArg Scope.blanks (scope_use e s n soft)
  | declare n kind type => exact blanks_declare hs n kind type
  | short n type =>
    simp only [act]
    split
    · exact congrArg Scope.blanks (scope_use e s n false)
    · exact blanks_declare hs n .var type
  | member operand field =>
    simp only [act]
    split
    · split
      · exact congrArg Scope.blanks (scope_useMember e s _ field)
      · rfl
    · rfl
  | qualified package name =>
    simp only [act]
    split
    · split
      · rw [scope_useMember, scope_recordUse]
      · rfl
    · rfl
  | typed start stop type => rfl

theorem blanks_follow (hs : s.scope ≠ []) (b : Binding) :
    (s.follow e b).scope.blanks = s.scope.blanks := by
  cases b with
  | act a => exact blanks_act hs a
  | scope body => rw [follow_scope]

mutual
/-- The states gone through while a binding is followed, but for the last one. -/
def passed (e : Surroundings) (s : State) : Binding → List State
  | .act _ => [s]
  | .scope body => s :: passedAll e s.enter body

/-- The states gone through while bindings are followed, from the first one to the last. -/
def passedAll (e : Surroundings) (s : State) : List Binding → List State
  | [] => [s]
  | b :: bs => passed e s b ++ passedAll e (s.follow e b) bs
end

theorem followAll_mem_passedAll (bs : List Binding) : s.followAll e bs ∈ s.passedAll e bs := by
  induction bs generalizing s with
  | nil => exact List.mem_singleton_self s
  | cons b bs ih => exact List.mem_append_right _ ih

mutual
theorem blanks_passed : (b : Binding) → ∀ s : State, s.scope ≠ [] → ∀ t ∈ s.passed e b,
    ∃ depth, t.scope.blanks = List.replicate depth none ++ s.scope.blanks
  | .act _, s, _, t, ht => by
    obtain rfl := List.mem_singleton.mp ht
    exact ⟨0, rfl⟩
  | .scope body, s, _, t, ht => by
    rcases List.mem_cons.mp ht with rfl | ht
    · exact ⟨0, rfl⟩
    · obtain ⟨depth, hdepth⟩ := blanks_passedAll body s.enter (List.cons_ne_nil _ _) t ht
      have henter : s.enter.scope.blanks = none :: s.scope.blanks := rfl
      refine ⟨depth + 1, ?_⟩
      rw [hdepth, henter, List.replicate_succ', List.append_assoc]
      rfl

theorem blanks_passedAll : (bs : List Binding) → ∀ s : State, s.scope ≠ [] →
    ∀ t ∈ s.passedAll e bs, ∃ depth, t.scope.blanks = List.replicate depth none ++ s.scope.blanks
  | [], s, _, t, ht => by
    obtain rfl := List.mem_singleton.mp ht
    exact ⟨0, rfl⟩
  | b :: bs, s, hs, t, ht => by
    have hfollow := blanks_follow (e := e) hs b
    rcases List.mem_append.mp ht with ht | ht
    · exact blanks_passed b s hs t ht
    · rw [← hfollow]
      exact blanks_passedAll bs (s.follow e b) (scope_ne_nil hfollow hs) t ht
end

end State

/-- A member of that name can be selected from an import. -/
def Surroundings.Offers (e : Surroundings) (name : String) : Prop :=
  ∃ i ∈ e.imports, (i.handle.member? name).isSome

def Action.Records (e : Surroundings) (blanks : List (Option Object)) (n : Ident) : Action → Prop
  | .use m _ | .short m _ => n = m ∧ n.name ≠ "_"
  | .member _ field => n = field ∧ e.Offers n.name
  | .qualified package name =>
    n = package ∧ (n.name = "_" → ∃ o, some o ∈ blanks ∧ o.kind = .package) ∨
      n = name ∧ e.Offers n.name
  | .declare .. | .typed .. => False

namespace State

variable {P : Spot → Prop} {blanks : List (Option Object)}

/-- Scopes that bind the blank name as listed, behind others that do not, and uses that satisfy `P`. -/
structure Blank (P : Spot → Prop) (blanks : List (Option Object)) (s : State) : Prop where
  scope : ∃ depth, s.scope.blanks = List.replicate depth none ++ blanks
  uses : ∀ spot, (s.info.uses.lookup spot).isSome → P spot

theorem Blank.mem (h : s.Blank P blanks) (ho : s.scope.lookup "_" = some o) : some o ∈ blanks := by
  obtain ⟨depth, hdepth⟩ := h.scope
  have hmem := Scope.mem_blanks ho
  rw [hdepth] at hmem
  rcases List.mem_append.mp hmem with hmem | hmem
  · cases List.eq_of_mem_replicate hmem
  · exact hmem

theorem Blank.ne_nil (h : s.Blank P blanks) (hb : blanks ≠ []) : s.scope ≠ [] := by
  obtain ⟨depth, hdepth⟩ := h.scope
  intro hs
  rw [hs] at hdepth
  exact hb (List.append_eq_nil_iff.mp hdepth.symm).2

theorem Blank.recordUse (h : s.Blank P blanks) (hn : P ⟨e.file, n.start⟩) (o : Object) :
    (s.recordUse e n o).Blank P blanks := by
  refine ⟨scope_recordUse e s n o ▸ h.scope, ?_⟩
  intro spot hspot
  rw [recordUse_uses, Dict.lookup_put] at hspot
  split at hspot
  · next he => exact beq_iff_eq.mp he ▸ hn
  · exact h.uses spot hspot

theorem Blank.fail (h : s.Blank P blanks) (n : Ident) (message : String) :
    (s.fail e n message).Blank P blanks :=
  ⟨h.scope, h.uses⟩

theorem Blank.use (h : s.Blank P blanks) (hn : n.name ≠ "_" → P ⟨e.file, n.start⟩) (soft : Bool) :
    (s.use e n soft).Blank P blanks := by
  unfold State.use
  split
  · exact h
  · next hname =>
    split
    · exact h.recordUse (hn hname) _
    split
    · exact h
    · exact h.fail n _

theorem Blank.useMember (h : s.Blank P blanks) (hn : e.Offers n.name → P ⟨e.file, n.start⟩)
    (package : Object) : (s.useMember e package n).Blank P blanks := by
  unfold State.useMember
  split
  · exact h
  · next i hi =>
    split
    · next o ho =>
      exact h.recordUse (hn ⟨i, List.mem_of_find?_eq_some hi, by rw [ho]; rfl⟩) o
    split
    · exact h.fail n _
    · exact h

theorem Blank.declare (h : s.Blank P blanks) (hb : blanks ≠ []) (n : Ident) (kind : ObjectKind)
    (type : Option String) : (s.declare e n kind type).Blank P blanks := by
  refine ⟨(blanks_declare (e := e) (h.ne_nil hb) n kind type).symm ▸ h.scope, ?_⟩
  unfold State.declare
  split
  · exact h.uses
  · exact h.uses

theorem Blank.act (h : s.Blank P blanks) (hb : blanks ≠ []) {a : Action}
    (ha : ∀ n, a.Records e blanks n → P ⟨e.file, n.start⟩) : (s.act e a).Blank P blanks := by
  cases a with
  | use n soft => exact h.use (fun hn => ha n ⟨rfl, hn⟩) soft
  | declare n kind type => exact h.declare hb n kind type
  | short n type =>
    simp only [State.act]
    split
    · exact h.use (fun hn => ha n ⟨rfl, hn⟩) false
    · exact h.declare hb n .var type
  | member operand field =>
    simp only [State.act]
    split
    · split
      · exact h.useMember (fun hn => ha field ⟨rfl, hn⟩) _
      · exact h
    · exact h
  | qualified package name =>
    simp only [State.act]
    split
    · next o ho =>
      split
      · next hk =>
        have hpackage : P ⟨e.file, package.start⟩ :=
          ha package (.inl ⟨rfl, fun hn => ⟨o, h.mem (hn ▸ ho), hk⟩⟩)
        exact (h.recordUse hpackage o).useMember (fun hn => ha name (.inr ⟨rfl, hn⟩)) o
      · exact h.fail package _
    · exact h.fail package _
  | typed start stop type => exact ⟨h.scope, h.uses⟩

mutual
theorem blank_follow (hb : blanks ≠ []) : (b : Binding) → ∀ s : State, s.Blank P blanks →
    b.Each (fun a => ∀ n, a.Records e blanks n → P ⟨e.file, n.start⟩) →
      (s.follow e b).Blank P blanks
  | .act _, _, h, ha => h.act hb ha
  | .scope body, s, h, hbody => by
    have hin : s.enter.Blank P blanks := by
      obtain ⟨depth, hdepth⟩ := h.scope
      have henter : s.enter.scope.blanks = none :: s.scope.blanks := rfl
      exact ⟨⟨depth + 1, by rw [henter, hdepth]; rfl⟩, h.uses⟩
    rw [follow_scope]
    exact ⟨h.scope, (blank_followAll hb body s.enter hin hbody).uses⟩

theorem blank_followAll (hb : blanks ≠ []) : (bs : List Binding) → ∀ s : State,
    s.Blank P blanks → EachOf (fun a => ∀ n, a.Records e blanks n → P ⟨e.file, n.start⟩) bs →
      (s.followAll e bs).Blank P blanks
  | [], _, h, _ => h
  | b :: bs, s, h, hbs =>
    blank_followAll hb bs (s.follow e b) (blank_follow hb b s h hbs.1) hbs.2
end

end State

/-- An import gives the blank name something to denote: it goes by it, or has a member of that name. -/
def Linked.Lends (l : Linked) : Prop :=
  l.surroundings.Offers "_" ∨ ∃ i ∈ l.surroundings.imports, i.name = "_"

/-- An identifier of a file that spells the blank name and starts at a place has to do with members,
and some import of the file gives the blank name something to denote. -/
def Lent (linked : List (SourceFile × Linked)) (f : SourceFile) (spot : Spot) : Prop :=
  ∀ x ∈ sitesOf (some f.tree) none f.tree.children, x.isIdentifier → f.text x.node = "_" →
    spot = ⟨f.path, x.node.start⟩ → isSelected x ∧ ∃ l, (f, l) ∈ linked ∧ l.Lends

theorem lent_of_inside {size : Nat} {blanks : List (Option Object)} {a : Action}
    (hr : Parsed size g.tree) (hsame : g.path = f.path → g = f) (hl : (g, l) ∈ linked)
    (hfile : l.surroundings.file = g.path)
    (hblanks : ∀ o, some o ∈ blanks → o.kind = .package → l.Lends)
    (ha : a.Inside g.content g.tree) (hn : a.Records l.surroundings blanks n) :
    Lent linked f ⟨l.surroundings.file, n.start⟩ := by
  intro x hx hxi hblank hspot
  rw [hfile] at hspot
  obtain ⟨hpath, hstart⟩ := Spot.mk.inj hspot
  obtain rfl := hsame hpath
  obtain ⟨q, d, c, hd, hc, -, hplaced⟩ := ha
  -- the name that is recorded stands at the identifier itself
  have hat : ∀ {y : Site}, y ∈ sites (some d) (some q) c → y.isIdentifier →
      Ident.of g.content y.node = n → y = x ∧ n.name = "_" := by
    rintro y hy hyi rfl
    obtain rfl := Site.eq_of_start hr (hd.mem_sitesOf hc hy) hyi hx hxi hstart
    exact ⟨rfl, hblank⟩
  have hselected : Selected g.content (sites (some d) (some q) c) n →
      isSelected x ∧ n.name = "_" := by
    rintro ⟨y, hy, hyi, -, he, hs⟩
    obtain ⟨rfl, hname⟩ := hat hy hyi he
    exact ⟨hs, hname⟩
  cases a with
  | use m soft =>
    obtain ⟨rfl, hne⟩ := hn
    obtain ⟨y, hy, hyi, -, he⟩ := hplaced
    exact (hne (hat hy hyi he).2).elim
  | short m type =>
    obtain ⟨rfl, hne⟩ := hn
    obtain ⟨y, hy, hk, -, he, -⟩ := hplaced
    have hyi : y.isIdentifier := by rw [Site.isIdentifier, hk]; rfl
    exact (hne (hat hy hyi he).2).elim
  | member operand field =>
    obtain ⟨rfl, hoffers⟩ := hn
    obtain ⟨hs, hname⟩ := hselected hplaced
    exact ⟨hs, l, hl, .inl (hname ▸ hoffers)⟩
  | qualified package name =>
    rcases hn with ⟨rfl, hdenotes⟩ | ⟨rfl, hoffers⟩
    · obtain ⟨hs, hname⟩ := hselected hplaced.1
      obtain ⟨o, ho, hk⟩ := hdenotes hname
      exact ⟨hs, l, hl, hblanks o ho hk⟩
    · obtain ⟨hs, hname⟩ := hselected hplaced.2
      exact ⟨hs, l, hl, .inl (hname ▸ hoffers)⟩
  | declare m kind type => exact hn.elim
  | typed start stop type => exact hn.elim

/-- A file has a function of the blank name at the top level. -/
def HasBlank (f : SourceFile) : Prop :=
  ∃ t ∈ f.tree.named, t.kind = .functionDeclaration ∧ t.functionName f.content = "_"

namespace Declared

theorem objects_blank (package : String) (f : SourceFile) (t : Tree) :
    (∃ x ∈ objects package f t, x.2 = true ∧ x.1.name = "_") ↔
      t.kind = .functionDeclaration ∧ t.functionName f.content = "_" := by
  constructor
  · rintro ⟨x, hx, hbound, hname⟩
    unfold objects at hx
    split at hx
    · next hk =>
      obtain ⟨n, hn, rfl⟩ := List.mem_map.mp hx
      have hn : t.part? .name = some n := by simpa using hn
      exact ⟨hk, by rw [Tree.functionName, hn]; exact hname⟩
    -- the others are bound unless they have the blank name
    · obtain ⟨n, -, rfl⟩ := List.mem_map.mp hx
      exact (bne_iff_ne.mp hbound hname).elim
    · obtain ⟨n, -, rfl⟩ := List.mem_map.mp hx
      exact (bne_iff_ne.mp hbound hname).elim
    · obtain ⟨n, -, rfl⟩ := List.mem_map.mp hx
      exact (bne_iff_ne.mp hbound hname).elim
    · cases hx
  · rintro ⟨hk, hname⟩
    cases hn : t.part? .name with
    | none =>
      simp [Tree.functionName, Tree.text?, hn] at hname
    | some n =>
      rw [Tree.functionName, hn] at hname
      let o := objectAt package f.path (Ident.of f.content n) .func (some (signature f.content t))
      have hmem : (o, o.name != "init") ∈ objects package f t := by simp [objects, hk, hn, o]
      have ho : o.name = "_" := hname
      exact ⟨_, hmem, by simp [ho], ho⟩

theorem lookup_blank (package : String) (fs : List SourceFile) :
    ((ofFiles package fs).names.lookup "_").isSome ↔ ∃ f ∈ fs, HasBlank f := by
  have hobjects : (∃ x ∈ objectsOf package fs, x.2 = true ∧ x.1.name = "_") ↔
      ∃ f ∈ fs, ∃ t ∈ f.tree.named, ∃ x ∈ objects package f t, x.2 = true ∧ x.1.name = "_" := by
    simp only [objectsOf, List.mem_flatMap]
    grind
  simp only [HasBlank, ← objects_blank package]
  rw [← hobjects, ← Option.isSome_map, core_lookup, Option.isSome_map, List.find?_isSome]
  simp

theorem kind_of_lookup_blank (h : (ofFiles package fs).names.lookup "_" = some o) :
    o.kind = .func := by
  have hcore := core_lookup package "_" fs
  rw [h, Option.map_some] at hcore
  obtain ⟨x, hx, he⟩ := Option.map_eq_some_iff.mp hcore.symm
  obtain ⟨hbound, hname⟩ : x.2 = true ∧ x.1.name = "_" := by simpa using List.find?_some hx
  have hiff := (bound_iff_of_mem_objectsOf (List.mem_of_find?_eq_some hx)).mp hbound
  have hkind : x.1.kind = o.kind := congrArg (·.2.1) he
  by_contra hne
  rw [if_neg (hkind ▸ hne)] at hiff
  exact hiff hname

end Declared

namespace Linked

/-- An import that is given no name goes by the one that its package declares, or by the one that its
path suggests. -/
theorem lookup_frame_blank {A : String → Handle → Prop} {answers : List (Import × Handle)}
    (h : Resolves A package f l answers) :
    (l.frame.lookup "_").isSome ↔
      ∃ a ∈ answers, a.1.givenName.getD "" = "" ∧ boundName.unaliased a.1 a.2 = "_" := by
  have hfollowed : ∀ a ∈ answers, a.1.givenName ≠ some "_" := by
    intro a ha
    have hmem : a.1 ∈ f.imports.filter isFollowed := h.imports ▸ List.mem_map_of_mem ha
    simpa [isFollowed] using (List.mem_filter.mp hmem).2
  have hname : ∀ a ∈ answers, (a.1.givenName ≠ some "." ∧ boundName a.1 a.2 = "_") ↔
      a.1.givenName.getD "" = "" ∧ boundName.unaliased a.1 a.2 = "_" := by
    intro a ha
    have hne := hfollowed a ha
    unfold boundName
    cases hgiven : a.1.givenName with
    | none => simp
    | some given =>
      by_cases hempty : given = ""
      · simp [hempty]
      · have hblank : given ≠ "_" := fun he => hne (he ▸ hgiven)
        simp [hempty, hblank]
  rw [lookup_frame, Option.isSome_map, List.find?_isSome, h.linked, imports_ofAnswers]
  simp only [List.mem_map, List.mem_filter, decide_eq_true_eq, beq_iff_eq]
  constructor
  · rintro ⟨-, ⟨a, ⟨ha, hdot⟩, rfl⟩, hblank⟩
    exact ⟨a, ha, (hname a ha).mp ⟨hdot, hblank⟩⟩
  · rintro ⟨a, ha, hblank⟩
    obtain ⟨hdot, hbound⟩ := (hname a ha).mpr hblank
    exact ⟨_, ⟨a, ⟨ha, hdot⟩, rfl⟩, hbound⟩

theorem lends_of_lookup (h : l.frame.lookup "_" = some o) : l.Lends := by
  rw [lookup_frame] at h
  obtain ⟨i, hi, -⟩ := Option.map_eq_some_iff.mp h
  have hname : i.name = "_" := by simpa using List.find?_some hi
  exact .inr ⟨i, List.mem_of_find?_eq_some hi, hname⟩

end Linked

/-- What the blank name denotes where the declarations of a file begin. -/
def blanksAround (names : Frame) (l : Linked) : List (Option Object) :=
  [l.frame.lookup "_", names.lookup "_", none]

/-- The states gone through while the declarations of a file are bound. -/
def statesOf (names : Frame) (s : State) (f : SourceFile) (l : Linked) : List State :=
  State.passedAll l.surroundings { s with scope := [l.frame, names, universeFrame] }
    (fileBindings f.content f.tree)

theorem bindFile_mem_statesOf (names : Frame) (s : State) (f : SourceFile) (l : Linked) :
    bindFile names s f l ∈ statesOf names s f l :=
  State.followAll_mem_passedAll _

theorem lends_of_mem_blanksAround (ho : some o ∈ blanksAround (Declared.ofFiles package fs).names l)
    (hk : o.kind = .package) : l.Lends := by
  simp only [blanksAround, List.mem_cons, List.not_mem_nil, or_false, reduceCtorEq] at ho
  rcases ho with ho | ho
  · exact Linked.lends_of_lookup ho.symm
  · rw [Declared.kind_of_lookup_blank ho.symm] at hk
    cases hk

theorem Outcome.lent (hparsed : ∀ gl ∈ linked, ∃ size, Parsed size gl.1.tree)
    (hfiles : ∀ gl ∈ linked, gl.2.surroundings.file = gl.1.path)
    (hsame : ∀ gl ∈ linked, gl.1.path = f.path → gl.1 = f) (spot : Spot)
    (hspot : ((ofLinked package fs linked).info.uses.lookup spot).isSome) : Lent linked f spot := by
  let names := (Declared.ofFiles package fs).names
  suffices h : ∀ spot, ((ofLinked package fs linked).info.uses.lookup spot).isSome →
      Lent linked f spot from h spot hspot
  apply List.foldlRecOn (motive := fun s : State =>
    ∀ spot, (s.info.uses.lookup spot).isSome → Lent linked f spot)
  · exact nofun
  · rintro s hs ⟨g, l⟩ hgl
    obtain ⟨size, hr⟩ := hparsed (g, l) hgl
    have hstart : State.Blank (Lent linked f) (blanksAround names l)
        { s with scope := [l.frame, names, universeFrame] } := ⟨⟨0, rfl⟩, hs⟩
    have hlent : ∀ a : Action, a.Inside g.content g.tree → ∀ n,
        a.Records l.surroundings (blanksAround names l) n →
          Lent linked f ⟨l.surroundings.file, n.start⟩ := fun a ha n hn =>
      lent_of_inside hr (hsame (g, l) hgl) hgl (hfiles (g, l) hgl)
        (fun _ => lends_of_mem_blanksAround) ha hn
    have hall := EachOf.imp hlent _ (fileBindings_inside g.content hr)
    exact (State.blank_followAll (List.cons_ne_nil _ _) _ _ hstart hall).uses

/-- What files of a package bind the blank name to when they are checked with what their imports bring
in, and where they use it. -/
structure BlankBound (package : String) (linked : List (SourceFile × Linked)) (o : Outcome) :
    Prop where
  /-- The scope of the package binds the name of a function. -/
  inPackage : (o.handle.member? "_").isSome ↔ ∃ f ∈ linked.map (·.1), HasBlank f
  /-- The scope of a file binds the names of its imports. -/
  inFile : ∀ f l, (f, l) ∈ linked → ∃ answers, Linked.Resolves (fun _ _ => True) package f l answers ∧
    ((l.frame.lookup "_").isSome ↔
      ∃ a ∈ answers, a.1.givenName.getD "" = "" ∧ Linked.boundName.unaliased a.1 a.2 = "_")
  /-- Around these two and inside them no scope binds it at any time. -/
  elsewhere : ∀ f l, (f, l) ∈ linked → ∀ s, ∀ t ∈ statesOf o.handle.names s f l,
    ∃ depth, t.scope.blanks = List.replicate depth none ++ blanksAround o.handle.names l
  /-- It is used where members are selected, if an import makes it denote something. -/
  uses : ∀ f l, (f, l) ∈ linked → ∀ x ∈ sitesOf (some f.tree) none f.tree.children,
    x.isIdentifier → f.text x.node = "_" → (o.info.uses.lookup ⟨f.path, x.node.start⟩).isSome →
      isSelected x ∧ ∃ l, (f, l) ∈ linked ∧ l.Lends

namespace Checks

variable {ws : Workspace} {i : TypeInfo}

theorem Finds.blank (hws : ws.Loaded) (h : Finds ws fs i) : ∃ package linked,
    linked.map (·.1) = fs ∧ i = (Outcome.ofLinked package fs linked).info ∧
      BlankBound package linked (Outcome.ofLinked package fs linked) := by
  obtain ⟨hfs, package, linked, rfl, rfl, hresolves⟩ := h.linked hws
  have hmem : ∀ gl ∈ linked, gl.1 ∈ ws.files true := fun gl hgl => hfs (List.mem_map_of_mem hgl)
  refine ⟨package, linked, rfl, rfl, ?_, ?_, ?_, ?_⟩
  · exact Declared.lookup_blank package (linked.map (·.1))
  · intro f l hl
    obtain ⟨answers, hr⟩ := hresolves (f, l) hl
    exact ⟨answers, hr.imp fun _ _ _ => trivial, Linked.lookup_frame_blank hr⟩
  · intro f l hl s t ht
    exact State.blanks_passedAll _ _ (List.cons_ne_nil _ _) t ht
  · intro f l hl x hx hxi hname huse
    have hlent := Outcome.lent (f := f) (fun gl hgl => hws.parsed gl.1 (hmem gl hgl))
      (fun gl hgl => by
        obtain ⟨answers, hr⟩ := hresolves gl hgl
        rw [hr.linked]
        exact (Linked.ofAnswers_handles package gl.1 hr.answered).1)
      (fun gl hgl he => List.inj_on_of_nodup_map hws.paths (hmem gl hgl) (hmem _ hl) he) _ huse
    exact hlent x hx hxi hname rfl

/-- Whatever is checked, nothing but a function at the top level or an import is ever bound to the blank
name, so that a package has a member of that name only if one of its files has such a function. -/
theorem blank_exact {s : Files.Store} {root : String} {respectIgnore : Bool} {log : List LogRecord}
    (hs : s.Proper) (hws : Load.workspace s root respectIgnore = (.ok ws, log)) :
    (∀ rs, ∀ p ∈ ws.packages, ∀ h, (performAll ws {} rs).typed? p = some h →
      ((h.member? "_").isSome ↔ ∃ f ∈ p.files, HasBlank f)) ∧
    ∀ fs i, Finds ws fs i → ∃ package linked, linked.map (·.1) = fs ∧
      i = (Outcome.ofLinked package fs linked).info ∧
      BlankBound package linked (Outcome.ofLinked package fs linked) := by
  have hloaded := Load.loaded hs hws
  refine ⟨?_, fun fs i h => h.blank hloaded⟩
  intro rs p hp h hh
  obtain ⟨hsound, -⟩ := performAll_sound hloaded.distinct (sound_empty ws) rs
  obtain ⟨hlookup, -⟩ := Option.filter_eq_some_iff.mp hh
  have hbegun : (performAll ws {} rs).Begun p := by
    by_contra hnot
    rw [hsound.untouched p hp hnot] at hlookup
    cases hlookup
  obtain ⟨complete, hhandle⟩ := hsound.handle p hp hbegun
  obtain rfl := Option.some.inj (hlookup.symm.trans hhandle)
  exact Declared.lookup_blank p.key p.files

/-- A function of the blank name. -/
def nameless : ByteArray :=
  "package p\n\nfunc _() \x7b\x7d\n".toUTF8

/-- Its package has a member of the blank name. -/
theorem blank_exact_nameless : ∃ ws log p h,
    Load.workspace (Load.sole nameless) "/ws" true = (.ok ws, log) ∧ p ∈ ws.packages ∧
    (∃ rs, (performAll ws {} rs).typed? p = some h) ∧ (∃ f ∈ p.files, HasBlank f) ∧
    (h.member? "_").isSome := by
  obtain ⟨tree, htree, hname, himports, htyped, u, hu, hk, hblank⟩ : ∃ tree ∈ parse? nameless,
      tree.packageName nameless = "p" ∧ tree.imports nameless = [] ∧
      ((performAll (Load.soleWorkspace nameless tree) {}
        [.check (Load.solePackage nameless tree) (List.mem_singleton_self _)]).typed?
          (Load.solePackage nameless tree)).isSome = true ∧
      ∃ u ∈ tree.named, u.kind = .functionDeclaration ∧ u.functionName nameless = "_" := by
    decide +kernel
  obtain ⟨log, hload⟩ := (Load.single_sole nameless).workspace htree hname himports
  let f := Load.soleFile "/ws/main.go" nameless tree {}
  let p := Load.solePackage nameless tree
  have hp : p ∈ (Load.soleWorkspace nameless tree).packages := List.mem_singleton_self p
  obtain ⟨h, hh⟩ := Option.isSome_iff_exists.mp htyped
  have hblank : ∃ f ∈ p.files, HasBlank f := ⟨f, List.mem_singleton_self f, u, hu, hk, hblank⟩
  obtain ⟨hmember, -⟩ := blank_exact (Load.proper_sole nameless) hload
  exact ⟨_, log, p, h, hload, hp, ⟨_, hh⟩, hblank, (hmember _ p hp h hh).mpr hblank⟩

end Checks

end GoAtlas.Check
