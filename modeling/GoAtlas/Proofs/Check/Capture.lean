import GoAtlas.Proofs.Check.Precedence
import GoAtlas.Proofs.Check.Requests

namespace GoAtlas.Check

open Syntax

-- `es` is all that a file does with names, `done` what of it has come to pass
variable {package : String} {f g : SourceFile} {o : Object} {x : Effect}
  {es done rest : List Effect}

def Object.TopIn (f : SourceFile) (o : Object) : Prop :=
  ∀ b, o.spot = some ⟨f.path, b⟩ → ∃ m, TopName f.tree m ∧ m.start = b

def Object.DeclaredIn (f : SourceFile) (done : List Effect) (o : Object) : Prop :=
  ∀ b, o.spot = some ⟨f.path, b⟩ →
    (∃ m, TopName f.tree m ∧ m.start = b) ∨ ∃ x ∈ done, x.isBinding ∧ x.start = b

theorem Object.TopIn.declared (h : o.TopIn f) (done : List Effect) : o.DeclaredIn f done :=
  fun b hb => .inl (h b hb)

theorem Object.topIn_of_spot (h : o.spot = none) : o.TopIn f := by
  simp [TopIn, h]

theorem Object.DeclaredIn.append (h : o.DeclaredIn f done) (more : List Effect) :
    o.DeclaredIn f (done ++ more) := by
  intro b hb
  rcases h b hb with htop | ⟨x, hx, hbound⟩
  · exact .inl htop
  · exact .inr ⟨x, List.mem_append_left more hx, hbound⟩

def Denoted (f : SourceFile) (es : List Effect) (uses : Dict Spot Object) : Prop :=
  ∀ b o, uses.lookup ⟨f.path, b⟩ = some o → ∃ before y rest, es = before ++ y :: rest ∧
    y.start = b ∧ y.isDeclaration = false ∧ o.DeclaredIn f before

theorem Denoted.put {uses : Dict Spot Object} (h : Denoted f es uses)
    (hes : es = done ++ x :: rest) (hx : x.isDeclaration = false) (ho : o.DeclaredIn f done) :
    Denoted f es (uses.put ⟨f.path, x.start⟩ o) := by
  intro b o' ho'
  obtain ⟨he, rfl⟩ | ho' := Dict.cases_of_lookup_put ho'
  · have hb : b = x.start := congrArg Spot.offset he
    exact ⟨done, x, rest, hes, hb.symm, hx, ho⟩
  · exact h b o' ho'

namespace State

variable {e : Surroundings} {s : State}

/-- Scopes and uses when some of the effects of a file have come to pass. -/
structure Follows (f : SourceFile) (es done : List Effect) (s : State) : Prop where
  scope : ∀ fr ∈ s.scope, Frame.Binds (Object.DeclaredIn f done) fr
  uses : Denoted f es s.info.uses

theorem Follows.append (h : s.Follows f es done) (more : List Effect) :
    s.Follows f es (done ++ more) :=
  ⟨fun fr hfr => (h.scope fr hfr).imp fun _ ho => ho.append more, h.uses⟩

theorem Follows.fail (h : s.Follows f es done) (n : Ident) (message : String) :
    (s.fail e n message).Follows f es done :=
  ⟨h.scope, h.uses⟩

theorem Follows.declare (h : s.Follows f es done) (hx : x.isBinding) (kind : ObjectKind)
    (type : Option String) : (s.declare e x.name kind type).Follows f es (done ++ [x]) := by
  unfold State.declare
  split
  · exact h.append [x]
  · refine ⟨?_, h.uses⟩
    apply Scope.bind_binds (h.append [x]).scope
    intro b hb
    have hstart : x.start = b := congrArg Spot.offset (Option.some.inj hb)
    exact .inr ⟨x, by simp, hx, hstart⟩

section

variable (he : e.Sees package (Object.TopIn f) f)
include he

theorem Follows.recordUse (h : s.Follows f es done) (hes : es = done ++ x :: rest)
    (hx : x.isDeclaration = false) (ho : o.DeclaredIn f done) :
    (s.recordUse e x.name o).Follows f es (done ++ [x]) := by
  refine ⟨?_, ?_⟩
  · rw [scope_recordUse]
    exact (h.append [x]).scope
  · rw [recordUse_uses, he.file]
    exact h.uses.put hes hx ho

theorem Follows.denotes? (h : s.Follows f es done) {name : String}
    (hd : s.denotes? e name = some o) : o.DeclaredIn f done := by
  have hdots : ∀ m ∈ e.dots, Frame.Binds (Object.DeclaredIn f done) m.names :=
    fun m hm => (he.dots m hm).imp fun _ ho => ho.declared done
  exact (denotes?_binds (fun _ ho => (Object.topIn_of_spot ho).declared done) h.scope hdots hd).2

theorem Follows.use (h : s.Follows f es done) (hes : es = done ++ x :: rest)
    (hx : x.isDeclaration = false) (soft : Bool) :
    (s.use e x.name soft).Follows f es (done ++ [x]) := by
  unfold State.use
  split
  · exact h.append [x]
  split
  · next o ho => exact h.recordUse he hes hx (h.denotes? he ho)
  split
  · exact h.append [x]
  · exact (h.append [x]).fail _ _

theorem Follows.useMember (h : s.Follows f es done) (hes : es = done ++ x :: rest)
    (hx : x.isDeclaration = false) (imported : Object) :
    (s.useMember e imported x.name).Follows f es (done ++ [x]) := by
  unfold State.useMember
  cases hi : e.imports.find? (·.name == imported.name) with
  | none => exact h.append [x]
  | some i =>
    have himport := he.imports i (List.mem_of_find?_eq_some hi)
    dsimp only
    cases hm : i.handle.member? x.name.name with
    | some o =>
      have ho := Handle.member_binds (fun _ => Object.topIn_of_spot) himport hm
      exact h.recordUse he hes hx (ho.2.declared done)
    | none =>
      dsimp only
      split
      · exact (h.append [x]).fail _ _
      · exact h.append [x]

theorem Follows.act {a : Action} (h : s.Follows f es done)
    (hes : es = done ++ (a.effects ++ rest)) : (s.act e a).Follows f es (done ++ a.effects) := by
  cases a with
  | use n soft => exact h.use he hes rfl soft
  | declare n kind type =>
    have hx : (Effect.declare n kind).isBinding := rfl
    exact h.declare hx kind type
  | short n type =>
    have hx : (Effect.either n).isBinding := rfl
    simp only [State.act]
    split
    · exact h.use he hes rfl false
    · exact h.declare hx .var type
  | member operand field =>
    simp only [State.act]
    split
    · split
      · exact h.useMember he hes rfl _
      · exact h.append _
    · exact h.append _
  | qualified package' name =>
    simp only [State.act]
    split
    · next o ho =>
      split
      · have hfirst := h.recordUse he hes rfl (Scope.lookup_binds h.scope ho).2
        have hes' : es = done ++ [.use package'] ++ .use name :: rest := by
          rw [hes, List.append_assoc]
          rfl
        have hsecond := hfirst.useMember he hes' rfl o
        rw [List.append_assoc] at hsecond
        exact hsecond
      · exact (h.append _).fail _ _
    · exact (h.append _).fail _ _
  | typed start stop type => exact ⟨(h.append _).scope, h.uses⟩

end

mutual
theorem follows_follow (he : e.Sees package (Object.TopIn f) f) : (b : Binding) →
    ∀ (s : State) (done rest : List Effect), es = done ++ (b.effects ++ rest) →
      s.Follows f es done → (s.follow e b).Follows f es (done ++ b.effects)
  | .act _, _, _, _, hes, h => h.act he hes
  | .scope body, s, done, rest, hes, h => by
    have hin : s.enter.Follows f es done := ⟨List.forall_mem_cons.mpr ⟨nofun, h.scope⟩, h.uses⟩
    have hbody := follows_followAll he body s.enter done rest hes hin
    rw [follow_scope]
    exact ⟨(h.append _).scope, hbody.uses⟩

theorem follows_followAll (he : e.Sees package (Object.TopIn f) f) : (bs : List Binding) →
    ∀ (s : State) (done rest : List Effect), es = done ++ (effectsOf bs ++ rest) →
      s.Follows f es done → (s.followAll e bs).Follows f es (done ++ effectsOf bs)
  | [], _, _, _, _, h => h.append []
  | b :: bs, s, done, rest, hes, h => by
    rw [effectsOf, List.append_assoc] at hes
    have hfirst := follows_follow he b s done _ hes h
    rw [effectsOf, ← List.append_assoc]
    apply follows_followAll he bs (s.follow e b) (done ++ b.effects) rest _ hfirst
    rw [hes, List.append_assoc]
end

end State

theorem fileBindings_from (source : ByteArray) (root : Tree) :
    EachOf (·.From source root.walk) (fileBindings source root) := by
  apply EachOf.flatMap
  intro t ht
  apply bindings_from source root.walk t .topLevel trivial _ nofun
  intro u hu
  exact Tree.child_mem_walk (TopName.mem_of_named ht) hu

/-- The uses of a file are left alone by the other files. -/
theorem bindFile_uses_ne {names : Frame} {l : Linked} {s : State} {spot : Spot}
    (hl : l.surroundings.file = g.path) (hne : spot.file ≠ g.path) :
    (bindFile names s g l).info.uses.lookup spot = s.info.uses.lookup spot := by
  have hdiff := State.DiffersAt.followAll (e := l.surroundings) _
    { s with scope := [l.frame, names, universeFrame] } (fileBindings_from g.content g.tree)
  by_contra hchanged
  obtain ⟨u, -, hu⟩ := hdiff.uses spot hchanged
  rw [hu] at hne
  exact hne hl

theorem bindFile_denoted {names : Frame} {l : Linked} {s : State}
    (hl : l.surroundings.Sees package (Object.TopIn f) f)
    (hnames : Frame.Binds (Object.TopIn f) names)
    (hs : Denoted f (effectsOf (fileBindings f.content f.tree)) s.info.uses) :
    Denoted f (effectsOf (fileBindings f.content f.tree)) (bindFile names s f l).info.uses := by
  have hstart : State.Follows f (effectsOf (fileBindings f.content f.tree)) []
      { s with scope := [l.frame, names, universeFrame] } := by
    refine ⟨?_, hs⟩
    apply l.scope_binds fun _ ho => (Object.topIn_of_spot ho).declared []
    exact hnames.imp fun _ ho => ho.declared []
  exact (State.follows_followAll hl _ _ [] [] (List.append_nil _).symm hstart).uses

theorem Outcome.denoted {own : List SourceFile} {linked : List (SourceFile × Linked)}
    (hnames : Frame.Binds (Object.TopIn f) (Declared.ofFiles package own).names)
    (hfiles : ∀ gl ∈ linked, gl.2.surroundings.file = gl.1.path)
    (hl : ∀ gl ∈ linked, gl.1.path = f.path →
      gl.1 = f ∧ gl.2.surroundings.Sees package (Object.TopIn f) f) :
    Denoted f (effectsOf (fileBindings f.content f.tree))
      (ofLinked package own linked).info.uses := by
  apply List.foldlRecOn (motive := fun s : State =>
    Denoted f (effectsOf (fileBindings f.content f.tree)) s.info.uses)
  · exact nofun
  · rintro s hs ⟨g, l⟩ hgl
    by_cases hpath : g.path = f.path
    · obtain ⟨rfl, hsees⟩ := hl (g, l) hgl hpath
      exact bindFile_denoted hsees hnames hs
    · intro b o ho
      have hne : (⟨f.path, b⟩ : Spot).file ≠ g.path := fun he => hpath he.symm
      rw [bindFile_uses_ne (hfiles (g, l) hgl) hne] at ho
      exact hs b o ho

def functionKinds : List Kind :=
  [.functionDeclaration, .methodDeclaration, .funcLiteral]

/-- A node stands in a function or in a function literal. -/
def InFunction (root n : Tree) : Prop :=
  ∃ fn ∈ root.walk, Kind.among functionKinds fn.kind ∧ n ∈ fn.walk

section

variable {root t m y left : Tree} {size : Nat} {l r : Field}

theorem laid_of_mem_walk (hr : Parsed size root) (ht : t ∈ root.walk) (hne : t ≠ root) :
    t.Laid {} := by
  obtain ⟨c, hc, ht⟩ := (Tree.mem_walk_iff.mp ht).resolve_left hne
  exact (Tree.walk_within c (hr.row.mem hc).2.2.1 t ht).2.2

theorem inPart_of_mem_walk {fd : Field} (hl : t.Laid {}) (hleft : left ∈ t.parts fd)
    (hy : y ∈ left.walk) (hyi : y.kind.isIdentifier) : InPart t fd y.start := by
  obtain ⟨hchild, hfield⟩ := List.mem_filter.mp hleft
  have hlc := (hl.row.mem hchild).2.2.1
  have hly := (Tree.walk_within left hlc y hy).2.2
  have hcovers := covers_start hly (Kind.isMark_of_isIdentifier hyi)
  exact ⟨left, hchild, of_decide_eq_true hfield, hlc.covers hy hcovers⟩

theorem InFunction.not_declares (hr : Parsed size root) (h : InFunction root t) {q : Tree} {b : Nat}
    (hb : t.Covers b) (hk : t.kind.bindingParts ≠ none) : ¬Declares root q t := by
  obtain ⟨fn, hfn, hfunction, ht⟩ := h
  intro hd
  have hne : fn ≠ root := by
    rintro rfl
    rw [hr.kind] at hfunction
    cases hfunction
  have hcovers := (laid_of_mem_walk hr hfn hne).covers ht hb
  rcases hd.above hr hb hfn hcovers with he | hgroup | hin
  · exact hne he
  · have hother := Kind.of_among (P := fun k => !Kind.among functionKinds k) hgroup rfl
    rw [hfunction] at hother
    cases hother
  · obtain rfl := Tree.walk_antisymm hin ht
    exact hk (Kind.bindingParts_of_among hfunction rfl)

theorem TopName.declares_of_covers (hr : Parsed size root) (hm : TopName root m)
    (ht : t ∈ root.walk) (hk : t.kind.bindingParts ≠ none) (hcovers : t.Covers m.start) :
    ∃ q, Declares root q t := by
  obtain ⟨-, hmark⟩ := hm.mark hr
  obtain ⟨q, d, hd, hname⟩ := hm
  have hld := hd.laid hr
  have hmd := (List.mem_filter.mp hname).1
  have hlm := (hld.row.mem hmd).2.2.1
  have hmm := covers_start hlm hmark
  have hdm := hld.covers (Tree.child_mem_walk hmd m.self_mem_walk) hmm
  rcases hd.above hr hdm ht hcovers with rfl | hgroup | hin
  · exact (hk (by rw [hr.kind]; rfl)).elim
  · exact (hk (Kind.bindingParts_of_among hgroup rfl)).elim
  · rcases hld.row.below hmd hmm hin hcovers with rfl | hin
    · exact ⟨q, hd⟩
    · rw [walk_of_isMark hlm hmark, List.mem_singleton] at hin
      rw [hin] at hk
      exact (hk (Kind.bindingParts_of_isMark hmark)).elim

theorem Declares.bindingParts_left {q : Tree} (h : Declares root q t)
    (hk : t.kind.bindingParts = some (l, r)) : l = .name := by
  have hname := h.declaresName
  generalize t.kind = k at hk hname
  cases k <;> first | (cases hk; done) | (cases hk; rfl) | cases hname

end

namespace Checks

variable {ws : Workspace} {c : Checks} {i : TypeInfo} {own fs : List SourceFile}

theorem names_topIn (hws : ws.Loaded) (hown : own ⊆ ws.files true) (hf : f ∈ ws.files true)
    (package : String) : Frame.Binds (Object.TopIn f) (Declared.ofFiles package own).names := by
  apply Declared.ofFiles_binds
  · intro name o ho b hb
    rw [Declared.withMethod_spot] at hb
    exact ho b hb
  · intro g hg t ht x hx b hb
    obtain ⟨size, hparsed⟩ := hws.parsed g (hown hg)
    obtain ⟨m, -, htop, he⟩ := Declared.objects_top hparsed ht hx
    rw [he] at hb
    have hspot : (⟨g.path, m.start⟩ : Spot) = ⟨f.path, b⟩ := Option.some.inj hb
    obtain ⟨hpath, rfl⟩ := Spot.mk.inj hspot
    obtain rfl := List.inj_on_of_nodup_map hws.paths (hown hg) hf hpath
    exact ⟨m, htop.top, rfl⟩

theorem Answer.topIn (hws : ws.Loaded) {path : String} {h : Handle} (ha : Answer ws c path h)
    (hf : f ∈ ws.files true) : Frame.Binds (Object.TopIn f) h.names := by
  cases ha with
  | outside => exact nofun
  | @inside q _ hq => exact names_topIn hws (Workspace.files_subset hq) hf q.key

/-- What the checks of a workspace find out: about the files of a package that has been asked for,
or about any files that are checked under a name of their own. -/
inductive Finds (ws : Workspace) : List SourceFile → TypeInfo → Prop
  | package {p : Package} {i : TypeInfo} (rs : List (Request ws)) : p ∈ ws.packages →
      (performAll ws {} rs).info? p = some i → Finds ws p.files i
  | files {fs : List SourceFile} (rs : List (Request ws)) (path : String) : fs ⊆ ws.files true →
      Finds ws fs (checkAs ws path fs (performAll ws {} rs)).1.info

def TopLevel (ws : Workspace) (h : Handle) : Prop :=
  ∀ f ∈ ws.files true, Frame.Binds (Object.TopIn f) h.names

theorem checkAs_answering (hws : ws.Loaded) (hfs : fs ⊆ ws.files true) (path : String) :
    Linked.Answering
      (fun imported c =>
        if imported = path then (.ok (placeholder path fs), c) else importPath ws imported c)
      (fun _ => True) (Sound ws) (Grows ws) (fun _ _ h => TopLevel ws h) (fun _ _ => True) where
  refl := .refl ws
  trans := .trans
  allowed _ h := h
  known _ _ := trivial
  answer imported c _ hc := by
    split
    · exact ⟨_, c, rfl, hc, .refl ws c, fun f hf => names_topIn hws hfs hf path, trivial⟩
    · obtain ⟨h, d, he, hd, hgrows, hanswer, -⟩ :=
        (ensures_ensure hws.distinct).follow (fun _ h => h) imported c hc
      exact ⟨h, d, he, hd, hgrows, fun f hf => hanswer.topIn hws hf, trivial⟩

/-- A check goes through the files one after the other, with what their imports bring in. -/
theorem Finds.linked (hws : ws.Loaded) (h : Finds ws fs i) : fs ⊆ ws.files true ∧
    ∃ package linked, linked.map (·.1) = fs ∧ i = (Outcome.ofLinked package fs linked).info ∧
      ∀ fl ∈ linked, ∃ answers,
        Linked.Resolves (fun _ h => TopLevel ws h) package fl.1 fl.2 answers := by
  cases h with
  | @package p i rs hp hi =>
    obtain ⟨-, hgrows⟩ := performAll_sound hws.distinct (sound_empty ws) rs
    obtain ⟨linked, hl, hinfo, -⟩ :=
      hgrows.ended p hp (by simp [Begun, info?]) (begun_of_info hi)
    refine ⟨Workspace.files_subset hp, p.key, linked, hl.files, ?_, ?_⟩
    · exact Option.some.inj (hi.symm.trans hinfo)
    · intro fl hfl
      obtain ⟨answers, hr⟩ := hl.resolves fl hfl
      exact ⟨answers, hr.imp fun _ _ ha f hf => ha.topIn hws hf⟩
  | files rs path hfs =>
    obtain ⟨hsound, -⟩ := performAll_sound hws.distinct (sound_empty ws) rs
    obtain ⟨linked, d, hl, hfiles, hresolves, -⟩ :=
      (checkAs_answering hws hfs path).files path fs (fun _ _ _ _ _ => trivial) _ hsound
    refine ⟨hfs, path, linked, hfiles, ?_, hresolves⟩
    rw [checkAs, checkFiles, hl]

theorem Finds.denoted (hws : ws.Loaded) (h : Finds ws fs i) (hf : f ∈ fs) :
    Denoted f (effectsOf (fileBindings f.content f.tree)) i.uses := by
  obtain ⟨hfs, package, linked, rfl, rfl, hresolves⟩ := h.linked hws
  apply Outcome.denoted (names_topIn hws hfs (hfs hf) package)
  · intro gl hgl
    obtain ⟨answers, hr⟩ := hresolves gl hgl
    rw [hr.linked]
    exact (Linked.ofAnswers_handles package gl.1 hr.answered).1
  · intro gl hgl hpath
    obtain ⟨answers, hr⟩ := hresolves gl hgl
    have hg : gl.1 ∈ ws.files true := hfs (List.mem_map_of_mem hgl)
    obtain rfl := List.inj_on_of_nodup_map hws.paths hg (hfs hf) hpath
    obtain ⟨hfile, hpackage, himports, hdots⟩ := Linked.ofAnswers_handles package gl.1 hr.answered
    rw [hr.linked]
    exact ⟨rfl, hfile, hpackage, fun m hm => himports m hm _ hg, fun m hm => hdots m hm _ hg⟩

/-- Whatever is checked, an identifier in what a statement binds names to never denotes one of those
names, however deep it stands. Specifications are meant that stand in a function. -/
theorem value_never_captures {s : Files.Store} {root : String} {respectIgnore : Bool}
    {log : List LogRecord} (hs : s.Proper)
    (hws : Load.workspace s root respectIgnore = (.ok ws, log)) (h : Finds ws fs i) (hf : f ∈ fs)
    {n left right x y : Tree} {l r : Field} (hn : n ∈ f.tree.walk)
    (hk : n.kind.bindingParts = some (l, r)) (hspec : l = .name → InFunction f.tree n)
    (hleft : left ∈ n.parts l) (hy : y ∈ left.walk) (hyi : y.kind.isIdentifier)
    (hright : right ∈ n.parts r) (hx : x ∈ right.walk) (hxi : x.kind.isIdentifier)
    (ho : i.uses.lookup ⟨f.path, x.start⟩ = some o) : o.spot ≠ some ⟨f.path, y.start⟩ := by
  have hloaded := Load.loaded hs hws
  obtain ⟨hfs, -⟩ := h.linked hloaded
  obtain ⟨size, hparsed⟩ := hloaded.parsed f (hfs hf)
  have hbinds : n.kind.bindingParts ≠ none := by simp [hk]
  have hne : n ≠ f.tree := by
    intro he
    rw [he, hparsed.kind] at hk
    cases hk
  have hl := laid_of_mem_walk hparsed hn hne
  have hyl := inPart_of_mem_walk hl hleft hy hyi
  have hxr := inPart_of_mem_walk hl hright hx hxi
  obtain ⟨before, u, rest, hes, hu, hdeclares, hdeclared⟩ := h.denoted hloaded hf x.start o ho
  intro hspot
  rcases hdeclared y.start hspot with ⟨m, htop, hm⟩ | ⟨b, hb, hbinding, hby⟩
  · -- a name at the top level is bound by no statement inside a function
    have hcovers : n.Covers m.start := hm ▸ hyl.covers hl
    obtain ⟨q, hd⟩ := htop.declares_of_covers hparsed hn hbinds hcovers
    exact (hspec (hd.bindingParts_left hk)).not_declares hparsed hcovers hbinds hd
  · -- what the name is bound to has been gone through when the name is declared
    have horder := fileBindings_inOrder f.content hparsed hn hk
    have hagain := horder.declared_again (fileBindings_agree f.content hparsed) hes hb hbinding
      (hby ▸ hyl) (hu ▸ hxr)
    rw [hdeclares] at hagain
    cases hagain

/-- A function with a variable that has the name of its parameter, which the variable's value uses in
a function literal. -/
def rebound : ByteArray :=
  ("package p\n\nfunc f(x int) \x7b\n\t\x7b\n\t\tvar x = func() int \x7b return x \x7d()\n"
    ++ "\t\t_ = x\n\t\x7d\n\x7d\n").toUTF8

/-- The value of the variable denotes the parameter. -/
theorem value_never_captures_rebound : ∃ ws log f i n left right x y o,
    Load.workspace (Load.sole rebound) "/ws" true = (.ok ws, log) ∧ Finds ws [f] i ∧
    n ∈ f.tree.walk ∧ n.kind.bindingParts = some (.name, .value) ∧ InFunction f.tree n ∧
    left ∈ n.parts .name ∧ y ∈ left.walk ∧ y.kind.isIdentifier ∧
    right ∈ n.parts .value ∧ x ∈ right.walk ∧ x.kind.isIdentifier ∧ f.text x = f.text y ∧
    i.uses.lookup ⟨f.path, x.start⟩ = some o ∧ o.spot = some ⟨f.path, 18⟩ ∧
    o.spot ≠ some ⟨f.path, y.start⟩ := by
  obtain ⟨tree, htree, hname, himports, i, hi, fn, hfn, hfunction, n, hn, hk, hbinds⟩ :
      ∃ tree ∈ parse? rebound, tree.packageName rebound = "p" ∧ tree.imports rebound = [] ∧
      ∃ i ∈ (performAll (Load.soleWorkspace rebound tree) {}
          [.check (Load.solePackage rebound tree) (List.mem_singleton_self _)]).info?
            (Load.solePackage rebound tree),
        ∃ fn ∈ tree.walk, Kind.among functionKinds fn.kind = true ∧ ∃ n ∈ fn.walk,
          n.kind.bindingParts = some (.name, .value) ∧
            ((n.parts .name).any fun y => y.kind.isIdentifier && (n.parts .value).any fun right =>
              right.walk.any fun x => x.kind.isIdentifier && x.text rebound == y.text rebound &&
                (i.uses.lookup ⟨"/ws/main.go", x.start⟩).any fun o =>
                  o.spot == some ⟨"/ws/main.go", 18⟩) = true := by
    decide +kernel
  simp only [List.any_eq_true, Option.any_eq_true, Bool.and_eq_true, beq_iff_eq] at hbinds
  obtain ⟨y, hleft, hyi, right, hright, x, hx, ⟨hxi, htext⟩, o, ho, hspot⟩ := hbinds
  obtain ⟨log, hload⟩ := (Load.single_sole rebound).workspace htree hname himports
  let f := Load.soleFile "/ws/main.go" rebound tree {}
  let p := Load.solePackage rebound tree
  have hp : p ∈ (Load.soleWorkspace rebound tree).packages := List.mem_singleton_self p
  have hfinds : Finds (Load.soleWorkspace rebound tree) [f] i := .package _ hp hi
  have hwalk : n ∈ f.tree.walk := Tree.walk_trans tree hfn hn
  have hinside : InFunction f.tree n := ⟨fn, hfn, hfunction, hn⟩
  have hnever := value_never_captures (Load.proper_sole rebound) hload hfinds
    (List.mem_singleton_self f) hwalk hk (fun _ => hinside) hleft (Tree.self_mem_walk y) hyi hright
    hx hxi ho
  exact ⟨_, log, f, i, n, y, right, x, y, o, hload, hfinds, hwalk, hk, hinside, hleft,
    Tree.self_mem_walk y, hyi, hright, hx, hxi, htext, ho, hspot, hnever⟩

end Checks

end GoAtlas.Check
