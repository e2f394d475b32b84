import GoAtlas.Proofs.Check.Frames
import GoAtlas.Proofs.Check.Growth
import GoAtlas.Proofs.Check.TopLevel
import GoAtlas.Proofs.Workspace.Loading

namespace GoAtlas

namespace Check

open Syntax Reference

-- files are given by the name of their package
variable {files : String → List SourceFile} {f : SourceFile} {o : Object} {n : Ident}
  {name : String}

/-- A name is declared inside a declaration of a file. -/
def Ident.Within (f : SourceFile) (n : Ident) : Prop :=
  ∃ q d c, Declares f.tree q d ∧ c ∈ d.children ∧ c.field ≠ some .name ∧
    Bound f.content (sites (some d) (some q) c) n

/-- A name stands at an identifier of a file that does not declare. -/
def Ident.UsedIn (f : SourceFile) (n : Ident) : Prop :=
  Used f.content (sitesOf (some f.tree) none f.tree.children) n

theorem Declares.mem_sitesOf {root q d c : Tree} {s : Site} (h : Declares root q d)
    (hc : c ∈ d.children) (hs : s ∈ sites (some d) (some q) c) :
    s ∈ sitesOf (some root) none root.children := by
  obtain ⟨gq, hsub⟩ := h.sites_subset
  exact hsub (sites_child_subset hc hs)

namespace Object

/-- An object is declared, if anywhere, at a mark of its package that spells its name. -/
def Spelled (files : String → List SourceFile) (o : Object) : Prop :=
  ∀ spot, o.spot = some spot → ∃ f ∈ files o.package, f.path = spot.file ∧
    ∃ t ∈ Tree.walkAll f.tree.children, t.kind.isMark ∧ t.start = spot.offset ∧ f.text t = o.name

/-- An object is declared, if anywhere, inside a declaration of a file. -/
def Local (f : SourceFile) (o : Object) : Prop :=
  ∀ spot, o.spot = some spot → spot.file = f.path ∧
    ∃ n : Ident, n.Within f ∧ n.start = spot.offset ∧ n.name = o.name

theorem spelled_of_spot (h : o.spot = none) : o.Spelled files := by
  simp [Spelled, h]

theorem local_of_spot (h : o.spot = none) : o.Local f := by
  simp [Local, h]

end Object

variable {P Q : Object → Prop} {fr : Frame}

/-- Names are bound to objects that bear them and satisfy `P`. -/
def Frame.Binds (P : Object → Prop) (fr : Frame) : Prop :=
  ∀ e ∈ fr, e.2.name = e.1 ∧ P e.2

namespace Frame.Binds

theorem imp (h : Binds P fr) (hPQ : ∀ o, P o → Q o) : Binds Q fr :=
  fun e he => ⟨(h e he).1, hPQ _ (h e he).2⟩

theorem lookup (h : Binds P fr) (hl : fr.lookup name = some o) : o.name = name ∧ P o :=
  h _ (Dict.mem_of_lookup hl)

theorem put (h : Binds P fr) (ho : P o) : Binds P (fr.put o.name o) := by
  intro e he
  rcases Dict.mem_put he with rfl | he
  · exact ⟨rfl, ho⟩
  · exact h e he

theorem addNew (h : Binds P fr) (ho : P o) : Binds P (fr.addNew o.name o) := by
  intro e he
  rcases Dict.mem_addNew he with rfl | he
  · exact ⟨rfl, ho⟩
  · exact h e he

theorem adjust (h : Binds P fr) {g : Object → Object} (hname : ∀ o, (g o).name = o.name)
    (hP : ∀ o, P o → P (g o)) (key : String) : Binds P (fr.adjust key g) := by
  intro e he
  rcases Dict.mem_adjust he with he | ⟨o, ho, heq⟩
  · exact h e he
  · rw [heq]
    exact ⟨(hname o).trans (h _ ho).1, hP o (h _ ho).2⟩

end Frame.Binds

theorem universeFrame_binds : Frame.Binds (·.spot = none) universeFrame := by
  intro e he
  simp only [universeFrame, List.mem_append, List.mem_map, List.mem_cons, List.not_mem_nil,
    or_false] at he
  rcases he with (⟨n, _, rfl⟩ | rfl | rfl | rfl | rfl) | ⟨n, _, rfl⟩ <;> exact ⟨rfl, rfl⟩

theorem Scope.lookup_binds {s : Scope} (h : ∀ fr ∈ s, Frame.Binds P fr)
    (hl : s.lookup name = some o) : o.name = name ∧ P o := by
  obtain ⟨fr, hfr, ho⟩ := List.exists_of_findSome?_eq_some hl
  exact (h fr hfr).lookup ho

/-- The scopes open in a file: its own bind what is declared inside it, and around them are the
names of the package and those known everywhere. -/
def Scope.OpenIn (files : String → List SourceFile) (f : SourceFile) (names : Frame) (s : Scope) :
    Prop :=
  ∃ first inner, s = first :: inner ++ [names, universeFrame] ∧
    ∀ fr ∈ first :: inner, Frame.Binds (fun o => o.Local f ∧ o.Spelled files) fr

variable {names : Frame} {s : Scope}

theorem Scope.OpenIn.lookup (hs : s.OpenIn files f names)
    (hn : Frame.Binds (Object.Spelled files) names) (hl : s.lookup name = some o) :
    o.name = name ∧ o.Spelled files := by
  obtain ⟨first, inner, rfl, hb⟩ := hs
  refine Scope.lookup_binds (fun fr hfr => ?_) hl
  rcases List.mem_append.mp hfr with hfr | hfr
  · exact (hb fr hfr).imp fun _ ho => ho.2
  · rcases List.mem_pair.mp hfr with rfl | rfl
    · exact hn
    · exact universeFrame_binds.imp fun _ => Object.spelled_of_spot

theorem Scope.OpenIn.bind (hs : s.OpenIn files f names) (ho : o.Local f ∧ o.Spelled files) :
    (s.bind o).OpenIn files f names := by
  obtain ⟨first, inner, rfl, hb⟩ := hs
  refine ⟨first.put o.name o, inner, rfl, List.forall_mem_cons.mpr ⟨?_, ?_⟩⟩
  · exact (hb first List.mem_cons_self).put ho
  · exact fun fr hfr => hb fr (List.mem_cons_of_mem _ hfr)

theorem Scope.OpenIn.push (hs : s.OpenIn files f names) :
    Scope.OpenIn files f names ([] :: s) := by
  obtain ⟨first, inner, rfl, hb⟩ := hs
  exact ⟨[], first :: inner, rfl, List.forall_mem_cons.mpr ⟨by simp [Frame.Binds], hb⟩⟩

variable {own : List SourceFile}

/-- What can be recorded at a place in the files of a package: the use of an object by an identifier
that spells its name and does not declare, or that of an object declared inside a declaration. -/
def Founded (own : List SourceFile) (files : String → List SourceFile) (spot : Spot) (o : Object) :
    Prop :=
  o.Spelled files ∧ ∃ f ∈ own, spot.file = f.path ∧
    (o.Local f ∨ ∃ n : Ident, n.UsedIn f ∧ n.start = spot.offset ∧ n.name = o.name)

/-- The members of a handle, be it one that has any member or only those it lists. -/
theorem Handle.member_binds {h : Handle} (hP : ∀ o, o.spot = none → P o)
    (hh : Frame.Binds P h.names) (hm : h.member? name = some o) : o.name = name ∧ P o := by
  rw [Handle.member?] at hm
  split at hm
  · obtain rfl := Option.some.inj hm
    exact ⟨rfl, hP _ rfl⟩
  · exact hh.lookup hm

/-- A handle whose members bear the names they are found under. -/
def Handle.Fits (files : String → List SourceFile) (h : Handle) : Prop :=
  Frame.Binds (Object.Spelled files) h.names

theorem Handle.Fits.member {h : Handle} (hh : h.Fits files) (hm : h.member? name = some o) :
    o.name = name ∧ o.Spelled files :=
  Handle.member_binds (fun _ => Object.spelled_of_spot) hh hm

/-- Surroundings of bindings in a file. -/
structure Surroundings.Fits (files : String → List SourceFile) (f : SourceFile)
    (e : Surroundings) : Prop where
  file : e.file = f.path
  home : f ∈ files e.package
  imports : ∀ i ∈ e.imports, i.handle.Fits files
  dots : ∀ h ∈ e.dots, h.Fits files

namespace State

variable {e : Surroundings} {s : State}

theorem recordUse_uses (e : Surroundings) (n : Ident) (o : Object) (s : State) :
    (s.recordUse e n o).info.uses = s.info.uses.put ⟨e.file, n.start⟩ o := by
  unfold recordUse
  cases o.type with
  | none => rfl
  | some type => dsimp only; split <;> rfl

/-- Scopes and uses as they are found while the bindings of a file are followed. -/
structure Fits (own : List SourceFile) (files : String → List SourceFile) (f : SourceFile)
    (names : Frame) (s : State) : Prop where
  scope : s.scope.OpenIn files f names
  uses : ∀ u ∈ s.info.uses, Founded own files u.1 u.2

theorem Fits.fail (h : s.Fits own files f names) (n : Ident) (message : String) :
    (s.fail e n message).Fits own files f names :=
  ⟨h.scope, h.uses⟩

theorem Fits.recordUse (h : s.Fits own files f names) (ho : Founded own files ⟨e.file, n.start⟩ o) :
    (s.recordUse e n o).Fits own files f names := by
  refine ⟨scope_recordUse e s n o ▸ h.scope, fun u hu => ?_⟩
  rw [recordUse_uses] at hu
  rcases Dict.mem_put hu with rfl | hu
  · exact ho
  · exact h.uses u hu

section

variable (he : e.Fits files f)
include he

theorem Fits.declare (h : s.Fits own files f names) (hn : n.Within f) (kind : ObjectKind)
    (type : Option String) : (s.declare e n kind type).Fits own files f names := by
  unfold State.declare
  split
  · exact h
  · refine ⟨h.scope.bind ⟨fun spot hspot => ?_, fun spot hspot => ?_⟩, h.uses⟩
    · obtain rfl := Option.some.inj hspot
      exact ⟨he.file, n, hn, rfl, rfl⟩
    · obtain rfl := Option.some.inj hspot
      obtain ⟨q, d, c, hd, hc, _, u, hu, hm, _, _, rfl⟩ := hn
      have hw := mem_walkAll_of_mem_sitesOf (hd.mem_sitesOf hc hu)
      exact ⟨f, he.home, he.file.symm, u.node, hw, hm, rfl, rfl⟩

variable (hf : f ∈ own)
include hf

theorem founded_of_used (hn : n.UsedIn f) (ho : o.name = n.name ∧ o.Spelled files) :
    Founded own files ⟨e.file, n.start⟩ o :=
  ⟨ho.2, f, hf, he.file, .inr ⟨n, hn, rfl, ho.1.symm⟩⟩

theorem Fits.useMember (h : s.Fits own files f names) (package : Object) (hn : n.UsedIn f) :
    (s.useMember e package n).Fits own files f names := by
  unfold State.useMember
  cases hi : e.imports.find? (·.name == package.name) with
  | none => exact h
  | some i =>
    have hfits := he.imports i (List.mem_of_find?_eq_some hi)
    dsimp only
    cases hm : i.handle.member? n.name with
    | some o => exact h.recordUse (founded_of_used he hf hn (hfits.member hm))
    | none =>
      dsimp only
      split
      · exact h.fail n _
      · exact h

variable (hnames : Frame.Binds (Object.Spelled files) names)
include hnames

omit hf in
theorem Fits.denotes? (h : s.Fits own files f names) (hd : s.denotes? e name = some o) :
    o.name = name ∧ o.Spelled files := by
  unfold State.denotes? at hd
  split at hd
  · next o' hl =>
    obtain rfl := Option.some.inj hd
    exact h.scope.lookup hnames hl
  · obtain ⟨g, hg, hm⟩ := List.exists_of_findSome?_eq_some hd
    exact (he.dots g hg).member hm

theorem Fits.use (h : s.Fits own files f names) (hn : n.UsedIn f) (soft : Bool) :
    (s.use e n soft).Fits own files f names := by
  unfold State.use
  split
  · exact h
  split
  · next o ho => exact h.recordUse (founded_of_used he hf hn (h.denotes? he hnames ho))
  split
  · exact h
  · exact h.fail n _

omit hnames in
theorem Fits.use_of_bindsHere (h : s.Fits own files f names) (hb : s.bindsHere n.name) :
    (s.use e n false).Fits own files f names := by
  obtain ⟨first, inner, hs, hbinds⟩ := h.scope
  rw [bindsHere, hs] at hb
  obtain ⟨o, ho⟩ := Option.isSome_iff_exists.mp hb
  have hd : s.denotes? e n.name = some o := by
    rw [State.denotes?, hs, Scope.lookup, List.cons_append, List.findSome?_cons, ho]
  have hlocal := ((hbinds first List.mem_cons_self).lookup ho).2
  unfold State.use
  split
  · exact h
  · rw [hd]
    exact h.recordUse ⟨hlocal.2, f, hf, he.file, .inl hlocal.1⟩

theorem Fits.act (h : s.Fits own files f names) {a : Action} (ha : a.Inside f.content f.tree) :
    (s.act e a).Fits own files f names := by
  obtain ⟨q, d, c, hd, hc, hfield, ha⟩ := ha
  have hused : ∀ {n}, Used f.content (sites (some d) (some q) c) n → n.UsedIn f := by
    rintro n ⟨s, hs, hn⟩
    exact ⟨s, hd.mem_sitesOf hc hs, hn⟩
  cases a with
  | use n soft => exact h.use he hf hnames (hused ha) soft
  | declare n kind type => exact h.declare he ⟨q, d, c, hd, hc, hfield, ha.bound⟩ kind type
  | short n type =>
    simp only [State.act]
    split
    · next hb => exact h.use_of_bindsHere he hf hb
    · exact h.declare he ⟨q, d, c, hd, hc, hfield, ha.bound⟩ .var type
  | member operand field =>
    simp only [State.act]
    split
    · split
      · exact h.useMember he hf _ (hused ha.used)
      · exact h
    · exact h
  | qualified package name =>
    simp only [State.act]
    split
    · next o ho =>
      split
      · have ho := founded_of_used he hf (hused ha.1.used) (h.scope.lookup hnames ho)
        exact (h.recordUse ho).useMember he hf _ (hused ha.2.used)
      · exact h.fail package _
    · exact h.fail package _
  | typed start stop type => exact ⟨h.scope, h.uses⟩

end

mutual
theorem fits_follow (he : e.Fits files f) (hf : f ∈ own)
    (hnames : Frame.Binds (Object.Spelled files) names) : (b : Binding) → ∀ s : State,
    b.Each (·.Inside f.content f.tree) → s.Fits own files f names → (s.follow e b).Fits own files f names
  | .act _, _, hb, h => h.act he hf hnames hb
  | .scope body, s, hb, h => by
    have hin : s.enter.Fits own files f names := ⟨h.scope.push, h.uses⟩
    rw [follow_scope]
    exact ⟨h.scope, (fits_followAll he hf hnames body _ hb hin).uses⟩

theorem fits_followAll (he : e.Fits files f) (hf : f ∈ own)
    (hnames : Frame.Binds (Object.Spelled files) names) : (bs : List Binding) → ∀ s : State,
    EachOf (·.Inside f.content f.tree) bs → s.Fits own files f names →
      (s.followAll e bs).Fits own files f names
  | [], _, _, h => h
  | b :: bs, s, hbs, h =>
    fits_followAll he hf hnames bs _ hbs.2 (fits_follow he hf hnames b s hbs.1 h)
end

end State

namespace Declared

variable {package : String} {t : Tree} {d : Declared} {size : Nat}

theorem objectAt_spelled (hf : f ∈ files package) (hr : Parsed size f.tree)
    (ht : TopName f.tree t) (kind : ObjectKind) (type : Option String) :
    (objectAt package f.path (Ident.of f.content t) kind type).Spelled files := by
  intro spot hspot
  obtain rfl := Option.some.inj hspot
  obtain ⟨hw, hm⟩ := ht.mark hr
  exact ⟨f, hf, rfl, t, hw, hm, rfl, rfl⟩

def topKind : Kind → ObjectKind
  | .functionDeclaration => .func
  | .methodDeclaration => .method
  | .varDeclaration => .var
  | .constDeclaration => .const
  | _ => .type

/-- The objects of a declaration stand at the names it declares, each with the type that goes with
its name. -/
theorem objects_top (hr : Parsed size f.tree) (ht : t ∈ f.tree.named) {x : Object × Bool}
    (hx : x ∈ objects package f t) : ∃ n ∈ t.walk, TopTyped f.content f.tree n x.1.type ∧
      x.1 = objectAt package f.path (Ident.of f.content n) (topKind t.kind) x.1.type := by
  have hchild : ∀ {u v : Tree}, v ∈ u.children → v ∈ u.walk :=
    fun hv => Tree.child_mem_walk hv (Tree.self_mem_walk _)
  have hspec : ∀ {kind : Kind} {spec n : Tree}, spec ∈ t.specs kind → n ∈ spec.parts .name →
      n ∈ t.walk := by
    intro kind spec n hs hn
    have hn := hchild (List.mem_filter.mp hn).1
    obtain ⟨_, hs | ⟨l, hl, _, hs⟩⟩ := TopName.mem_specs hs
    · exact Tree.child_mem_walk hs hn
    · exact Tree.child_mem_walk hl (Tree.child_mem_walk hs hn)
  simp only [objects] at hx
  split at hx
  · next hk =>
    obtain ⟨n, hn, rfl⟩ := List.mem_map.mp hx
    have hn : t.part? .name = some n := by simpa using hn
    exact ⟨n, hchild (mem_of_part? hn).1, .function ht (by rw [hk]; rfl) hn, by rw [hk]; rfl⟩
  · next hk =>
    obtain ⟨n, hn, rfl⟩ := List.mem_map.mp hx
    obtain ⟨spec, hs, hn⟩ := List.mem_filterMap.mp hn
    have hmem := TopName.mem_of_named (List.mem_filter.mp hs).1
    exact ⟨n, Tree.child_mem_walk hmem (hchild (mem_of_part? hn).1), .typeSpec ht hk hs hn,
      by rw [hk]; rfl⟩
  · next hk =>
    obtain ⟨⟨n, type⟩, hn, rfl⟩ := List.mem_map.mp hx
    obtain ⟨spec, hs, hn⟩ := List.mem_flatMap.mp hn
    obtain ⟨q, hd⟩ := TopName.varSpec hr ht hk hs
    obtain ⟨n, hmem, rfl, htop⟩ := TopTyped.valueSpec hd hn
    exact ⟨n, hspec hs hmem, htop, by rw [hk]; rfl⟩
  · next hk =>
    obtain ⟨⟨n, type⟩, hn, rfl⟩ := List.mem_map.mp hx
    obtain ⟨spec, hs, hn⟩ := List.mem_flatMap.mp hn
    obtain ⟨q, hd⟩ := TopName.constSpec hr ht hk hs
    obtain ⟨n, hmem, rfl, htop⟩ := TopTyped.valueSpec hd hn
    exact ⟨n, hspec hs hmem, htop, by rw [hk]; rfl⟩
  · cases hx

theorem objects_spelled (hf : f ∈ files package) (hr : Parsed size f.tree) (ht : t ∈ f.tree.named)
    {x : Object × Bool} (hx : x ∈ objects package f t) : x.1.Spelled files := by
  obtain ⟨n, _, hn, he⟩ := objects_top hr ht hx
  rw [he]
  exact objectAt_spelled hf hr hn.top _ _

theorem withMethod_name (name : String) (o : Object) : (withMethod name o).name = o.name := by
  unfold withMethod
  split <;> rfl

theorem withMethod_spot (name : String) (o : Object) : (withMethod name o).spot = o.spot := by
  unfold withMethod
  split <;> rfl

theorem withMethod_spelled (name : String) (h : o.Spelled files) :
    (withMethod name o).Spelled files := by
  unfold withMethod
  split
  · exact h
  · exact h

theorem add_binds (h : Frame.Binds P d.names) (ho : P o) (bound : Bool) :
    Frame.Binds P (d.add o bound).names := by
  unfold Declared.add
  dsimp only
  split
  · exact h.addNew ho
  · exact h

theorem addMethod_binds (hP : ∀ name o, P o → P (withMethod name o))
    (h : Frame.Binds P d.names) (f : SourceFile) (t : Tree) :
    Frame.Binds P (d.addMethod package f t).names := by
  unfold Declared.addMethod
  split
  · exact h
  · dsimp only
    split
    · split
      · exact Frame.Binds.adjust h (withMethod_name _) (hP _) _
      · exact h
    · exact h

/-- The names of files are bound to objects that have what all of their objects have, as long as
methods that join them take nothing from it. -/
theorem ofFiles_binds {fs : List SourceFile} (hP : ∀ name o, P o → P (withMethod name o))
    (h : ∀ f ∈ fs, ∀ t ∈ f.tree.named, ∀ x ∈ objects package f t, P x.1) :
    Frame.Binds P (ofFiles package fs).names := by
  have hempty : Frame.Binds P ({} : Declared).names := nofun
  apply List.foldlRecOn (motive := fun d : Declared => Frame.Binds P d.names)
  · apply List.foldlRecOn (motive := fun d : Declared => Frame.Binds P d.names) _ _ hempty
    intro d hd f hf
    apply List.foldlRecOn (motive := fun d : Declared => Frame.Binds P d.names) _ _ hd
    intro d hd x hx
    obtain ⟨t, ht, hx⟩ := List.mem_flatMap.mp hx
    exact add_binds hd (h f hf t ht x hx) x.2
  · intro d hd f _
    apply List.foldlRecOn (motive := fun d : Declared => Frame.Binds P d.names) _ _ hd
    intro d hd t _
    exact addMethod_binds hP hd f t

theorem fits_ofFiles {fs : List SourceFile} (hsub : fs ⊆ files package)
    (hr : ∀ f ∈ fs, ∃ size, Parsed size f.tree) :
    Frame.Binds (Object.Spelled files) (ofFiles package fs).names := by
  apply ofFiles_binds fun name _ => withMethod_spelled name
  intro f hf t ht x hx
  obtain ⟨size, hparsed⟩ := hr f hf
  exact objects_spelled (hsub hf) hparsed ht hx

end Declared

theorem Linked.frame_binds (hP : ∀ o, o.spot = none → P o) (l : Linked) :
    Frame.Binds P l.frame := by
  intro e he
  obtain ⟨i, _, rfl⟩ := List.mem_map.mp he
  exact ⟨rfl, hP _ rfl⟩

/-- The scopes that the bindings of a file are followed in. -/
theorem Linked.scope_binds {names : Frame} (hP : ∀ o, o.spot = none → P o) (l : Linked)
    (hnames : Frame.Binds P names) : ∀ fr ∈ [l.frame, names, universeFrame], Frame.Binds P fr := by
  intro fr hfr
  simp only [List.mem_cons, List.not_mem_nil, or_false] at hfr
  rcases hfr with rfl | rfl | rfl
  · exact l.frame_binds hP
  · exact hnames
  · exact universeFrame_binds.imp hP

theorem Linked.fits_ofAnswers {package : String} {answers : List (Import × Handle)}
    (hf : f ∈ files package) (h : ∀ a ∈ answers, a.2.Fits files) :
    (ofAnswers package f answers).surroundings.Fits files f := by
  obtain ⟨hfile, hpackage, himports, hdots⟩ := ofAnswers_handles package f h
  exact ⟨hfile, hpackage.symm ▸ hf, himports, hdots⟩

theorem bindFile_founded {names : Frame} {l : Linked} {size : Nat} {s : State} (hf : f ∈ own)
    (hr : Parsed size f.tree) (hl : l.surroundings.Fits files f)
    (hnames : Frame.Binds (Object.Spelled files) names)
    (hs : ∀ u ∈ s.info.uses, Founded own files u.1 u.2) :
    ∀ u ∈ (bindFile names s f l).info.uses, Founded own files u.1 u.2 := by
  have hframe : Frame.Binds (fun o => o.Local f ∧ o.Spelled files) l.frame :=
    l.frame_binds fun _ ho => ⟨Object.local_of_spot ho, Object.spelled_of_spot ho⟩
  have hscope : Scope.OpenIn files f names [l.frame, names, universeFrame] :=
    ⟨l.frame, [], rfl, by simpa using hframe⟩
  have hstart : State.Fits own files f names
      { s with scope := [l.frame, names, universeFrame] } := ⟨hscope, hs⟩
  exact (State.fits_followAll hl hf hnames _ _ (fileBindings_inside f.content hr) hstart).uses

theorem Outcome.founded {path : String} {linked : List (SourceFile × Linked)}
    (hown : own ⊆ files path) (hr : ∀ f ∈ own, ∃ size, Parsed size f.tree)
    (hl : ∀ fl ∈ linked, fl.1 ∈ own ∧ fl.2.surroundings.Fits files fl.1) :
    ∀ u ∈ (ofLinked path own linked).info.uses, Founded own files u.1 u.2 := by
  refine List.foldlRecOn
    (motive := fun s : State => ∀ u ∈ s.info.uses, Founded own files u.1 u.2) _ _
    (fun u hu => by cases hu) fun s hs fl hfl => ?_
  obtain ⟨hf, hfits⟩ := hl fl hfl
  obtain ⟨size, hparsed⟩ := hr fl.1 hf
  exact bindFile_founded hf hparsed hfits (Declared.fits_ofFiles hown hr) hs

end Check

namespace Workspace

variable {ws : Workspace} {p : Package} {f : SourceFile}

theorem Loaded.parsed (h : ws.Loaded) :
    ∀ f ∈ ws.files true, ∃ size, Syntax.Parsed size f.tree :=
  fun f hf => ⟨_, Syntax.parse?_parsed (h.registered f hf).parsed⟩

theorem files_subset (hp : p ∈ ws.packages) : p.files ⊆ ws.files true :=
  fun _ hf => List.mem_flatMap.mpr ⟨p, hp, List.mem_append_left _ hf⟩

def filesOf (ws : Workspace) (key : String) : List SourceFile :=
  (ws.packages.filter (·.key == key)).flatMap (·.files)

theorem mem_filesOf {key : String} :
    f ∈ ws.filesOf key ↔ ∃ p ∈ ws.packages, p.key = key ∧ f ∈ p.files := by
  simp [filesOf, and_assoc]

end Workspace

namespace Check.Checks

variable {ws : Workspace} {p : Package} {c : Checks}

theorem Answer.fits (hws : ws.Loaded) {path : String} {h : Handle} (ha : Answer ws c path h) :
    h.Fits ws.filesOf := by
  cases ha with
  | outside => simp [Handle.Fits, Frame.Binds, Handle.outside]
  | @inside q _ hq =>
    exact Declared.fits_ofFiles (fun f hf => Workspace.mem_filesOf.mpr ⟨q, hq, rfl, hf⟩)
      fun f hf => hws.parsed f (Workspace.files_subset hq hf)

/-- The uses recorded for a package whose check has come to its end. -/
theorem Ended.founded (hws : ws.Loaded) (hp : p ∈ ws.packages) (h : Ended ws c p) {i : TypeInfo}
    (hi : c.info? p = some i) : ∀ u ∈ i.uses, Founded p.files ws.filesOf u.1 u.2 := by
  obtain ⟨linked, hl, hinfo, _⟩ := h
  obtain rfl := Option.some.inj (hi.symm.trans hinfo)
  have hown : p.files ⊆ ws.filesOf p.key :=
    fun f hf => Workspace.mem_filesOf.mpr ⟨p, hp, rfl, hf⟩
  refine Outcome.founded hown (fun f hf => hws.parsed f (Workspace.files_subset hp hf))
    fun fl hfl => ?_
  obtain ⟨answers, hr⟩ := hl.resolves fl hfl
  have hf : fl.1 ∈ p.files := hl.files ▸ List.mem_map_of_mem hfl
  refine ⟨hf, ?_⟩
  rw [hr.linked]
  exact Linked.fits_ofAnswers (hown hf) fun a ha => (hr.answered a ha).fits hws

end Check.Checks

end GoAtlas
