import GoAtlas.Proofs.Check.Capture
import GoAtlas.Proofs.Check.Integrity
import Mathlib.Data.List.Find

namespace GoAtlas

open Syntax

namespace Check

variable {fr : Frame} {f g : SourceFile} {o : Object} {P : Object → Prop} {package name : String}

def Object.IsImport (o : Object) : Prop :=
  o.kind = .package ∧ o.spot = none

theorem Object.not_isImport_of_spot (h : o.spot ≠ none) : ¬o.IsImport :=
  fun hi => h hi.2

/-- What is found in a frame satisfies `P`; what stands behind an earlier entry of the same name is not
found. -/
def Frame.Offers (P : Object → Prop) (fr : Frame) : Prop :=
  ∀ name o, fr.lookup name = some o → P o

theorem Frame.Binds.offers (h : Frame.Binds P fr) : fr.Offers P :=
  fun _ _ ho => (h.lookup ho).2

theorem Frame.Offers.put (h : fr.Offers P) (ho : P o) (name : String) :
    Frame.Offers P (fr.put name o) := by
  intro other o' ho'
  obtain ⟨-, rfl⟩ | ho' := Dict.cases_of_lookup_put ho'
  · exact ho
  · exact h other o' ho'

theorem Scope.offers_lookup {s : Scope} (h : ∀ fr ∈ s, Frame.Offers P fr)
    (hl : s.lookup name = some o) : P o := by
  obtain ⟨fr, hfr, ho⟩ := List.exists_of_findSome?_eq_some hl
  exact h fr hfr name o ho

theorem Scope.offers_bind {s : Scope} (h : ∀ fr ∈ s, Frame.Offers P fr) (ho : P o) :
    ∀ fr ∈ s.bind o, Frame.Offers P fr := by
  have hempty : Frame.Offers P [] := fun _ _ hl => by cases hl
  cases s with
  | nil => exact List.forall_mem_singleton.mpr (hempty.put ho o.name)
  | cons first s =>
    obtain ⟨hfirst, hrest⟩ := List.forall_mem_cons.mp h
    exact List.forall_mem_cons.mpr ⟨hfirst.put ho o.name, hrest⟩

theorem universeFrame_not_isImport : universeFrame.Offers (¬·.IsImport) := by
  have hkinds : ∀ e ∈ universeFrame, e.2.kind ≠ .package := by decide
  exact fun _ _ ho hi => hkinds _ (Dict.mem_of_lookup ho) hi.1

theorem Handle.not_isImport_member {h : Handle} (hh : Frame.Binds (·.spot ≠ none) h.names)
    (hm : h.member? name = some o) : ¬o.IsImport := by
  rw [Handle.member?] at hm
  split at hm
  · rw [← Option.some.inj hm]
    rintro ⟨hkind, -⟩
    cases hkind
  · exact Object.not_isImport_of_spot (hh.lookup hm).2

namespace State

variable {e : Surroundings} {s : State}

/-- All objects that names denote, and all that are recorded as used in a file, satisfy `P`. -/
structure Offers (P : Object → Prop) (f : SourceFile) (s : State) : Prop where
  scope : ∀ fr ∈ s.scope, Frame.Offers P fr
  uses : ∀ b o, s.info.uses.lookup ⟨f.path, b⟩ = some o → P o

theorem Offers.fail (h : s.Offers P f) (n : Ident) (message : String) :
    (s.fail e n message).Offers P f :=
  ⟨h.scope, h.uses⟩

section

variable (he : e.Sees package (·.spot ≠ none) f) (hP : ∀ o, ¬Object.IsImport o → P o)
include he

theorem Offers.recordUse (h : s.Offers P f) (ho : P o) (n : Ident) :
    (s.recordUse e n o).Offers P f := by
  refine ⟨?_, ?_⟩
  · rw [scope_recordUse]
    exact h.scope
  · intro b o' ho'
    rw [recordUse_uses, he.file] at ho'
    obtain ⟨-, rfl⟩ | ho' := Dict.cases_of_lookup_put ho'
    · exact ho
    · exact h.uses b o' ho'

include hP

omit he in
theorem Offers.declare (h : s.Offers P f) (n : Ident) (kind : ObjectKind) (type : Option String) :
    (s.declare e n kind type).Offers P f := by
  unfold State.declare
  split
  · exact h
  · refine ⟨?_, h.uses⟩
    apply Scope.offers_bind h.scope
    exact hP _ (Object.not_isImport_of_spot (Option.some_ne_none _))

theorem Offers.denotes? (h : s.Offers P f) (hd : s.denotes? e name = some o) : P o := by
  unfold State.denotes? at hd
  split at hd
  · next o' hl =>
    rw [← Option.some.inj hd]
    exact Scope.offers_lookup h.scope hl
  · obtain ⟨m, hm, hmember⟩ := List.exists_of_findSome?_eq_some hd
    exact hP o (Handle.not_isImport_member (he.dots m hm) hmember)

theorem Offers.use (h : s.Offers P f) (n : Ident) (soft : Bool) :
    (s.use e n soft).Offers P f := by
  unfold State.use
  split
  · exact h
  split
  · next o ho => exact h.recordUse he (h.denotes? he hP ho) n
  split
  · exact h
  · exact h.fail n _

theorem Offers.useMember (h : s.Offers P f) (imported : Object) (n : Ident) :
    (s.useMember e imported n).Offers P f := by
  unfold State.useMember
  cases hi : e.imports.find? (·.name == imported.name) with
  | none => exact h
  | some i =>
    have himport := he.imports i (List.mem_of_find?_eq_some hi)
    dsimp only
    cases hm : i.handle.member? n.name with
    | some o => exact h.recordUse he (hP o (Handle.not_isImport_member himport hm)) n
    | none =>
      dsimp only
      split
      · exact h.fail n _
      · exact h

theorem Offers.act (h : s.Offers P f) (a : Action) : (s.act e a).Offers P f := by
  cases a with
  | use n soft => exact h.use he hP n soft
  | declare n kind type => exact h.declare hP n kind type
  | short n type =>
    simp only [State.act]
    split
    · exact h.use he hP n false
    · exact h.declare hP n .var type
  | member operand field =>
    simp only [State.act]
    split
    · split
      · exact h.useMember he hP _ field
      · exact h
    · exact h
  | qualified package' name =>
    simp only [State.act]
    split
    · next o ho =>
      split
      · exact (h.recordUse he (Scope.offers_lookup h.scope ho) package').useMember he hP o name
      · exact h.fail package' _
    · exact h.fail package' _
  | typed start stop type => exact ⟨h.scope, h.uses⟩

end

mutual
theorem offers_follow (he : e.Sees package (·.spot ≠ none) f) (hP : ∀ o, ¬Object.IsImport o → P o) :
    (b : Binding) → ∀ s : State, s.Offers P f → (s.follow e b).Offers P f
  | .act a, _, h => h.act he hP a
  | .scope body, s, h => by
    have hempty : Frame.Offers P [] := fun _ _ hl => by cases hl
    have hin : s.enter.Offers P f := ⟨List.forall_mem_cons.mpr ⟨hempty, h.scope⟩, h.uses⟩
    rw [follow_scope]
    exact ⟨h.scope, (offers_followAll he hP body s.enter hin).uses⟩

theorem offers_followAll (he : e.Sees package (·.spot ≠ none) f)
    (hP : ∀ o, ¬Object.IsImport o → P o) :
    (bs : List Binding) → ∀ s : State, s.Offers P f → (s.followAll e bs).Offers P f
  | [], _, h => h
  | b :: bs, s, h => offers_followAll he hP bs (s.follow e b) (offers_follow he hP b s h)
end

end State

namespace Linked

/-- The scope of a file leads to the first of the imports that go by a name. -/
theorem lookup_frame (l : Linked) (name : String) :
    l.frame.lookup name = (l.surroundings.imports.find? (·.name == name)).map fun i =>
      { name := i.name, kind := .package, package := i.path } := by
  unfold frame
  induction l.surroundings.imports with
  | nil => rfl
  | cons i is ih =>
    rw [List.map_cons, List.lookup_cons, List.find?_cons, ih, Bool.beq_comm]
    cases i.name == name with
    | true => rfl
    | false => rfl

theorem offers_frame (l : Linked) : l.frame.Offers fun o => l.frame.lookup o.name = some o := by
  intro name o ho
  have hname : o.name = name := ((l.frame_binds (P := fun _ => True) fun _ _ => trivial).lookup ho).1
  rw [hname]
  exact ho

theorem imports_ofAnswers (package : String) (f : SourceFile) (answers : List (Import × Handle)) :
    (ofAnswers package f answers).surroundings.imports =
      (answers.filter (·.1.givenName ≠ some ".")).map fun a =>
        ⟨boundName a.1 a.2, a.1.path, a.2⟩ := by
  suffices h : ∀ l : Linked, (answers.foldl (fun l a => l.add a.1 a.2) l).surroundings.imports =
      l.surroundings.imports ++ (answers.filter (·.1.givenName ≠ some ".")).map fun a =>
        ⟨boundName a.1 a.2, a.1.path, a.2⟩ from h _
  induction answers with
  | nil => exact fun l => (List.append_nil _).symm
  | cons a answers ih =>
    intro l
    rw [List.foldl_cons, ih]
    unfold Linked.add
    by_cases ha : a.1.givenName = some "."
    · simp [ha]
    · simp [ha]

end Linked

theorem bindFile_offers {names : Frame} {l : Linked} {s : State}
    (hl : l.surroundings.Sees package (·.spot ≠ none) f) (hP : ∀ o, ¬Object.IsImport o → P o)
    (hframe : ∀ o, l.frame.lookup o.name = some o → P o)
    (hnames : Frame.Binds (·.spot ≠ none) names)
    (hs : ∀ b o, s.info.uses.lookup ⟨f.path, b⟩ = some o → P o) :
    ∀ b o, (bindFile names s f l).info.uses.lookup ⟨f.path, b⟩ = some o → P o := by
  have hstart : State.Offers P f { s with scope := [l.frame, names, universeFrame] } := by
    refine ⟨?_, hs⟩
    intro fr hfr
    simp only [List.mem_cons, List.not_mem_nil, or_false] at hfr
    rcases hfr with rfl | rfl | rfl
    · exact fun name o ho => hframe o (l.offers_frame name o ho)
    · exact fun name o ho => hP o (Object.not_isImport_of_spot (hnames.offers name o ho))
    · exact fun name o ho => hP o (universeFrame_not_isImport name o ho)
  exact (State.offers_followAll hl hP _ _ hstart).uses

/-- An object that stands for a package is found in the scope of each file in which it is used. -/
theorem Outcome.imported {own : List SourceFile} {linked : List (SourceFile × Linked)}
    (hnames : Frame.Binds (·.spot ≠ none) (Declared.ofFiles package own).names)
    (hfiles : ∀ gl ∈ linked, gl.2.surroundings.Sees package (·.spot ≠ none) gl.1) {b : Nat}
    (ho : (ofLinked package own linked).info.uses.lookup ⟨f.path, b⟩ = some o)
    (hi : o.IsImport) :
    ∃ gl ∈ linked, gl.1.path = f.path ∧ gl.2.frame.lookup o.name = some o := by
  let P : Object → Prop := fun o => o.IsImport →
    ∃ gl ∈ linked, gl.1.path = f.path ∧ gl.2.frame.lookup o.name = some o
  suffices h : ∀ b o, (ofLinked package own linked).info.uses.lookup ⟨f.path, b⟩ = some o → P o from
    h b o ho hi
  apply List.foldlRecOn (motive := fun s : State =>
    ∀ b o, s.info.uses.lookup ⟨f.path, b⟩ = some o → P o)
  · intro b o ho
    cases ho
  · rintro s hs ⟨g, l⟩ hgl
    have hsees := hfiles (g, l) hgl
    by_cases hpath : g.path = f.path
    · have hs : ∀ b o, s.info.uses.lookup ⟨g.path, b⟩ = some o → P o := hpath ▸ hs
      rw [← hpath]
      exact bindFile_offers hsees (fun _ hn hi => (hn hi).elim)
        (fun _ ho _ => ⟨(g, l), hgl, hpath, ho⟩) hnames hs
    · intro b o ho
      have hne : (⟨f.path, b⟩ : Spot).file ≠ g.path := fun he => hpath he.symm
      rw [bindFile_uses_ne hsees.file hne] at ho
      exact hs b o ho

end Check

theorem Syntax.Import.givenName_ne {i : Import} {given : String} (hempty : given ≠ "")
    (h : i.localName ≠ given) : i.givenName ≠ some given := by
  intro hgiven
  apply h
  simp only [Import.localName, hgiven, if_neg hempty]

def Package.declaredName (p : Package) : String :=
  (Check.placeholder p.key p.files).name

/-- An import path can lead to a package: the one it is the path of, or one of the same key. -/
def Workspace.Reaches (ws : Workspace) (path : String) (q : Package) : Prop :=
  q ∈ ws.packages ∧ (q.key = path ∨ ∃ r, ws.packageForImport? path = some r ∧ q.key = r.key)

def Workspace.Suggests (ws : Workspace) (f : SourceFile) : Prop :=
  ∀ i ∈ f.imports, i.givenName.getD "" = "" → ∀ q, ws.Reaches i.path q →
    q.declaredName = "" ∨ q.declaredName = Name.ofImportPath i.path

namespace Check

namespace Checks

variable {ws : Workspace} {c : Checks} {p target : Package} {f : SourceFile} {o : Object}
  {info : TypeInfo} {path name : String}

theorem names_spot (package : String) (files : List SourceFile)
    (hfiles : ∀ f ∈ files, ∃ size, Parsed size f.tree) :
    Frame.Binds (·.spot ≠ none) (Declared.ofFiles package files).names := by
  apply Declared.ofFiles_binds
  · intro name o ho
    rw [Declared.withMethod_spot]
    exact ho
  · intro f hf t ht x hx
    obtain ⟨size, hparsed⟩ := hfiles f hf
    obtain ⟨n, -, -, he⟩ := Declared.objects_top hparsed ht hx
    rw [he]
    exact Option.some_ne_none _

theorem Answer.spot (hws : ws.Loaded) {h : Handle} (ha : Answer ws c path h) :
    Frame.Binds (·.spot ≠ none) h.names := by
  cases ha with
  | outside =>
    intro e he
    cases he
  | @inside q _ hq =>
    exact names_spot q.key q.files fun f hf => hws.parsed f (Workspace.files_subset hq hf)

theorem Answer.boundName_eq {i : Import} {h : Handle} (ha : Answer ws c i.path h)
    (hi : i.givenName.getD "" = "" → ∀ q, ws.Reaches i.path q →
      q.declaredName = "" ∨ q.declaredName = Name.ofImportPath i.path) :
    Linked.boundName i h = i.localName := by
  have hunaliased : i.givenName.getD "" = "" → Linked.boundName.unaliased i h =
      Name.ofImportPath i.path := by
    intro hnone
    unfold Linked.boundName.unaliased
    cases ha with
    | outside => exact ite_self _
    | @inside q complete hq _ hkey =>
      rcases hi hnone q ⟨hq, hkey⟩ with he | he
      · exact if_pos he
      · split
        · rfl
        · exact he
  unfold Linked.boundName Import.localName
  cases hgiven : i.givenName with
  | none => exact hunaliased (by rw [hgiven]; rfl)
  | some a =>
    dsimp only
    split
    · next he => exact hunaliased (by rw [hgiven, he]; rfl)
    · rfl

/-- Where a name denotes an imported package, it is the first import bound under the name that leads
to the package. -/
theorem Ended.imported (hws : ws.Loaded) (hp : p ∈ ws.packages) (h : Ended ws c p)
    (hinfo : c.info? p = some info) (hf : f ∈ p.files) {b : Nat}
    (ho : info.uses.lookup ⟨f.path, b⟩ = some o) (hi : o.IsImport) :
    ∃ l answers, Linked.Resolves (Answer ws c) p.key f l answers ∧
      l.frame.lookup o.name = some o := by
  obtain ⟨linked, hl, hended, -⟩ := h
  obtain rfl := Option.some.inj (hinfo.symm.trans hended)
  have hparsed : ∀ g ∈ p.files, ∃ size, Parsed size g.tree :=
    fun g hg => hws.parsed g (Workspace.files_subset hp hg)
  have hsees : ∀ gl ∈ linked, gl.2.surroundings.Sees p.key (·.spot ≠ none) gl.1 := by
    intro gl hgl
    obtain ⟨answers, hr⟩ := hl.resolves gl hgl
    obtain ⟨hfile, hpackage, himports, hdots⟩ :=
      Linked.ofAnswers_handles (Q := fun h => Frame.Binds (·.spot ≠ none) h.names) p.key gl.1
        fun a ha => (hr.answered a ha).spot hws
    rw [hr.linked]
    exact ⟨hfile, hpackage, himports, hdots⟩
  obtain ⟨gl, hgl, hpath, hfound⟩ := Outcome.imported (names_spot p.key p.files hparsed) hsees ho hi
  have hg : gl.1 ∈ p.files := hl.files ▸ List.mem_map_of_mem hgl
  obtain rfl := (apart_files hws hp).eq hg hf hpath
  obtain ⟨answers, hr⟩ := hl.resolves gl hgl
  exact ⟨gl.2, answers, hr, hfound⟩

end Checks

/-- If names are as paths suggest, the first import that goes by a name is the one bound under it. -/
theorem Linked.Resolves.find?_localName {ws : Workspace} {c : Checks} {package name : String}
    {f : SourceFile} {l : Linked} {answers : List (Import × Handle)} {o : Object}
    (h : Resolves (Checks.Answer ws c) package f l answers) (hsuggests : ws.Suggests f)
    (hblank : name ≠ "_") (hdot : name ≠ ".") (ho : l.frame.lookup name = some o) :
    (f.imports.find? (·.localName == name)).map (·.path) = some o.package := by
  have hbound : ∀ a ∈ answers, boundName a.1 a.2 = a.1.localName := by
    intro a ha
    have himport : a.1 ∈ f.imports.filter isFollowed := h.imports ▸ List.mem_map_of_mem ha
    exact (h.answered a ha).boundName_eq (hsuggests a.1 (List.mem_filter.mp himport).1)
  -- imports with a blank name or a dot do not go by the name that is looked for
  have hfollowed : ∀ i ∈ f.imports,
      decide (isFollowed i = true ∧ (i.localName == name) = true) = (i.localName == name) := by
    intro i _
    cases hname : i.localName == name with
    | false => simp
    | true =>
      have hi : i.givenName ≠ some "_" :=
        Import.givenName_ne (by decide) (beq_iff_eq.mp hname ▸ hblank)
      simp [isFollowed, hi]
  have hnamed : ∀ a ∈ answers, decide (decide (a.1.givenName ≠ some ".") = true ∧
      (boundName a.1 a.2 == name) = true) = (a.1.localName == name) := by
    intro a ha
    rw [hbound a ha]
    cases hname : a.1.localName == name with
    | false => simp
    | true =>
      have hi : a.1.givenName ≠ some "." :=
        Import.givenName_ne (by decide) (beq_iff_eq.mp hname ▸ hdot)
      simp [hi]
  have hfind : f.imports.find? (·.localName == name) =
      (answers.find? fun a => a.1.localName == name).map (·.1) := by
    rw [← List.find?_congr hfollowed, ← List.find?_filter, ← h.imports, List.find?_map]
    rfl
  rw [lookup_frame, h.linked, imports_ofAnswers, List.find?_map, List.find?_filter] at ho
  rw [hfind, ← List.find?_congr hnamed]
  obtain ⟨i, hi, rfl⟩ := Option.map_eq_some_iff.mp ho
  obtain ⟨a, ha, rfl⟩ := Option.map_eq_some_iff.mp hi
  exact congrArg (Option.map (·.path)) (congrArg (Option.map Prod.fst) ha)

end Check

end GoAtlas
