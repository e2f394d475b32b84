import GoAtlas.Proofs.Check.Frames
import GoAtlas.Proofs.Check.Requests

namespace GoAtlas.Check

def Handle.completed (h : Handle) : Handle :=
  { h with complete := true }

theorem Handle.member?_completed (h : Handle) (name : String) :
    h.completed.member? name = h.member? name :=
  rfl

def Imported.completed (i : Imported) : Imported :=
  { i with handle := i.handle.completed }

def Surroundings.completed (e : Surroundings) : Surroundings :=
  { e with imports := e.imports.map Imported.completed, dots := e.dots.map Handle.completed }

theorem Surroundings.file_completed (e : Surroundings) : e.completed.file = e.file :=
  rfl

theorem Surroundings.find?_completed (e : Surroundings) (name : String) :
    e.completed.imports.find? (·.name == name) =
      (e.imports.find? (·.name == name)).map Imported.completed :=
  List.find?_map

theorem Surroundings.member?_completed (e : Surroundings) (name : String) :
    e.completed.dots.findSome? (·.member? name) = e.dots.findSome? (·.member? name) :=
  List.findSome?_map

namespace State

variable {e : Surroundings} {s t : State}

/-- Two states with the same scopes and the same information, whatever their errors. -/
structure Agree (s t : State) : Prop where
  scope : s.scope = t.scope
  info : s.info = t.info

theorem Agree.recordType (h : Agree s t) (start stop : Nat) (type : String) :
    Agree (s.recordType e start stop type) (t.recordType e.completed start stop type) :=
  ⟨h.scope, by simp only [State.recordType, h.info, Surroundings.completed]⟩

theorem Agree.recordUse (h : Agree s t) (n : Ident) (o : Object) :
    Agree (s.recordUse e n o) (t.recordUse e.completed n o) := by
  have hu : Agree { s with info.uses := s.info.uses.put ⟨e.file, n.start⟩ o }
      { t with info.uses := t.info.uses.put ⟨e.file, n.start⟩ o } :=
    ⟨h.scope, by simp only [h.info]⟩
  unfold State.recordUse
  cases o.type with
  | none => exact hu
  | some type =>
    dsimp only
    split
    · exact hu
    · exact hu.recordType n.start n.stop type

theorem Agree.fail (h : Agree s t) (n : Ident) (message message' : String) :
    Agree (s.fail e n message) (t.fail e.completed n message') :=
  ⟨h.scope, h.info⟩

theorem Agree.fail_right (h : Agree s t) (n : Ident) (message : String) :
    Agree s (t.fail e n message) :=
  ⟨h.scope, h.info⟩

theorem Agree.declare (h : Agree s t) (n : Ident) (kind : ObjectKind) (type : Option String) :
    Agree (s.declare e n kind type) (t.declare e.completed n kind type) := by
  unfold State.declare
  split
  · exact h
  · exact ⟨by simp only [h.scope, Surroundings.completed],
      by simp only [h.info, Surroundings.completed]⟩

theorem Agree.denotes? (h : Agree s t) (name : String) :
    s.denotes? e name = t.denotes? e.completed name := by
  simp only [State.denotes?, h.scope, Surroundings.member?_completed]

theorem Agree.use (h : Agree s t) (n : Ident) (soft : Bool) :
    Agree (s.use e n soft) (t.use e.completed n soft) := by
  unfold State.use
  rw [← h.denotes?]
  split
  · exact h
  · split
    · exact h.recordUse n _
    · split
      · exact h
      · exact h.fail n _ _

theorem Agree.useMember (h : Agree s t) (package : Object) (n : Ident) :
    Agree (s.useMember e package n) (t.useMember e.completed package n) := by
  unfold State.useMember
  rw [Surroundings.find?_completed]
  cases e.imports.find? (·.name == package.name) with
  | none => exact h
  | some i =>
    have hm : i.completed.handle.member? n.name = i.handle.member? n.name := rfl
    have hc : i.completed.handle.complete = true := rfl
    simp only [Option.map_some, hm, hc, if_true]
    cases i.handle.member? n.name with
    | some o => exact h.recordUse n o
    | none =>
      dsimp only
      split
      · exact h.fail n _ _
      · exact h.fail_right n _

theorem Agree.act (h : Agree s t) (a : Action) : Agree (s.act e a) (t.act e.completed a) := by
  cases a with
  | use n soft => exact h.use n soft
  | declare n kind type => exact h.declare n kind type
  | short n type =>
    have hb : s.bindsHere n.name = t.bindsHere n.name := by simp only [bindsHere, h.scope]
    simp only [State.act, hb]
    split
    · exact h.use n false
    · exact h.declare n .var type
  | member operand field =>
    simp only [State.act, h.info, Surroundings.file_completed]
    cases t.info.uses.lookup ⟨e.file, operand.start⟩ with
    | none => exact h
    | some o =>
      dsimp only
      split
      · exact h.useMember o field
      · exact h
  | qualified package name =>
    simp only [State.act, h.scope]
    cases t.scope.lookup package.name with
    | none => exact h.fail package _ _
    | some o =>
      dsimp only
      split
      · exact (h.recordUse package o).useMember o name
      · exact h.fail package _ _
  | typed start stop type => exact h.recordType start stop type

mutual
theorem follow_agree (e : Surroundings) :
    (b : Binding) → ∀ s t : State, Agree s t → Agree (s.follow e b) (t.follow e.completed b)
  | .act a, _, _, h => h.act a
  | .scope body, s, t, h => by
    have hin : Agree s.enter t.enter := ⟨by rw [enter, enter, h.scope], h.info⟩
    rw [follow_scope, follow_scope]
    exact ⟨h.scope, (followAll_agree e body _ _ hin).info⟩

theorem followAll_agree (e : Surroundings) :
    (bs : List Binding) → ∀ s t : State, Agree s t →
      Agree (s.followAll e bs) (t.followAll e.completed bs)
  | [], _, _, h => h
  | b :: bs, s, t, h => followAll_agree e bs _ _ (follow_agree e b s t h)
end

end State

namespace Linked

open Syntax

variable {package : String} {f : SourceFile}

def completed (l : Linked) : Linked :=
  { l with surroundings := l.surroundings.completed }

theorem boundName_completed (i : Import) (h : Handle) : boundName i h.completed = boundName i h :=
  rfl

theorem completed_add (i : Import) (h : Handle) (l : Linked) :
    (l.add i h).completed = l.completed.add i h.completed := by
  unfold add
  split
  · simp [completed, Surroundings.completed]
  · simp [completed, Surroundings.completed, Imported.completed, boundName_completed]

theorem completed_ofAnswers (answers : List (Import × Handle)) :
    (ofAnswers package f answers).completed =
      ofAnswers package f (answers.map fun a => (a.1, a.2.completed)) := by
  suffices h : ∀ l : Linked, (answers.foldl (fun l a => l.add a.1 a.2) l).completed =
      (answers.map fun a => (a.1, a.2.completed)).foldl (fun l a => l.add a.1 a.2) l.completed from
    h _
  induction answers with
  | nil => exact fun _ => rfl
  | cons a answers ih =>
    intro l
    rw [List.foldl_cons, ih, completed_add, List.map_cons, List.foldl_cons]

theorem frame_completed (l : Linked) : l.completed.frame = l.frame := by
  simp [frame, completed, Surroundings.completed, Imported.completed]

end Linked

theorem bindFile_agree {names : Frame} {s t : State} (h : s.Agree t) (f : SourceFile) (l : Linked) :
    (bindFile names s f l).Agree (bindFile names t f l.completed) := by
  have hscope : State.Agree { s with scope := [l.frame, names, universeFrame] }
      { t with scope := [l.completed.frame, names, universeFrame] } :=
    ⟨by rw [Linked.frame_completed], h.info⟩
  exact State.followAll_agree l.surroundings _ _ _ hscope

theorem Outcome.info_completed (path : String) (files : List SourceFile)
    (linked : List (SourceFile × Linked)) :
    (ofLinked path files linked).info =
      (ofLinked path files (linked.map fun fl => (fl.1, fl.2.completed))).info := by
  let names := (Declared.ofFiles path files).names
  have hfold : ∀ s t : State, s.Agree t →
      (linked.foldl (fun s fl => bindFile names s fl.1 fl.2) s).Agree
        ((linked.map fun fl => (fl.1, fl.2.completed)).foldl
          (fun s fl => bindFile names s fl.1 fl.2) t) := by
    induction linked with
    | nil => exact fun _ _ h => h
    | cons fl linked ih => exact fun s t h => ih _ _ (bindFile_agree h fl.1 fl.2)
  let start (ls : List (SourceFile × Linked)) : State :=
    { scope := [], info := { defs := (Declared.ofFiles path files).defs }
      errors := ls.flatMap (·.2.errors) }
  exact (hfold (start linked) (start (linked.map fun fl => (fl.1, fl.2.completed))) ⟨rfl, rfl⟩).info

namespace Checks

open Syntax

variable {ws : Workspace} {p : Package}

def answerOf (ws : Workspace) (path : String) : Handle :=
  match ws.packageForImport? path with
  | none => Handle.outside path (Name.ofImportPath path)
  | some q => handleOf q true

def infoOf (ws : Workspace) (p : Package) : TypeInfo :=
  (Outcome.ofLinked p.key p.files (p.files.map fun f =>
    (f, Linked.ofAnswers p.key f ((f.imports.filter Linked.isFollowed).map fun i =>
      (i, answerOf ws i.path))))).info

theorem Answer.completed (hk : ws.Keyed) {c : Checks} {path : String} {h : Handle}
    (ha : Answer ws c path h) : h.completed = answerOf ws path := by
  cases ha with
  | outside hnone =>
    rw [answerOf, hnone]
    rfl
  | @inside q complete hq _ hpath =>
    have hfound : ws.packageForImport? path = some q := by
      rcases hpath with rfl | ⟨q₀, hq₀, hkey⟩
      · exact hk q hq
      · have he := hk q₀ (Workspace.mem_of_packageForImport hq₀)
        rw [hq₀, ← he, ← hkey]
        exact hk q hq
    rw [answerOf, hfound]
    rfl

theorem Linking.completed (hk : ws.Keyed) {c : Checks} {linked : List (SourceFile × Linked)}
    (h : Linking ws c p linked) :
    linked.map (fun fl => (fl.1, fl.2.completed)) = p.files.map fun f =>
      (f, Linked.ofAnswers p.key f ((f.imports.filter Linked.isFollowed).map fun i =>
        (i, answerOf ws i.path))) := by
  rw [← h.files, List.map_map]
  refine List.map_congr_left fun fl hfl => ?_
  obtain ⟨answers, hr⟩ := h.resolves fl hfl
  have hanswers : answers.map (fun a => (a.1, a.2.completed)) =
      (answers.map (·.1)).map fun i => (i, answerOf ws i.path) := by
    rw [List.map_map]
    exact List.map_congr_left fun a ha => Prod.ext rfl ((hr.answered a ha).completed hk)
  simp only [Function.comp, hr.linked, Linked.completed_ofAnswers, hanswers, hr.imports]

theorem Ended.info {c : Checks} (hk : ws.Keyed) (h : Ended ws c p) :
    c.info? p = some (infoOf ws p) := by
  obtain ⟨linked, hl, hi, _⟩ := h
  rw [hi, Outcome.info_completed, hl.completed hk, infoOf]

theorem info?_performAll (hws : ws.Distinct) (hk : ws.Keyed) (hp : p ∈ ws.packages)
    (rs : List (Request ws)) (hb : ((performAll ws {} rs).info? p).isSome) :
    (performAll ws {} rs).info? p = some (infoOf ws p) :=
  Ended.info hk ((performAll_sound hws (sound_empty ws) rs).2.ended p hp (by simp [Begun, info?]) hb)

/-- Whatever has been asked for before, a package that has information has the same information. -/
theorem info?_unique {s : Files.Store} {root : String} {respectIgnore : Bool}
    {log : List LogRecord} {m : ModuleFile} (hs : s.Proper)
    (hws : Load.workspace s root respectIgnore = (.ok ws, log)) (hm : ws.module? = some m)
    (hne : m.path ≠ "") (hp : p ∈ ws.packages) (rs rs' : List (Request ws)) {i i' : TypeInfo}
    (hi : (performAll ws {} rs).info? p = some i)
    (hi' : (performAll ws {} rs').info? p = some i') :
    i.defs = i'.defs ∧ i.uses = i'.uses ∧ i.types = i'.types := by
  have hloaded := Load.loaded hs hws
  have hk := hloaded.keyed hm hne
  have he := info?_performAll hloaded.distinct hk hp rs (by simp [hi])
  have he' := info?_performAll hloaded.distinct hk hp rs' (by simp [hi'])
  obtain rfl : i = infoOf ws p := Option.some.inj (hi.symm.trans he)
  obtain rfl : i' = infoOf ws p := Option.some.inj (hi'.symm.trans he')
  exact ⟨rfl, rfl, rfl⟩

theorem begun_of_check (hws : ws.Distinct) (hp : p ∈ ws.packages) (rs : List (Request ws)) :
    ∃ i, (performAll ws {} (rs ++ [.check p hp])).info? p = some i := by
  have hS := (performAll_sound hws (sound_empty ws) rs).1
  rw [performAll_append]
  exact Option.isSome_iff_exists.mp (ensures_ensure hws p hp _ hS).2.2

/-- Of two packages that import each other, either can be checked first. -/
theorem info?_unique_ring : ∃ ws log, Load.workspace Load.ring "/ws" true = (.ok ws, log) ∧
    ws.packages.map (·.path) = ["/ws", "/ws/b"] ∧
    ∀ p q, (hp : p ∈ ws.packages) → (hq : q ∈ ws.packages) →
      ∃ i i', (performAll ws {} [.check p hp]).info? p = some i ∧
        (performAll ws {} [.check q hq, .check p hp]).info? p = some i' ∧
        i.defs = i'.defs ∧ i.uses = i'.uses ∧ i.types = i'.types := by
  obtain ⟨ws, log, hws, hm, hpaths⟩ := Load.workspace_ring
  have hd := (Load.loaded Load.proper_ring hws).distinct
  refine ⟨ws, log, hws, hpaths, fun p q hp hq => ?_⟩
  obtain ⟨i, hi⟩ := begun_of_check hd hp []
  obtain ⟨i', hi'⟩ := begun_of_check hd hp [.check q hq]
  exact ⟨i, i', hi, hi', info?_unique Load.proper_ring hws hm (by decide) hp _ _ hi hi'⟩

end Checks

end GoAtlas.Check
