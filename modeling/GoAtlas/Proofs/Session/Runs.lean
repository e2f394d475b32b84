import GoAtlas.Proofs.Check.Requests
import GoAtlas.Session

namespace GoAtlas.Session

open Check Reference

variable {ws : Workspace} {s t u : Session} {p : Package} {α β : Type}

/-- A session holds what its workspace determines, and no check is under way. -/
structure Valid (ws : Workspace) (s : Session) : Prop where
  workspace : s.workspace = ws
  sound : Checks.Sound ws s.checks
  ended : ∀ p ∈ ws.packages, s.checks.Begun p → Checks.Ended ws s.checks p
  typedIndex : ∀ i, s.typedIndex = some i → i = Index.ofFiles (ws.files true)
  plainIndex : ∀ i, s.plainIndex = some i → i = Index.ofFiles (ws.files true)
  tables : ∀ p ∈ ws.packages, ∀ table, s.tables.lookup p.path = some table →
    ∃ tests, table = SymbolTable.ofPackage p tests

structure Leads (ws : Workspace) (s t : Session) : Prop where
  valid : t.Valid ws
  checks : Checks.Grows ws s.checks t.checks

theorem valid_fresh (ws : Workspace) : Valid ws { workspace := ws } where
  workspace := rfl
  sound := Checks.sound_empty ws
  ended p _ hb := by simp [Checks.Begun, Checks.info?] at hb
  typedIndex _ hi := by cases hi
  plainIndex _ hi := by cases hi
  tables _ _ _ ht := by cases ht

theorem Valid.leads (h : s.Valid ws) : Leads ws s s :=
  ⟨h, .refl ws _⟩

theorem Leads.trans (h : Leads ws s t) (h' : Leads ws t u) : Leads ws s u :=
  ⟨h'.valid, h.checks.trans h'.checks⟩

theorem pure_apply (a : α) (s : Session) : (pure a : StateM Session α) s = (a, s) :=
  rfl

theorem bind_apply (m : StateM Session α) (k : α → StateM Session β) (s : Session) :
    (m >>= k) s = k (m s).1 (m s).2 :=
  rfl

theorem get_apply (s : Session) : (get : StateM Session Session) s = (s, s) :=
  rfl

def Keeps (ws : Workspace) (m : StateM Session α) : Prop :=
  ∀ s, s.Valid ws → Leads ws s (m s).2

namespace Keeps

theorem pure (a : α) : Keeps ws (Pure.pure a) :=
  fun _ hs => hs.leads

theorem bind {m : StateM Session α} {k : α → StateM Session β} (hm : Keeps ws m)
    (hk : ∀ a, Keeps ws (k a)) : Keeps ws (m >>= k) :=
  fun s hs => (hm s hs).trans (hk _ _ (hm s hs).valid)

theorem get_bind {k : Session → StateM Session β} (hk : ∀ s, s.Valid ws → Keeps ws (k s)) :
    Keeps ws (get >>= k) :=
  fun s hs => hk s hs s hs

theorem filterM {test : α → StateM Session Bool} (h : ∀ a, Keeps ws (test a)) (l : List α) :
    Keeps ws (l.filterM test) := by
  suffices hacc : ∀ acc, Keeps ws (l.filterAuxM test acc) from (hacc []).bind fun _ => .pure _
  induction l with
  | nil => exact fun _ => .pure _
  | cons a l ih => exact fun _ => (h a).bind fun _ => ih _

theorem query_throw (e : Failure) : Keeps ws (throw e : Query α).run :=
  fun _ hs => hs.leads

theorem query_pure (a : α) : Keeps ws (Pure.pure a : Query α).run :=
  fun _ hs => hs.leads

theorem query_lift {m : StateM Session α} (h : Keeps ws m) : Keeps ws (liftM m : Query α).run :=
  fun s hs => h s hs

theorem query_get_bind {k : Session → Query β} (hk : ∀ s, s.Valid ws → Keeps ws (k s).run) :
    Keeps ws (get >>= k : Query β).run :=
  fun s hs => hk s hs s hs

theorem query_bind {m : Query α} {k : α → Query β} (hm : Keeps ws m.run)
    (hk : ∀ a, Keeps ws (k a).run) : Keeps ws (m >>= k).run := by
  refine bind (k := ExceptT.bindCont k) hm fun a => ?_
  cases a with
  | error e => exact .pure _
  | ok a => exact hk a

end Keeps

theorem keeps_onChecks {f : Checks → α × Checks}
    (h : ∀ c, Checks.Sound ws c → Checks.Sound ws (f c).2 ∧ Checks.Grows ws c (f c).2) :
    Keeps ws (onChecks f) := by
  intro s hs
  obtain ⟨hsound, hgrows⟩ := h s.checks hs.sound
  have hended : ∀ p ∈ ws.packages, (f s.checks).2.Begun p → Checks.Ended ws (f s.checks).2 p := by
    intro p hp hb
    by_cases hbegun : s.checks.Begun p
    · exact hgrows.keep_ended hp (hs.ended p hp hbegun)
    · exact hgrows.ended p hp hbegun hb
  -- the log of the checks is taken over
  refine ⟨⟨hs.workspace, { hsound with }, fun p hp hb => (hended p hp hb).withLog [], hs.typedIndex,
    hs.plainIndex, hs.tables⟩, ?_⟩
  exact { hgrows with ended := fun p hp hn hb => (hgrows.ended p hp hn hb).withLog [] }

theorem keeps_ensureChecked (hws : ws.Distinct) (hp : p ∈ ws.packages) :
    Keeps ws (ensureChecked p) := by
  refine .get_bind fun s hs => keeps_onChecks fun c hc => ?_
  obtain ⟨hsound, hgrows, _⟩ := Checks.ensures_ensure hws p hp c hc
  rw [hs.workspace]
  exact ⟨hsound, hgrows⟩

theorem keeps_importPath (hws : ws.Distinct) (path : String) :
    Keeps ws (importPath path).run := by
  intro s hs
  refine keeps_onChecks (f := Checks.importPath s.workspace path) (fun c hc => ?_) s hs
  obtain ⟨h, d, he, hsound, hgrows⟩ := Checks.importPath_ok hws hc path
  rw [hs.workspace, he]
  exact ⟨hsound, hgrows⟩

theorem keeps_buildTable (hws : ws.Distinct) (hp : p ∈ ws.packages) (tests : Bool) :
    Keeps ws (buildTable p tests) := by
  intro s hs
  refine ⟨{ hs with tables := fun q hq table ht => ?_ }, .refl ws _⟩
  obtain ⟨he, rfl⟩ | ht := Dict.cases_of_lookup_put ht
  · obtain rfl := hws q hq p hp he
    exact ⟨tests, rfl⟩
  · exact hs.tables q hq table ht

theorem keeps_tableWith (hws : ws.Distinct) (hp : p ∈ ws.packages) (tests : Bool) :
    Keeps ws (tableWith p tests) := by
  intro s hs
  unfold tableWith
  split
  · exact hs.leads
  · exact keeps_buildTable hws hp tests s hs

theorem keeps_resolve (hws : ws.Distinct) (hp : p ∈ ws.packages) (name : String) :
    Keeps ws (resolve p name).run :=
  .query_bind (.query_lift (keeps_tableWith hws hp false)) fun _ _ hs => hs.leads

theorem keeps_rebuildIndex (types : Bool) : Keeps ws (rebuildIndex types) := by
  intro s hs
  have hfresh : Index.ofFiles (s.workspace.files true) = Index.ofFiles (ws.files true) := by
    rw [hs.workspace]
  cases types with
  | false =>
    refine ⟨{ hs with plainIndex := fun i hi => ?_ }, .refl ws _⟩
    exact (Option.some.inj hi).symm.trans hfresh
  | true =>
    refine ⟨{ hs with typedIndex := fun i hi => ?_ }, .refl ws _⟩
    exact (Option.some.inj hi).symm.trans hfresh

theorem keeps_index (types : Bool) : Keeps ws (index types) := by
  intro s hs
  unfold index
  split
  · exact hs.leads
  · exact keeps_rebuildIndex types s hs

theorem keeps_infoOfFile (hws : ws.Distinct) (file : String) : Keeps ws (infoOfFile file) := by
  refine .get_bind fun s hs => ?_
  split
  · exact .pure _
  · next p hp =>
    have hp : p ∈ ws.packages := hs.workspace ▸ List.mem_of_find?_eq_some hp
    exact (keeps_ensureChecked hws hp).bind fun _ => .get_bind fun _ _ => .pure _

theorem keeps_references (hws : ws.Distinct) (types : Bool) (symbol : Symbol) :
    Keeps ws (references types symbol) := by
  refine (keeps_index types).bind fun i => .bind (.filterM (fun e => ?_) _) fun _ => .pure _
  split
  · refine (keeps_infoOfFile hws e.file).bind fun info => ?_
    split
    · exact .get_bind fun _ _ => .pure _
    · exact .pure _
  · exact .pure _

theorem keeps_symbolOfObject? (hws : ws.Distinct) (o : Object) {ps : List Package}
    (hps : ps ⊆ ws.packages) : Keeps ws (symbolOfObject? o ps) := by
  induction ps with
  | nil => exact .pure _
  | cons p ps ih =>
    have hp := hps List.mem_cons_self
    have ih := ih fun q hq => hps (List.mem_cons_of_mem p hq)
    unfold symbolOfObject?
    split
    · refine .get_bind fun s hs => (keeps_tableWith hws hp false).bind fun table => ?_
      dsimp only
      split
      · exact .pure _
      · exact ih
    · exact ih

theorem keeps_knownDefinition? (hws : ws.Distinct) (p : Package) (file : String) (start : Nat) :
    Keeps ws (knownDefinition? p file start) := by
  refine .get_bind fun s hs => ?_
  split
  · exact .pure _
  split
  · split
    · exact keeps_symbolOfObject? hws _ (hs.workspace ▸ List.Subset.refl _)
    · exact .pure _
  · exact .pure _

theorem keeps_typedDefinition? (hws : ws.Distinct) (hp : p ∈ ws.packages) (file : String)
    (start : Nat) : Keeps ws (typedDefinition? p file start) :=
  (keeps_ensureChecked hws hp).bind fun _ => keeps_knownDefinition? hws p file start

theorem packageOfSite_mem (hp : p ∈ ws.packages) (f : SourceFile) (site : Site) :
    packageOfSite ws p f site ∈ ws.packages := by
  unfold packageOfSite
  split
  · split
    · exact hp
    · cases hi : importedPackage? ws f _ with
      | none => exact hp
      | some q =>
        obtain ⟨i, _, hq⟩ := Option.bind_eq_some_iff.mp hi
        exact Workspace.mem_of_packageForImport hq
  · exact hp

theorem keeps_definition (hws : ws.Distinct) (types : Bool) (path real : String) (offset : Int) :
    Keeps ws (definition types path real offset).run := by
  refine .query_get_bind fun s hs => ?_
  have hw := hs.workspace
  dsimp only
  split
  · exact .query_throw _
  next f _ =>
  split
  · exact .query_throw _
  · exact .query_throw _
  · next p site hp _ =>
    have hp : p ∈ ws.packages := hw ▸ List.mem_of_find?_eq_some hp
    have hrest : ∀ found, Keeps ws (match found with
        | some symbol => pure symbol
        | none => resolve (packageOfSite s.workspace p f site) (f.text site.node) :
        Query Symbol).run := by
      intro found
      cases found with
      | some symbol => exact .query_pure _
      | none => exact keeps_resolve hws (hw ▸ packageOfSite_mem (hw ▸ hp) f site) _
    split
    · exact .query_bind (.query_lift (keeps_typedDefinition? hws hp _ _)) hrest
    · exact .query_bind (.query_pure _) hrest

/-- What can be asked of a session about the packages of its workspace. -/
inductive Question (ws : Workspace) where
  | check (p : Package) (mem : p ∈ ws.packages)
  | follow (path : String)
  | build (p : Package) (mem : p ∈ ws.packages) (tests : Bool)
  | table (p : Package) (mem : p ∈ ws.packages) (tests : Bool)
  | resolve (p : Package) (mem : p ∈ ws.packages) (name : String)
  | rebuildIndex (types : Bool)
  | index (types : Bool)
  | references (types : Bool) (symbol : Symbol)
  | definition (types : Bool) (path real : String) (offset : Int)

def ask (s : Session) : Question ws → Session
  | .check p _ => (ensureChecked p s).2
  | .follow path => (importPath path s).2
  | .build p _ tests => (buildTable p tests s).2
  | .table p _ tests => (tableWith p tests s).2
  | .resolve p _ name => (Session.resolve p name s).2
  | .rebuildIndex types => (Session.rebuildIndex types s).2
  | .index types => (Session.index types s).2
  | .references types symbol => (Session.references types symbol s).2
  | .definition types path real offset => (Session.definition types path real offset s).2

def askAll (s : Session) (qs : List (Question ws)) : Session :=
  qs.foldl ask s

theorem Valid.ask (hws : ws.Distinct) (hs : s.Valid ws) (q : Question ws) :
    Leads ws s (s.ask q) := by
  cases q with
  | check p hp => exact keeps_ensureChecked hws hp s hs
  | follow path => exact keeps_importPath hws path s hs
  | build p hp tests => exact keeps_buildTable hws hp tests s hs
  | table p hp tests => exact keeps_tableWith hws hp tests s hs
  | resolve p hp name => exact keeps_resolve hws hp name s hs
  | rebuildIndex types => exact keeps_rebuildIndex types s hs
  | index types => exact keeps_index types s hs
  | references types symbol => exact keeps_references hws types symbol s hs
  | definition types path real offset => exact keeps_definition hws types path real offset s hs

theorem Valid.askAll (hws : ws.Distinct) (hs : s.Valid ws) (qs : List (Question ws)) :
    Leads ws s (s.askAll qs) := by
  induction qs generalizing s with
  | nil => exact hs.leads
  | cons q qs ih => exact (hs.ask hws q).trans (ih (hs.ask hws q).valid)

end GoAtlas.Session
