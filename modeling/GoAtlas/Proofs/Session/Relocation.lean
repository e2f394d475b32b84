import GoAtlas.Proofs.Check.Relocation
import GoAtlas.Proofs.Session.Definitions
import GoAtlas.Proofs.Symbol.Relocation

namespace GoAtlas

open Source Syntax Check Reference

variable {ws : Workspace} {d : String → Int} {r : Registry}

/-- The files of a workspace can be moved to their slots in another registry. -/
structure Workspace.Moves (ws : Workspace) (d : String → Int) (r : Registry) : Prop where
  loaded : ws.Loaded
  moved : (ws.moved d r).Loaded
  movable : ∀ f ∈ ws.files true, f.Movable d

theorem Workspace.RegisteredBy.moves {ws' : Workspace} {files : List (String × ByteArray)}
    (h : ws.RegisteredBy files ws') (hws : ws.Loaded) : ws.Moves (ws.shift ws') ws'.registry :=
  ⟨hws, h.eq_moved hws ▸ h.loaded hws, h.movable hws⟩

theorem Workspace.Moves.package (h : ws.Moves d r) {p : Package} (hp : p ∈ ws.packages)
    (tests : Bool) : SymbolTable.ofPackage (p.moved d) tests =
      (SymbolTable.ofPackage p tests).moved d := by
  apply SymbolTable.ofPackage_moved
  intro f hf
  apply h.movable
  apply List.mem_flatMap.mpr
  refine ⟨p, hp, ?_⟩
  cases tests with
  | true => exact hf
  | false => exact List.mem_append_left _ hf

theorem Reference.Index.ofFiles_moved (d : String → Int) (fs : List SourceFile) :
    Index.ofFiles (fs.map (·.moved d)) = Index.ofFiles fs := by
  rw [ofFiles, List.flatMap_map]
  rfl

def Use.moved (d : String → Int) (u : Use) : Use :=
  { u with symbol := u.symbol.moved d }

def Use.unplaced (u : Use) : Use :=
  { u with symbol := u.symbol.unplaced }

namespace Session

variable {s : Session} {p : Package} {symbol : Symbol} {o : Object} {α β γ δ : Type}

theorem isDeclaredBy_moved (h : ws.Moves d r) (hs : symbol.Written (ws.files true)) (o : Object) :
    isDeclaredBy (ws.moved d r) (symbol.moved d) o = isDeclaredBy ws symbol o := by
  obtain ⟨f, hf, n, hn⟩ := hs
  have hmem : f.moved d ∈ (ws.moved d r).files true := by
    rw [Workspace.files_moved]
    exact List.mem_map_of_mem hf
  rw [Bool.eq_iff_iff, hn.isDeclaredBy_iff h.loaded hf,
    (hn.moved (h.movable f hf)).isDeclaredBy_iff h.moved hmem]
  rfl

theorem resolveIn_moved (p : Package) (table : SymbolTable) (name : String) :
    resolveIn (p.moved d) (table.moved d) name =
      (resolveIn p table name).map (·.moved d) := by
  unfold resolveIn
  split
  · next receiver method _ =>
    have hmethods : (((table.moved d).methods.lookup receiver).getD []).find? (·.name == method) =
        (((table.methods.lookup receiver).getD []).find? (·.name == method)).map (·.moved d) := by
      have hlookup := Dict.lookup_mapped (List.map (Symbol.moved d)) receiver table.methods
      rw [SymbolTable.moved, hlookup]
      cases table.methods.lookup receiver with
      | none => rfl
      | some ms => exact List.find?_map
    rw [hmethods]
    cases ((table.methods.lookup receiver).getD []).find? (·.name == method) <;> rfl
  · rw [SymbolTable.find?_moved, SymbolTable.methodsNamed_moved]
    cases table.find? name with
    | some s => rfl
    | none =>
      cases table.methodsNamed name with
      | nil => rfl
      | cons s ss =>
        cases ss with
        | nil => rfl
        | cons s' ss =>
          simp only [List.map_cons, Option.map_none, Except.map, List.map_map]
          rfl

def moved (d : String → Int) (r : Registry) (s : Session) : Session :=
  { s with workspace := s.workspace.moved d r, tables := s.tables.mapped (·.moved d) }

/-- An operation that does on a session with its files moved what another does before, its answer
being changed by `g`. -/
def Carries (ws : Workspace) (d : String → Int) (r : Registry) (g : α → β) (m : StateM Session α)
    (m' : StateM Session β) : Prop :=
  ∀ s, s.Valid ws → (m s).2.Valid ws ∧ m' (s.moved d r) = (g (m s).1, (m s).2.moved d r)

namespace Carries

variable {g : α → β} {g' : γ → δ}

theorem ofKeeps {m : StateM Session α} {m' : StateM Session β} (hm : Keeps ws m)
    (h : ∀ s, s.Valid ws → m' (s.moved d r) = (g (m s).1, (m s).2.moved d r)) :
    Carries ws d r g m m' :=
  fun s hs => ⟨(hm s hs).valid, h s hs⟩

theorem pure {a : α} {b : β} (h : b = g a) :
    Carries ws d r g (Pure.pure a) (Pure.pure b) := by
  intro s hs
  exact ⟨hs, by rw [h]; rfl⟩

theorem bind {m : StateM Session α} {m' : StateM Session β} {k : α → StateM Session γ}
    {k' : β → StateM Session δ} (hm : Carries ws d r g m m')
    (hk : ∀ a, Carries ws d r g' (k a) (k' (g a))) :
    Carries ws d r g' (m >>= k) (m' >>= k') := by
  intro s hs
  obtain ⟨hvalid, he⟩ := hm s hs
  obtain ⟨hvalid', he'⟩ := hk (m s).1 (m s).2 hvalid
  refine ⟨hvalid', ?_⟩
  rw [bind_apply, he, he']
  rfl

theorem get_bind {k : Session → StateM Session γ} {k' : Session → StateM Session δ}
    (hk : ∀ s, s.Valid ws → Carries ws d r g' (k s) (k' (s.moved d r))) :
    Carries ws d r g' (get >>= k) (get >>= k') :=
  fun s hs => hk s hs s hs

theorem filterM {test test' : α → StateM Session Bool}
    (h : ∀ a, Carries ws d r id (test a) (test' a)) (l : List α) :
    Carries ws d r id (l.filterM test) (l.filterM test') := by
  have hacc : ∀ acc, Carries ws d r id (l.filterAuxM test acc) (l.filterAuxM test' acc) := by
    induction l with
    | nil => exact fun _ => .pure rfl
    | cons a l ih => exact fun _ => (h a).bind fun _ => ih _
  exact (hacc []).bind fun _ => .pure rfl

theorem query_pure {a : α} {b : β} (h : b = g a) :
    Carries ws d r (Except.map g) (Pure.pure a : Query α).run (Pure.pure b : Query β).run :=
  .pure (congrArg Except.ok h)

theorem query_throw (e : Failure) :
    Carries ws d r (Except.map g) (throw e : Query α).run (throw e : Query β).run :=
  .pure rfl

theorem query_bind {m : Query α} {m' : Query β} {k : α → Query γ} {k' : β → Query δ}
    (hm : Carries ws d r (Except.map g) m.run m'.run)
    (hk : ∀ a, Carries ws d r (Except.map g') (k a).run (k' (g a)).run) :
    Carries ws d r (Except.map g') (m >>= k).run (m' >>= k').run := by
  have hcont : ∀ a, Carries ws d r (Except.map g') (ExceptT.bindCont k a)
      (ExceptT.bindCont k' (Except.map g a)) := by
    intro a
    cases a with
    | error e => exact .pure rfl
    | ok a => exact hk a
  exact bind hm hcont

theorem query_lift {m : StateM Session α} {m' : StateM Session β} (h : Carries ws d r g m m') :
    Carries ws d r (Except.map g) (liftM m : Query α).run (liftM m' : Query β).run := by
  intro s hs
  obtain ⟨hvalid, he⟩ := h s hs
  refine ⟨hvalid, ?_⟩
  have hlift : (liftM m' : Query β).run (s.moved d r) =
      (.ok (m' (s.moved d r)).1, (m' (s.moved d r)).2) := rfl
  rw [hlift, he]
  rfl

theorem query_get_bind {k : Session → Query γ} {k' : Session → Query δ}
    (hk : ∀ s, s.Valid ws → Carries ws d r (Except.map g') (k s).run (k' (s.moved d r)).run) :
    Carries ws d r (Except.map g') (get >>= k : Query γ).run (get >>= k' : Query δ).run :=
  fun s hs => hk s hs s hs

end Carries

section

variable (h : ws.Moves d r)
include h

theorem carries_ensureChecked (hp : p ∈ ws.packages) :
    Carries ws d r id (ensureChecked p) (ensureChecked (p.moved d)) := by
  apply Carries.ofKeeps (keeps_ensureChecked h.loaded.distinct hp)
  intro s hs
  have hensure : Checks.ensure (s.moved d r).workspace (p.moved d) (s.moved d r).checks =
      Checks.ensure s.workspace p s.checks :=
    Checks.ensure_moved d r s.workspace p s.checks
  simp only [ensureChecked, bind_apply, get_apply, onChecks, hensure]
  rfl

theorem carries_importPath (path : String) :
    Carries ws d r id (importPath path).run (importPath path).run := by
  apply Carries.ofKeeps (keeps_importPath h.loaded.distinct path)
  intro s hs
  have hpath : Checks.importPath (s.moved d r).workspace path (s.moved d r).checks =
      Checks.importPath s.workspace path s.checks :=
    Checks.importPath_moved d r s.workspace path s.checks
  have happly : ∀ s : Session, (importPath path).run s =
      onChecks (Checks.importPath s.workspace path) s := fun _ => rfl
  simp only [happly, onChecks, hpath]
  rfl

theorem carries_buildTable (hp : p ∈ ws.packages) (tests : Bool) :
    Carries ws d r (·.moved d) (buildTable p tests) (buildTable (p.moved d) tests) := by
  apply Carries.ofKeeps (keeps_buildTable h.loaded.distinct hp tests)
  intro s hs
  simp only [buildTable, h.package hp, moved, Package.path_moved, Dict.put_mapped]

theorem carries_tableWith (hp : p ∈ ws.packages) (tests : Bool) :
    Carries ws d r (·.moved d) (tableWith p tests) (tableWith (p.moved d) tests) := by
  intro s hs
  have hlookup : (s.moved d r).tables.lookup (p.moved d).path =
      (s.tables.lookup p.path).map (·.moved d) :=
    Dict.lookup_mapped _ _ _
  simp only [tableWith, hlookup]
  cases s.tables.lookup p.path with
  | some table => exact ⟨hs, rfl⟩
  | none => exact carries_buildTable h hp tests s hs

theorem carries_resolve (hp : p ∈ ws.packages) (name : String) :
    Carries ws d r (Except.map (·.moved d)) (resolve p name).run (resolve (p.moved d) name).run := by
  apply Carries.query_bind (.query_lift (carries_tableWith h hp false))
  intro table s hs
  have hanswer := resolveIn_moved (d := d) p table name
  exact ⟨hs, congrArg (·, s.moved d r) hanswer⟩

omit h in
theorem freshIndex_moved (d : String → Int) (r : Registry) (s : Session) :
    freshIndex (s.moved d r) = ((freshIndex s).1, (freshIndex s).2.moved d r) := by
  have hfiles : (s.moved d r).workspace.files true = (s.workspace.files true).map (·.moved d) :=
    Workspace.files_moved d r s.workspace true
  simp only [freshIndex, hfiles, Index.ofFiles_moved, List.length_map]
  rfl

omit h in
theorem carries_rebuildIndex (types : Bool) :
    Carries ws d r id (rebuildIndex types) (rebuildIndex types) := by
  apply Carries.ofKeeps (keeps_rebuildIndex types)
  intro s hs
  simp only [rebuildIndex, bind_apply, freshIndex_moved]
  cases types <;> rfl

omit h in
theorem carries_index (types : Bool) : Carries ws d r id (index types) (index types) := by
  intro s hs
  have hkept : (if types then (s.moved d r).typedIndex else (s.moved d r).plainIndex) =
      if types then s.typedIndex else s.plainIndex := rfl
  simp only [index, hkept]
  split
  · exact ⟨hs, rfl⟩
  · exact carries_rebuildIndex types s hs

theorem carries_infoOfFile (file : String) :
    Carries ws d r id (infoOfFile file) (infoOfFile file) := by
  apply Carries.get_bind
  intro s hs
  have hfile : (s.moved d r).workspace.packageOfFile? file =
      (s.workspace.packageOfFile? file).map (·.moved d) :=
    Workspace.packageOfFile?_moved d r s.workspace file
  simp only [hfile]
  cases hp : s.workspace.packageOfFile? file with
  | none => exact .pure rfl
  | some p =>
    have hp : p ∈ ws.packages := hs.workspace ▸ List.mem_of_find?_eq_some hp
    apply (carries_ensureChecked h hp).bind
    intro _
    exact .get_bind fun _ _ => .pure rfl

theorem carries_references (types : Bool) (hs : symbol.Written (ws.files true)) :
    Carries ws d r (List.map (·.moved d)) (references types symbol)
      (references types (symbol.moved d)) := by
  apply (carries_index types).bind
  intro i
  refine Carries.bind (.filterM (fun e => ?_) _) fun kept => .pure ?_
  · split
    · apply (carries_infoOfFile h e.file).bind
      intro info
      dsimp only [id]
      split
      · next o _ =>
        apply Carries.get_bind
        intro s hsession
        apply Carries.pure
        rw [hsession.workspace]
        have hw : (s.moved d r).workspace = ws.moved d r := by
          rw [← hsession.workspace]
          rfl
        rw [hw, isDeclaredBy_moved h hs]
        rfl
      · exact .pure rfl
    · exact .pure rfl
  · rw [List.map_map]
    rfl

theorem find?_isDeclaredBy_moved {symbols : List Symbol}
    (hs : ∀ symbol ∈ symbols, symbol.Written (ws.files true)) (o : Object) :
    ((symbols.map (·.moved d)).find? fun symbol => isDeclaredBy (ws.moved d r) symbol o) =
      (symbols.find? fun symbol => isDeclaredBy ws symbol o).map (·.moved d) := by
  induction symbols with
  | nil => rfl
  | cons symbol symbols ih =>
    have hfirst := isDeclaredBy_moved h (hs symbol List.mem_cons_self) o
    have ih := ih fun symbol' hmem => hs symbol' (List.mem_cons_of_mem symbol hmem)
    simp only [List.map_cons, List.find?_cons, hfirst, ih]
    cases isDeclaredBy ws symbol o <;> rfl

theorem written_of_table (hp : p ∈ ws.packages) (hs : s.Valid ws)
    (hsymbol : symbol ∈ (table p s).1.symbols) : symbol.Written (ws.files true) := by
  rw [(table_spec h.loaded.distinct hp s).1] at hsymbol
  exact Written.mono hp (hs.written h.loaded hp hsymbol)

theorem carries_symbolOfObject? (o : Object) {ps : List Package} (hps : ps ⊆ ws.packages) :
    Carries ws d r (Option.map (·.moved d)) (symbolOfObject? o ps)
      (symbolOfObject? o (ps.map (·.moved d))) := by
  induction ps with
  | nil => exact .pure rfl
  | cons p ps ih =>
    have hp := hps List.mem_cons_self
    have ih := ih fun q hq => hps (List.mem_cons_of_mem p hq)
    intro s hs
    rw [List.map_cons]
    by_cases hkey : p.key = o.package
    · obtain ⟨hvalid, htable⟩ := carries_tableWith h hp false s hs
      have hwritten : ∀ symbol ∈ (table p s).1.symbols, symbol.Written (ws.files true) :=
        fun symbol hsymbol => written_of_table h hp hs hsymbol
      have hw : (s.moved d r).workspace = ws.moved d r := by
        rw [← hs.workspace]
        rfl
      have htable : table (p.moved d) (s.moved d r) =
          ((table p s).1.moved d, (table p s).2.moved d r) := htable
      rw [symbolOfObject?_of_key hkey, symbolOfObject?_of_key (p := p.moved d) hkey, htable, hw,
        SymbolTable.symbols_moved, find?_isDeclaredBy_moved h hwritten, hs.workspace]
      cases (table p s).1.symbols.find? fun symbol => isDeclaredBy ws symbol o with
      | some symbol => exact ⟨hvalid, rfl⟩
      | none => exact ih _ hvalid
    · rw [symbolOfObject?_of_ne hkey, symbolOfObject?_of_ne (p := p.moved d) hkey]
      exact ih s hs

theorem carries_knownDefinition? (p : Package) (file : String) (start : Nat) :
    Carries ws d r (Option.map (·.moved d)) (knownDefinition? p file start)
      (knownDefinition? (p.moved d) file start) := by
  apply Carries.get_bind
  intro s hs
  have hinfo : (s.moved d r).checks.info? (p.moved d) = s.checks.info? p := rfl
  rw [hinfo]
  split
  · exact .pure rfl
  split
  · split
    · have hpackages : (s.moved d r).workspace.packages =
          s.workspace.packages.map (·.moved d) := rfl
      rw [hpackages]
      exact carries_symbolOfObject? h _ (hs.workspace ▸ List.Subset.refl _)
    · exact .pure rfl
  · exact .pure rfl

theorem carries_typedDefinition? (hp : p ∈ ws.packages) (file : String) (start : Nat) :
    Carries ws d r (Option.map (·.moved d)) (typedDefinition? p file start)
      (typedDefinition? (p.moved d) file start) :=
  (carries_ensureChecked h hp).bind fun _ => carries_knownDefinition? h p file start

omit h in
theorem packageOfSite_moved (ws : Workspace) (p : Package) (f : SourceFile) (site : Site) :
    packageOfSite (ws.moved d r) (p.moved d) (f.moved d) site =
      (packageOfSite ws p f site).moved d := by
  have hclassify : site.classify (f.moved d).content = site.classify f.content := rfl
  unfold packageOfSite
  rw [hclassify]
  split
  · next q _ =>
    have himported : importedPackage? (ws.moved d r) (f.moved d) q =
        (importedPackage? ws f q).map (·.moved d) := by
      have himports : (f.moved d).imports = f.imports := rfl
      simp only [importedPackage?, himports, Workspace.packageForImport?_moved, Option.map_bind]
      rfl
    rw [himported]
    split
    · rfl
    · cases importedPackage? ws f q <;> rfl
  · rfl

theorem carries_definition (types : Bool) (path real : String) (offset : Int) :
    Carries ws d r (Except.map (·.moved d)) (definition types path real offset).run
      (definition types path real offset).run := by
  apply Carries.query_get_bind
  intro s hs
  have hw : (s.moved d r).workspace = s.workspace.moved d r := rfl
  dsimp only
  rw [hw, Workspace.file?_moved, Workspace.file?_moved, ← Option.map_or]
  cases (s.workspace.file? path).or (s.workspace.file? real) with
  | none => exact .query_throw _
  | some f =>
    simp only [Option.map_some, Workspace.packageOfFile?_moved]
    have hpath : (f.moved d).path = f.path := rfl
    have htree : (f.moved d).tree = f.tree := rfl
    rw [hpath, htree]
    cases hp : s.workspace.packageOfFile? f.path with
    | none => exact .query_throw _
    | some p =>
      cases identifierAt? f.tree offset with
      | none => exact .query_throw _
      | some site =>
        have hp : p ∈ ws.packages := hs.workspace ▸ List.mem_of_find?_eq_some hp
        have hsite : packageOfSite s.workspace p f site ∈ ws.packages := by
          rw [hs.workspace]
          exact packageOfSite_mem hp f site
        have hresolve := carries_resolve h hsite (f.text site.node)
        rw [← packageOfSite_moved (r := r)] at hresolve
        cases types with
        | true =>
          apply Carries.query_bind (.query_lift (carries_typedDefinition? h hp _ _))
          intro found
          cases found with
          | some symbol => exact .query_pure rfl
          | none => exact hresolve
        | false => exact hresolve

end

/-- What can be asked of a session without knowing the workspace: packages are given by their
directories, and symbols by their numbers in the table of a package. -/
inductive Inquiry where
  | check (directory : String)
  | follow (path : String)
  | build (directory : String) (tests : Bool)
  | table (directory : String) (tests : Bool)
  | resolve (directory name : String)
  | rebuildIndex (types : Bool)
  | index (types : Bool)
  | references (types : Bool) (directory : String) (number : Nat)
  | definition (types : Bool) (path real : String) (offset : Int)

/-- What is answered; nothing if there is no such package or symbol. -/
inductive Answer where
  | nothing
  | done
  | handle (h : Except Failure Handle)
  | table (t : SymbolTable)
  | symbol (s : Except Failure Symbol)
  | index (i : Index)
  | uses (us : List Use)

namespace Answer

def moved (d : String → Int) : Answer → Answer
  | .table t => .table (t.moved d)
  | .symbol s => .symbol (s.map (·.moved d))
  | .uses us => .uses (us.map (·.moved d))
  | a => a

def unplaced : Answer → Answer
  | .table t => .table t.unplaced
  | .symbol s => .symbol (s.map (·.unplaced))
  | .uses us => .uses (us.map (·.unplaced))
  | a => a

theorem unplaced_moved (d : String → Int) (a : Answer) : (a.moved d).unplaced = a.unplaced := by
  cases a with
  | table t => exact congrArg Answer.table (t.unplaced_moved d)
  | symbol s =>
    cases s with
    | ok s => rfl
    | error e => rfl
  | uses us =>
    simp only [moved, unplaced, List.map_map]
    rfl
  | _ => rfl

end Answer

def onPackage (directory : String) (ask : Package → StateM Session Answer) :
    StateM Session Answer := do
  match (← get).workspace.package? directory with
  | some p => ask p
  | none => pure .nothing

def answer : Inquiry → StateM Session Answer
  | .check directory => onPackage directory fun p => ensureChecked p >>= fun _ => pure .done
  | .follow path => (importPath path).run >>= fun h => pure (.handle h)
  | .build directory tests =>
    onPackage directory fun p => buildTable p tests >>= fun t => pure (.table t)
  | .table directory tests =>
    onPackage directory fun p => tableWith p tests >>= fun t => pure (.table t)
  | .resolve directory name =>
    onPackage directory fun p => (resolve p name).run >>= fun s => pure (.symbol s)
  | .rebuildIndex types => rebuildIndex types >>= fun i => pure (.index i)
  | .index types => index types >>= fun i => pure (.index i)
  | .references types directory number =>
    onPackage directory fun p => table p >>= fun t =>
      match t.symbols[number]? with
      | some symbol => references types symbol >>= fun us => pure (.uses us)
      | none => pure .nothing
  | .definition types path real offset =>
    (definition types path real offset).run >>= fun s => pure (.symbol s)

/-- The answers to inquiries made one after the other. -/
def answers : List Inquiry → StateM Session (List Answer)
  | [] => pure []
  | i :: is => answer i >>= fun a => answers is >>= fun as => pure (a :: as)

section

variable (h : ws.Moves d r)
include h

omit h in
theorem carries_onPackage {ask ask' : Package → StateM Session Answer} (directory : String)
    (hask : ∀ p ∈ ws.packages, Carries ws d r (·.moved d) (ask p) (ask' (p.moved d))) :
    Carries ws d r (·.moved d) (onPackage directory ask) (onPackage directory ask') := by
  apply Carries.get_bind
  intro s hs
  have hpackage : (s.moved d r).workspace.package? directory =
      (s.workspace.package? directory).map (·.moved d) :=
    Workspace.package?_moved d r s.workspace directory
  rw [hpackage]
  cases hp : s.workspace.package? directory with
  | none => exact .pure rfl
  | some p => exact hask p (hs.workspace ▸ List.mem_of_find?_eq_some hp)

theorem carries_referencesTo (types : Bool) (directory : String) (number : Nat) :
    Carries ws d r (·.moved d) (answer (.references types directory number))
      (answer (.references types directory number)) := by
  apply carries_onPackage
  intro p hp s hs
  -- the symbol asked about is one of the table as it stands
  obtain ⟨hvalid, htable⟩ := carries_tableWith h hp false s hs
  have hwritten : ∀ symbol ∈ (table p s).1.symbols, symbol.Written (ws.files true) :=
    fun symbol hsymbol => written_of_table h hp hs hsymbol
  have hcarries : Carries ws d r (Answer.moved d)
      (match (table p s).1.symbols[number]? with
        | some symbol => references types symbol >>= fun us => pure (.uses us)
        | none => pure .nothing)
      (match ((table p s).1.moved d).symbols[number]? with
        | some symbol => references types symbol >>= fun us => pure (.uses us)
        | none => pure .nothing) := by
    rw [SymbolTable.symbols_moved, List.getElem?_map]
    cases hsymbol : (table p s).1.symbols[number]? with
    | none => exact .pure rfl
    | some symbol =>
      have hmem := List.mem_of_getElem? hsymbol
      exact (carries_references h types (hwritten symbol hmem)).bind fun _ => .pure rfl
  obtain ⟨hvalid', he⟩ := hcarries _ hvalid
  refine ⟨hvalid', ?_⟩
  have htable : table (p.moved d) (s.moved d r) =
      ((table p s).1.moved d, (table p s).2.moved d r) := htable
  rw [bind_apply, htable]
  exact he

theorem carries_answer (i : Inquiry) : Carries ws d r (·.moved d) (answer i) (answer i) := by
  cases i with
  | check directory =>
    apply carries_onPackage
    intro p hp
    exact (carries_ensureChecked h hp).bind fun _ => .pure rfl
  | follow path => exact (carries_importPath h path).bind fun _ => .pure rfl
  | build directory tests =>
    apply carries_onPackage
    intro p hp
    exact (carries_buildTable h hp tests).bind fun _ => .pure rfl
  | table directory tests =>
    apply carries_onPackage
    intro p hp
    exact (carries_tableWith h hp tests).bind fun _ => .pure rfl
  | resolve directory name =>
    apply carries_onPackage
    intro p hp
    exact (carries_resolve h hp name).bind fun _ => .pure rfl
  | rebuildIndex types => exact (carries_rebuildIndex types).bind fun _ => .pure rfl
  | index types => exact (carries_index types).bind fun _ => .pure rfl
  | references types directory number => exact carries_referencesTo h types directory number
  | definition types path real offset =>
    exact (carries_definition h types path real offset).bind fun _ => .pure rfl

theorem carries_answers (is : List Inquiry) :
    Carries ws d r (List.map (·.moved d)) (answers is) (answers is) := by
  induction is with
  | nil => exact .pure rfl
  | cons i is ih => exact (carries_answer h i).bind fun _ => ih.bind fun _ => .pure rfl

end

/-- Inquiries on a workspace have the same answers, positions apart, in whatever order its files are
registered. -/
theorem answers_registered {ws' : Workspace} {files : List (String × ByteArray)}
    (hws : ws.Loaded) (h : ws.RegisteredBy files ws') (is : List Inquiry) :
    (answers is { workspace := ws' }).1.map (·.unplaced) =
      (answers is { workspace := ws }).1.map (·.unplaced) := by
  have hmoved : ({ workspace := ws' } : Session) =
      moved (ws.shift ws') ws'.registry { workspace := ws } := by
    simp only [moved, ← h.eq_moved hws]
    rfl
  obtain ⟨-, he⟩ := carries_answers (h.moves hws) is _ (valid_fresh ws)
  rw [hmoved, he, List.map_map]
  exact List.map_congr_left fun a _ => a.unplaced_moved _

end Session

end GoAtlas
