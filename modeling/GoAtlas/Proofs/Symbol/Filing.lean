import GoAtlas.Proofs.Symbol.Buckets

namespace GoAtlas

open Syntax Check

namespace SymbolTable

variable {table table' table'' : SymbolTable} {new more : List Symbol} {f : SourceFile}
  {package : String} {t spec : Tree} {s : Symbol}

/-- Enters a symbol in the place of its kind; a method needs a receiver. -/
def enter (table : SymbolTable) (s : Symbol) : SymbolTable :=
  match s.kind with
  | .function => { table with functions := addTo table.functions s }
  | .type | .interface => { table with types := addTo table.types s }
  | .variable => { table with vars := addTo table.vars s }
  | .constant => { table with constants := addTo table.constants s }
  | .method =>
    match s.receiver with
    | some receiver => table.addMethod receiver s
    | none => table
  | .field => table

theorem bucket_enter (table : SymbolTable) (s : Symbol) (k : ObjectKind) :
    (table.enter s).bucket k =
      if s.kind.object? = some k then addTo (table.bucket k) s else table.bucket k := by
  unfold enter
  cases s.kind <;> cases s.receiver <;> cases k <;> rfl

theorem methods_enter_of_ne (table : SymbolTable) (hk : s.kind ≠ .method) :
    (table.enter s).methods = table.methods := by
  unfold enter
  cases hkind : s.kind <;> first | rfl | exact (hk hkind).elim

theorem enter_method (table : SymbolTable) (hk : s.kind = .method) :
    table.enter s = match s.receiver with
      | some receiver => table.addMethod receiver s
      | none => table := by
  simp only [enter, hk]

theorem enter_type (table : SymbolTable) (hk : s.kind = .type ∨ s.kind = .interface) :
    table.enter s = { table with types := addTo table.types s } := by
  rcases hk with hk | hk <;> simp only [enter, hk]

theorem enter_vars (table : SymbolTable) (h : ∀ s ∈ new, s.kind = .variable) :
    new.foldl enter table = { table with vars := new.foldl addTo table.vars } := by
  induction new generalizing table with
  | nil => rfl
  | cons s new ih =>
    obtain ⟨hk, h⟩ := List.forall_mem_cons.mp h
    simp only [List.foldl_cons, ih _ h, enter, hk]

theorem enter_constants (table : SymbolTable) (h : ∀ s ∈ new, s.kind = .constant) :
    new.foldl enter table = { table with constants := new.foldl addTo table.constants } := by
  induction new generalizing table with
  | nil => rfl
  | cons s new ih =>
    obtain ⟨hk, h⟩ := List.forall_mem_cons.mp h
    simp only [List.foldl_cons, ih _ h, enter, hk]

theorem enter_methods (table : SymbolTable) {receiver : String}
    (h : ∀ s ∈ new, s.kind = .method ∧ s.receiver = some receiver) :
    new.foldl enter table = new.foldl (fun table m => table.addMethod receiver m) table := by
  induction new generalizing table with
  | nil => rfl
  | cons s new ih =>
    obtain ⟨⟨hk, hr⟩, h⟩ := List.forall_mem_cons.mp h
    rw [List.foldl_cons, List.foldl_cons, ih _ h, enter_method table hk, hr]

/-- A table is reached from another by entering some of the new symbols, in their order. -/
def Enters (table : SymbolTable) (new : List Symbol) (table' : SymbolTable) : Prop :=
  ∃ entered : List Symbol, entered.Sublist new ∧ table' = entered.foldl enter table

theorem Enters.none (table : SymbolTable) (new : List Symbol) : table.Enters new table :=
  ⟨[], List.nil_sublist new, rfl⟩

theorem Enters.all (table : SymbolTable) (new : List Symbol) :
    table.Enters new (new.foldl enter table) :=
  ⟨new, List.Sublist.refl new, rfl⟩

theorem Enters.trans (h : table.Enters new table') (h' : table'.Enters more table'') :
    table.Enters (new ++ more) table'' := by
  obtain ⟨entered, hsub, rfl⟩ := h
  obtain ⟨entered', hsub', rfl⟩ := h'
  exact ⟨entered ++ entered', hsub.append hsub', List.foldl_append.symm⟩

theorem Enters.foldl {α : Type} {step : SymbolTable → α → SymbolTable} {new : α → List Symbol}
    (h : ∀ table a, Enters table (new a) (step table a)) (table : SymbolTable) (l : List α) :
    table.Enters (l.flatMap new) (l.foldl step table) := by
  induction l generalizing table with
  | nil => exact .none table []
  | cons a l ih => exact (h table a).trans (ih (step table a))

theorem enters_addFunction (f : SourceFile) (package : String) (table : SymbolTable) (t : Tree) :
    table.Enters ((Naming.ofFunction f.content t).map (·.symbol f package))
      (table.addFunction f package t) := by
  rw [← ofFunction?_eq]
  unfold addFunction
  cases hs : Symbol.ofFunction? f package t with
  | none => exact .none table []
  | some s =>
    obtain ⟨name, -, rfl⟩ := Option.map_eq_some_iff.mp hs
    convert Enters.all table _ using 1
    by_cases hk : t.kind = .methodDeclaration
    · simp only [hk, if_true]
      exact (enter_method table rfl).symm
    · simp only [hk, if_false]
      rfl

/-- The methods an interface lists have its name for a receiver. -/
theorem receiver_ofType {n : Naming} {ms : List Naming} (h : Naming.ofType f.content spec = n :: ms) :
    ∀ m ∈ ms, (m.symbol f package).receiver = some (n.symbol f package).name := by
  unfold Naming.ofType at h
  cases hname : spec.part? .name with
  | none => simp [hname] at h
  | some name =>
    simp only [hname, Option.toList_some, List.flatMap_singleton, List.cons.injEq] at h
    obtain ⟨rfl, rfl⟩ := h
    intro m hm
    obtain ⟨type, -, hm⟩ := List.mem_flatMap.mp hm
    obtain ⟨e, -, hm⟩ := List.mem_flatMap.mp hm
    obtain ⟨_, -, rfl⟩ := List.mem_map.mp hm
    rfl

theorem enters_addType (f : SourceFile) (package : String) (table : SymbolTable) (spec : Tree) :
    table.Enters ((Naming.ofType f.content spec).map (·.symbol f package))
      (table.addType f package spec) := by
  obtain ⟨hnone, he⟩ | ⟨n, ms, hsome, hms, hn, he⟩ := addType_cases f package table spec
  · rw [hnone, he]
    exact .none table []
  rw [he]
  split
  · exact .none table _
  · have hmethods : ∀ s ∈ ms.map (·.symbol f package),
        s.kind = .method ∧ s.receiver = some (n.symbol f package).name := by
      intro s hs
      obtain ⟨m, hm, rfl⟩ := List.mem_map.mp hs
      exact ⟨hms m hm, receiver_ofType hsome m hm⟩
    rw [hsome, List.map_cons, ← enter_methods _ hmethods, ← enter_type table hn]
    exact .all table _

theorem enters_addDeclaration (f : SourceFile) (package : String) (table : SymbolTable) (t : Tree) :
    table.Enters ((Naming.ofDeclaration f.content t).map (·.symbol f package))
      (table.addDeclaration f package t) := by
  have hvalues : ∀ {kind : SymbolKind} {specs : List Tree},
      ∀ s ∈ (specs.flatMap (Naming.ofValue kind)).map (·.symbol f package), s.kind = kind := by
    intro kind specs s hs
    obtain ⟨n, hn, rfl⟩ := List.mem_map.mp hs
    obtain ⟨spec, -, hn⟩ := List.mem_flatMap.mp hn
    exact (Naming.mem_ofValue hn).2
  unfold addDeclaration
  split
  · next hk =>
    simp only [Naming.ofDeclaration, hk]
    exact enters_addFunction f package table t
  · next hk =>
    simp only [Naming.ofDeclaration, hk]
    exact enters_addFunction f package table t
  · next hk =>
    simp only [Naming.ofDeclaration, hk, List.map_flatMap]
    exact Enters.foldl (enters_addType f package) table t.typeSpecs
  · next hk =>
    simp only [Naming.ofDeclaration, hk]
    rw [valueSymbols_eq, ← enter_vars table hvalues]
    exact .all table _
  · next hk =>
    simp only [Naming.ofDeclaration, hk]
    rw [valueSymbols_eq, ← enter_constants table hvalues]
    exact .all table _
  · exact .none table _

theorem enters_addFiles (package : String) (table : SymbolTable) (files : List SourceFile) :
    table.Enters (Symbol.declared package files) (files.foldl (addFile package) table) := by
  refine Enters.foldl (fun table f => ?_) table files
  rw [Naming.ofFile, List.map_flatMap]
  exact Enters.foldl (enters_addDeclaration f package) table f.tree.named

theorem enters_ofPackage (p : Package) (tests : Bool) :
    Enters {} (Symbol.declared p.key (p.allFiles tests)) (ofPackage p tests) :=
  enters_addFiles p.key {} (p.allFiles tests)

theorem ofPackage_tests (p : Package) :
    ofPackage p true = p.testFiles.foldl (addFile p.key) (ofPackage p false) :=
  List.foldl_append

theorem enters_tests (p : Package) :
    (ofPackage p false).Enters (Symbol.declared p.key p.testFiles) (ofPackage p true) := by
  rw [ofPackage_tests]
  exact enters_addFiles p.key (ofPackage p false) p.testFiles

/-- Each symbol stands under its name in the place of its kind, or under its receiver; no name, and no
receiver, has two places. -/
structure Filed (table : SymbolTable) : Prop where
  named : ∀ k, ∀ e ∈ table.bucket k, e.1 = e.2.name ∧ e.1 ≠ "_" ∧ e.2.kind.object? = some k
  names : ∀ k, ((table.bucket k).map (·.1)).Nodup
  received : ∀ e ∈ table.methods, ∀ s ∈ e.2, s.kind = .method ∧ s.receiver = some e.1
  receivers : (table.methods.map (·.1)).Nodup

theorem filed_empty : Filed {} where
  named k e he := by cases k <;> cases he
  names k := by cases k <;> exact List.nodup_nil
  received e he := by cases he
  receivers := List.nodup_nil

section

variable (h : table.Filed)
include h

theorem Filed.named_enter (s : Symbol) {k : ObjectKind} :
    ∀ e ∈ (table.enter s).bucket k, e.1 = e.2.name ∧ e.1 ≠ "_" ∧ e.2.kind.object? = some k := by
  intro e he
  rw [bucket_enter] at he
  split at he
  · next hk =>
    unfold addTo at he
    split at he
    · exact h.named k e he
    · next hblank =>
      rcases Dict.mem_addNew he with rfl | he
      · exact ⟨rfl, hblank, hk⟩
      · exact h.named k e he
  · exact h.named k e he

theorem Filed.names_enter (s : Symbol) (k : ObjectKind) :
    (((table.enter s).bucket k).map (·.1)).Nodup := by
  rw [bucket_enter]
  unfold addTo
  split
  · split
    · exact h.names k
    · exact Dict.nodup_addNew (h.names k)
  · exact h.names k

theorem Filed.received_gather {s : Symbol} {receiver : String} (hk : s.kind = .method)
    (hr : s.receiver = some receiver) :
    ∀ e ∈ table.methods.gather receiver s, ∀ m ∈ e.2, m.kind = .method ∧ m.receiver = some e.1 := by
  intro e he m hm
  have hlookup := Dict.lookup_of_mem (Dict.nodup_gather h.receivers) he
  rw [Dict.lookup_gather] at hlookup
  split at hlookup
  · next hreceiver =>
    obtain rfl : e.1 = receiver := beq_iff_eq.mp hreceiver
    rw [← Option.some.inj hlookup] at hm
    rcases List.mem_append.mp hm with hm | hm
    · cases hbefore : table.methods.lookup e.1 with
      | none => simp [hbefore] at hm
      | some values =>
        rw [hbefore] at hm
        exact h.received _ (Dict.mem_of_lookup hbefore) m hm
    · obtain rfl := List.mem_singleton.mp hm
      exact ⟨hk, hr⟩
  · exact h.received e (Dict.mem_of_lookup hlookup) m hm

theorem Filed.enter (s : Symbol) : (table.enter s).Filed := by
  by_cases hk : s.kind = .method
  · cases hr : s.receiver with
    | none =>
      rw [enter_method table hk, hr]
      exact h
    | some receiver =>
      have hmethods : (table.enter s).methods = table.methods.gather receiver s := by
        rw [enter_method table hk, hr]
        rfl
      exact ⟨fun _ => h.named_enter s, h.names_enter s, hmethods ▸ h.received_gather hk hr,
        hmethods ▸ Dict.nodup_gather h.receivers⟩
  · have hmethods := methods_enter_of_ne table hk
    exact ⟨fun _ => h.named_enter s, h.names_enter s, hmethods ▸ h.received,
      hmethods ▸ h.receivers⟩

end

theorem Filed.enters (h : table.Filed) (hnew : table.Enters new table') : table'.Filed := by
  obtain ⟨entered, -, rfl⟩ := hnew
  clear new
  induction entered generalizing table with
  | nil => exact h
  | cons s entered ih => exact ih (h.enter s)

theorem filed_ofPackage (p : Package) (tests : Bool) : (ofPackage p tests).Filed :=
  filed_empty.enters (enters_ofPackage p tests)

/-- A table extends another: each place goes on as in the other, and so do the methods of each
receiver. -/
structure Extends (table table' : SymbolTable) : Prop where
  buckets : ∀ k, table.bucket k <+: table'.bucket k
  receivers : table.methods.map (·.1) <+: table'.methods.map (·.1)
  methods : ∀ receiver,
    (table.methods.lookup receiver).getD [] <+: (table'.methods.lookup receiver).getD []

theorem Extends.refl (table : SymbolTable) : table.Extends table :=
  ⟨fun _ => List.prefix_refl _, List.prefix_refl _, fun _ => List.prefix_refl _⟩

theorem Extends.trans (h : table.Extends table') (h' : table'.Extends table'') :
    table.Extends table'' :=
  ⟨fun k => (h.buckets k).trans (h'.buckets k), h.receivers.trans h'.receivers,
    fun receiver => (h.methods receiver).trans (h'.methods receiver)⟩

theorem Extends.subset (h : table.Extends table') (hfiled : table.Filed) :
    table.symbols ⊆ table'.symbols := by
  have hbucket : ∀ k, (table.bucket k).map (·.2) ⊆ (table'.bucket k).map (·.2) :=
    fun k => ((h.buckets k).map (·.2)).subset
  have hmethods : table.methods.flatMap (·.2) ⊆ table'.methods.flatMap (·.2) := by
    intro s hs
    obtain ⟨e, he, hs⟩ := List.mem_flatMap.mp hs
    have hmore := (h.methods e.1).subset
    rw [Dict.lookup_of_mem hfiled.receivers he, Option.getD_some] at hmore
    cases hlookup : table'.methods.lookup e.1 with
    | none => simp [hlookup] at hmore; simp [hmore] at hs
    | some ms =>
      rw [hlookup] at hmore
      exact List.mem_flatMap.mpr ⟨_, Dict.mem_of_lookup hlookup, hmore hs⟩
  intro s hs
  simp only [symbols, List.mem_append] at hs ⊢
  exact hs.imp (.imp (.imp (.imp (@hbucket .func s) (@hbucket .type s)) (@hbucket .var s))
    (@hbucket .const s)) (@hmethods s)

theorem prefix_addTo (bucket : Dict String Symbol) (s : Symbol) : bucket <+: addTo bucket s := by
  unfold addTo
  split
  · exact List.prefix_refl bucket
  · exact Dict.prefix_addNew s.name s bucket

theorem extends_addMethod (table : SymbolTable) (receiver : String) (s : Symbol) :
    table.Extends (table.addMethod receiver s) where
  buckets k := bucket_addMethod table receiver s k ▸ List.prefix_refl _
  receivers := Dict.prefix_keys_gather receiver s table.methods
  methods other := by
    rw [addMethod, Dict.lookup_gather]
    split
    · exact List.prefix_append _ _
    · exact List.prefix_refl _

theorem extends_enter (table : SymbolTable) (s : Symbol) : table.Extends (table.enter s) := by
  by_cases hk : s.kind = .method
  · rw [enter_method table hk]
    cases s.receiver with
    | none => exact .refl table
    | some receiver => exact extends_addMethod table receiver s
  · have hbuckets : ∀ k, table.bucket k <+: (table.enter s).bucket k := by
      intro k
      rw [bucket_enter]
      split
      · exact prefix_addTo _ s
      · exact List.prefix_refl _
    have hmethods := methods_enter_of_ne table hk
    exact ⟨hbuckets, hmethods ▸ List.prefix_refl _, fun _ => hmethods ▸ List.prefix_refl _⟩

theorem Enters.extends (h : table.Enters new table') : table.Extends table' := by
  obtain ⟨entered, -, rfl⟩ := h
  clear new
  induction entered generalizing table with
  | nil => exact .refl table
  | cons s entered ih => exact (extends_enter table s).trans ih

/-- What is new in the table with tests is declared in the test files. -/
theorem mem_or_declared_tests {p : Package} (hs : s ∈ (ofPackage p true).symbols) :
    s ∈ (ofPackage p false).symbols ∨ s ∈ Symbol.declared p.key p.testFiles := by
  have hcount : (ofPackage p true).symbols.count s ≤
      (ofPackage p false).symbols.count s + (Symbol.declared p.key p.testFiles).count s := by
    rw [ofPackage_tests]
    exact count_foldl_le s (count_addFile_le s p.key) (ofPackage p false) p.testFiles
  have hpos := List.count_pos_iff.mpr hs
  rw [← List.count_pos_iff, ← List.count_pos_iff]
  omega

/-- The table with tests extends the one without, by symbols the test files declare. The blank name is
in neither. -/
theorem ofPackage_extends (p : Package) :
    (ofPackage p false).Extends (ofPackage p true) ∧
      (∀ s ∈ (ofPackage p true).symbols,
        s ∈ (ofPackage p false).symbols ∨ s ∈ Symbol.declared p.key p.testFiles) ∧
      ∀ tests k, "_" ∉ ((ofPackage p tests).bucket k).map (·.1) := by
  refine ⟨(enters_tests p).extends, fun s hs => mem_or_declared_tests hs, ?_⟩
  intro tests k hblank
  obtain ⟨e, he, hname⟩ := List.mem_map.mp hblank
  exact ((filed_ofPackage p tests).named k e he).2.1 hname

end SymbolTable

end GoAtlas
