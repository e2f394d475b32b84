import GoAtlas.Proofs.Check.Agreement
import GoAtlas.Proofs.Check.Integrity
import GoAtlas.Proofs.Symbol.Buckets
import GoAtlas.Proofs.Symbol.Occurrences

namespace GoAtlas

open Syntax Check

def Check.Object.core (o : Object) : String × ObjectKind × Option Spot :=
  (o.name, o.kind, o.spot)

def Naming.bound? (f : SourceFile) (n : Naming) : Option (String × ObjectKind × Option Spot) :=
  n.kind.object?.map fun k => (f.text n.name, k, some ⟨f.path, n.name.start⟩)

namespace Check.Declared

variable {package name : String} {d : Declared}

theorem bound?_ofType (f : SourceFile) (spec : Tree) :
    (Naming.ofType f.content spec).filterMap (Naming.bound? f) =
      (spec.part? .name).toList.map fun n => (f.text n, .type, some ⟨f.path, n.start⟩) := by
  -- a method is bound to no name, so that those an interface lists can be left out
  have hfilter : ∀ l : List Naming, l.filterMap (Naming.bound? f) =
      (l.filter (·.kind ≠ .method)).filterMap (Naming.bound? f) := by
    intro l
    rw [List.filterMap_filter]
    apply List.filterMap_congr
    intro n _
    by_cases hk : n.kind = .method
    · simp [hk, Naming.bound?, SymbolKind.object?]
    · simp [hk]
  rw [hfilter, Naming.filter_ofType]
  cases spec.part? .name with
  | none => rfl
  | some n =>
    cases ((spec.part? .type).filter (·.kind = .interfaceType)).isSome with
    | true => rfl
    | false => rfl

theorem bound?_ofValue (f : SourceFile) {kind : SymbolKind} {k : ObjectKind}
    (hkind : kind.object? = some k) (package : String) (specs : List Tree) :
    ((specs.flatMap (specNames f.content)).map fun (n, type) =>
        (objectAt package f.path n k type).core) =
      (specs.flatMap (Naming.ofValue kind)).filterMap (Naming.bound? f) := by
  rw [List.map_flatMap, List.filterMap_flatMap]
  congr 1
  funext spec
  have hnames : (specNames f.content spec).map (fun (n, type) =>
      (objectAt package f.path n k type).core) = ((spec.parts .name).zipIdx.map (·.1)).map
        fun n => (f.text n, k, some ⟨f.path, n.start⟩) := by
    rw [specNames, List.map_map, List.map_map]
    rfl
  have hbound : (Naming.ofValue kind spec).filterMap (Naming.bound? f) =
      (spec.parts .name).map fun n => (f.text n, k, some ⟨f.path, n.start⟩) := by
    rw [Naming.ofValue, List.filterMap_map, ← List.filterMap_eq_map]
    apply List.filterMap_congr
    intro n _
    simp [Naming.bound?, hkind]
  rw [hnames, hbound, List.zipIdx_map_fst]

theorem objects_core (package : String) (f : SourceFile) (t : Tree) :
    (objects package f t).map (·.1.core) =
      (Naming.ofDeclaration f.content t).filterMap (Naming.bound? f) := by
  unfold objects
  split
  · next hk =>
    simp only [Naming.ofDeclaration, hk, Naming.ofFunction]
    cases t.part? .name with
    | none => rfl
    | some n => rfl
  · next hk =>
    simp only [Naming.ofDeclaration, hk]
    rw [List.filterMap_flatMap, List.filterMap_eq_flatMap_toList, List.map_map, List.map_flatMap]
    congr 1
    funext spec
    exact (bound?_ofType f spec).symm
  · next hk =>
    simp only [Naming.ofDeclaration, hk, List.map_map]
    exact bound?_ofValue f rfl package (t.specs .varSpec)
  · next hk =>
    simp only [Naming.ofDeclaration, hk, List.map_map]
    exact bound?_ofValue f rfl package (t.specs .constSpec)
  · next hfunction htype hvar hconst =>
    have hnone : (Naming.ofDeclaration f.content t).filterMap (Naming.bound? f) = [] := by
      unfold Naming.ofDeclaration
      split
      · next hk => exact (hfunction hk).elim
      · next hk =>
        apply List.filterMap_eq_nil_iff.mpr
        intro n hn
        obtain ⟨name, -, rfl⟩ := List.mem_map.mp hn
        simp [Naming.bound?, hk, SymbolKind.object?]
      · next hk => exact (htype hk).elim
      · next hk => exact (hvar hk).elim
      · next hk => exact (hconst hk).elim
      · rfl
    rw [hnone]
    rfl

theorem bound_iff_of_mem_objects {f : SourceFile} {t : Tree} {x : Object × Bool}
    (hx : x ∈ objects package f t) :
    x.2 = true ↔ x.1.name ≠ if x.1.kind = .func then "init" else "_" := by
  unfold objects at hx
  split at hx
  · obtain ⟨n, -, rfl⟩ := List.mem_map.mp hx
    exact bne_iff_ne
  · obtain ⟨n, -, rfl⟩ := List.mem_map.mp hx
    exact bne_iff_ne
  · obtain ⟨n, -, rfl⟩ := List.mem_map.mp hx
    exact bne_iff_ne
  · obtain ⟨n, -, rfl⟩ := List.mem_map.mp hx
    exact bne_iff_ne
  · cases hx

theorem lookup_addAll (d : Declared) (name : String) (xs : List (Object × Bool)) :
    (xs.foldl (fun d (o, bound) => d.add o bound) d).names.lookup name =
      (d.names.lookup name).or ((xs.find? fun x => x.2 && x.1.name == name).map (·.1)) := by
  induction xs generalizing d with
  | nil => simp
  | cons x xs ih =>
    obtain ⟨o, bound⟩ := x
    rw [List.foldl_cons, ih, List.find?_cons]
    cases bound with
    | false => simp [add]
    | true =>
      have hnames : (d.add o true).names = d.names.addNew o.name o := rfl
      rw [hnames, Dict.lookup_addNew]
      by_cases hname : o.name = name
      · simp [hname]
      · have hne : (o.name == name) = false := by simpa using hname
        have hne' : (name == o.name) = false := by simpa using fun h => hname h.symm
        simp [hne, hne']

theorem core_withMethod (method : String) (o : Object) : (withMethod method o).core = o.core := by
  obtain ⟨methods, he⟩ := withMethod_eq method o
  rw [he]
  rfl

theorem core_addMethod (d : Declared) (f : SourceFile) (t : Tree) :
    ((d.addMethod package f t).names.lookup name).map (·.core) =
      (d.names.lookup name).map (·.core) := by
  unfold addMethod
  split
  · rfl
  · dsimp only
    split
    · split
      · rw [Dict.lookup_adjust]
        split
        · rw [Option.map_map]
          congr 1
          funext o
          exact core_withMethod _ o
        · rfl
      · rfl
    · rfl

theorem core_addMethods (d : Declared) (files : List SourceFile) :
    ((files.foldl (addMethods package) d).names.lookup name).map (·.core) =
      (d.names.lookup name).map (·.core) := by
  induction files generalizing d with
  | nil => rfl
  | cons f files ih =>
    have hfile : ∀ (ts : List Tree) (d : Declared),
        ((ts.foldl (addMethod package f) d).names.lookup name).map (·.core) =
          (d.names.lookup name).map (·.core) := by
      intro ts
      induction ts with
      | nil => exact fun _ => rfl
      | cons t ts ih => exact fun d => (ih _).trans (core_addMethod d f t)
    exact (ih _).trans (hfile _ d)

def objectsOf (package : String) (files : List SourceFile) : List (Object × Bool) :=
  files.flatMap fun f => f.tree.named.flatMap (objects package f)

theorem core_objectsOf (package : String) (files : List SourceFile) :
    (objectsOf package files).map (·.1.core) =
      files.flatMap fun f => (Naming.ofFile f).filterMap (Naming.bound? f) := by
  rw [objectsOf, List.map_flatMap]
  congr 1
  funext f
  rw [List.map_flatMap, Naming.ofFile, List.filterMap_flatMap]
  congr 1
  funext t
  exact objects_core package f t

theorem bound_iff_of_mem_objectsOf {files : List SourceFile} {x : Object × Bool}
    (hx : x ∈ objectsOf package files) :
    x.2 = true ↔ x.1.name ≠ if x.1.kind = .func then "init" else "_" := by
  obtain ⟨f, -, hx⟩ := List.mem_flatMap.mp hx
  obtain ⟨t, -, hx⟩ := List.mem_flatMap.mp hx
  exact bound_iff_of_mem_objects hx

theorem bound_of_mem_objectsOf {files : List SourceFile} {x : Object × Bool}
    (hx : x ∈ objectsOf package files) (hblank : x.1.name ≠ "_") (hinit : x.1.name ≠ "init") :
    x.2 = true := by
  rw [bound_iff_of_mem_objectsOf hx]
  split
  · exact hinit
  · exact hblank

/-- The first object to be bound to a name is the first of its kind that bears it: whether an object is
bound depends on these two only. -/
theorem find?_kind_objectsOf {files : List SourceFile} {first : Object × Bool}
    (h : (objectsOf package files).find? (fun x => x.2 && x.1.name == name) = some first) :
    (objectsOf package files).find? (fun x => decide (x.1.kind = first.1.kind) && x.1.name == name) =
      some first := by
  obtain ⟨hbound, before, after, hsplit, hbefore⟩ := List.find?_eq_some_iff_append.mp h
  obtain ⟨hbound, hname⟩ := Bool.and_eq_true_iff.mp hbound
  apply List.find?_eq_some_iff_append.mpr
  refine ⟨Bool.and_eq_true_iff.mpr ⟨decide_eq_true rfl, hname⟩, before, after, hsplit, ?_⟩
  intro x hx
  rw [Bool.not_eq_true', Bool.and_eq_false_imp]
  intro hk
  rw [← Bool.not_eq_true]
  intro hn
  have hxbound : x.2 = true := by
    have hmem : x ∈ objectsOf package files := hsplit ▸ List.mem_append_left _ hx
    rw [bound_iff_of_mem_objectsOf hmem, of_decide_eq_true hk, beq_iff_eq.mp hn,
      ← beq_iff_eq.mp hname]
    exact (bound_iff_of_mem_objectsOf (List.mem_of_find?_eq_some h)).mp hbound
  have hnot := hbefore x hx
  rw [hxbound, hn] at hnot
  cases hnot

/-- A name is bound to the first of the objects that are to be bound to it. -/
theorem core_lookup (package name : String) (files : List SourceFile) :
    ((ofFiles package files).names.lookup name).map (·.core) =
      ((objectsOf package files).find? fun x => x.2 && x.1.name == name).map (·.1.core) := by
  have hfold : files.foldl (addNames package) {} =
      (objectsOf package files).foldl (fun d (o, bound) => d.add o bound) {} :=
    List.foldl_flatMap.symm
  rw [ofFiles, core_addMethods, hfold, lookup_addAll, List.lookup_nil, Option.none_or,
    Option.map_map]
  rfl

theorem core_ofFiles (hblank : name ≠ "_") (hinit : name ≠ "init") (files : List SourceFile) :
    ((ofFiles package files).names.lookup name).map (·.core) =
      (files.flatMap fun f => (Naming.ofFile f).filterMap (Naming.bound? f)).find?
        (·.1 == name) := by
  have hfind : (objectsOf package files).find? (fun x => x.2 && x.1.name == name) =
      (objectsOf package files).find? (·.1.name == name) := by
    rw [← List.head?_filter, ← List.head?_filter]
    congr 1
    apply List.filter_congr
    intro x hx
    by_cases hname : x.1.name = name
    · rw [bound_of_mem_objectsOf hx (hname ▸ hblank) (hname ▸ hinit), Bool.true_and]
    · simp [hname]
  rw [core_lookup, hfind, ← core_objectsOf package files, List.find?_map]
  rfl

end Check.Declared

/-- A symbol stands before another: in an earlier file, or further up in the same one. -/
def Symbol.Earlier (files : List SourceFile) (s s' : Symbol) : Prop :=
  (files.map (·.path)).idxOf s.file < (files.map (·.path)).idxOf s'.file ∨
    s.file = s'.file ∧ s.position < s'.position

namespace Naming

variable {files : List SourceFile} {package name : String} {k : ObjectKind}
  {x y : SourceFile × Naming}

/-- The names given in files, each with its file, in the order in which they are read. -/
def ofFiles (files : List SourceFile) : List (SourceFile × Naming) :=
  files.flatMap fun f => (ofFile f).map (f, ·)

def bears (name : String) (x : SourceFile × Naming) : Bool :=
  x.2.kind.object?.isSome && x.1.text x.2.name == name

theorem declared_eq (package : String) (files : List SourceFile) :
    Symbol.declared package files = (ofFiles files).map fun x => x.2.symbol x.1 package := by
  simp only [Symbol.declared, ofFiles, List.map_flatMap, List.map_map]
  rfl

theorem bears_of_isNamed (h : (x.2.symbol x.1 package).isNamed k name) : bears name x := by
  obtain ⟨hk, hname⟩ := Bool.and_eq_true_iff.mp h
  have hk : x.2.kind.object? = some k := of_decide_eq_true hk
  simp only [bears, hk, Option.isSome_some, Bool.true_and]
  exact hname

theorem isNamed_of_bears (h : bears name x) (hk : x.2.kind.object? = some k) :
    (x.2.symbol x.1 package).isNamed k name :=
  Bool.and_eq_true_iff.mpr ⟨decide_eq_true hk, (Bool.and_eq_true_iff.mp h).2⟩

theorem bound?_ofFiles (files : List SourceFile) :
    (files.flatMap fun f => (ofFile f).filterMap (bound? f)) =
      (ofFiles files).filterMap fun x => x.2.bound? x.1 := by
  simp only [ofFiles, List.filterMap_flatMap, List.filterMap_map]
  rfl

theorem core_eq (hblank : name ≠ "_") (hinit : name ≠ "init") (path : String)
    (files : List SourceFile) :
    ((Declared.ofFiles path files).names.lookup name).map (·.core) =
      ((ofFiles files).find? (bears name)).bind fun x => x.2.bound? x.1 := by
  have hany : (fun x : SourceFile × Naming => (x.2.bound? x.1).any (·.1 == name)) =
      bears name := by
    funext x
    unfold bound? bears
    cases x.2.kind.object? with
    | none => rfl
    | some k => rfl
  rw [Declared.core_ofFiles hblank hinit, bound?_ofFiles, List.find?_filterMap, hany]

theorem lookup_isSome (hblank : name ≠ "_") (hinit : name ≠ "init") (path : String) :
    ((Declared.ofFiles path files).names.lookup name).isSome ↔
      ∃ x ∈ ofFiles files, bears name x := by
  rw [← Option.isSome_map, core_eq hblank hinit, ← List.find?_isSome]
  cases hx : (ofFiles files).find? (bears name) with
  | none => simp
  | some x =>
    have hbears := List.find?_some hx
    obtain ⟨k, hk⟩ := Option.isSome_iff_exists.mp (Bool.and_eq_true_iff.mp hbears).1
    simp [bound?, hk]

theorem find?_of_lookup (hblank : name ≠ "_") (hinit : name ≠ "init") {path : String} {o : Object}
    (ho : (Declared.ofFiles path files).names.lookup name = some o) :
    ∃ x, (ofFiles files).find? (bears name) = some x ∧ x.2.kind.object? = some o.kind ∧
      o.spot = some ⟨x.1.path, x.2.name.start⟩ := by
  have hcore := core_eq hblank hinit path files
  rw [ho, Option.map_some] at hcore
  obtain ⟨x, hx, hbound⟩ := Option.bind_eq_some_iff.mp hcore.symm
  obtain ⟨k, hk, he⟩ := Option.map_eq_some_iff.mp hbound
  simp only [Object.core, Prod.mk.injEq] at he
  obtain ⟨-, rfl, hspot⟩ := he
  exact ⟨x, hx, hk, hspot.symm⟩

/-- Whatever it is, a name denotes what the first naming of its kind spelled so declares. -/
theorem first_of_lookup {path : String} {o : Object}
    (ho : (Declared.ofFiles path files).names.lookup name = some o) :
    ∃ x, (ofFiles files).find? (fun y => (y.2.symbol y.1 path).isNamed o.kind name) = some x ∧
      o.spot = some ⟨x.1.path, x.2.name.start⟩ := by
  have hcore := Declared.core_lookup path name files
  rw [ho, Option.map_some] at hcore
  obtain ⟨first, hfirst, he⟩ := Option.map_eq_some_iff.mp hcore.symm
  have hkind : first.1.kind = o.kind := congrArg (·.2.1) he
  have hsame := hkind ▸ Declared.find?_kind_objectsOf hfirst
  have hany : (fun x : SourceFile × Naming =>
      (x.2.bound? x.1).any fun c => decide (c.2.1 = o.kind) && c.1 == name) =
        fun y => (y.2.symbol y.1 path).isNamed o.kind name := by
    funext x
    unfold bound? Symbol.isNamed
    cases hk : x.2.kind.object? with
    | none => simp [symbol, Symbol.ofNodes, hk]
    | some k => simp [symbol, Symbol.ofNodes, hk]
  have hfound : ((ofFiles files).filterMap fun x => x.2.bound? x.1).find?
      (fun c => decide (c.2.1 = o.kind) && c.1 == name) = some o.core := by
    rw [← bound?_ofFiles, ← Declared.core_objectsOf path, List.find?_map]
    exact (congrArg (Option.map (·.1.core)) hsame).trans (congrArg some he)
  rw [List.find?_filterMap, hany] at hfound
  obtain ⟨x, hx, hbound⟩ := Option.bind_eq_some_iff.mp hfound
  obtain ⟨k, -, hcore⟩ := Option.map_eq_some_iff.mp hbound
  exact ⟨x, hx, (congrArg (·.2.2) hcore).symm⟩

/-- Names other than those of methods are read in the order of the files and, within one, of the
bytes at which they start. -/
theorem ofFiles_ordered (hpaths : (files.map (·.path)).Nodup)
    (hr : ∀ f ∈ files, ∃ size, Parsed size f.tree) (package : String) :
    (ofFiles files).Pairwise fun x y => x.2.kind ≠ .method → y.2.kind ≠ .method →
      (x.2.symbol x.1 package).Earlier files (y.2.symbol y.1 package) := by
  apply List.pairwise_flatMap.mpr
  constructor
  · intro f hf
    obtain ⟨size, hr⟩ := hr f hf
    apply List.pairwise_map.mpr
    apply (List.pairwise_filter.mp (starts_lt hr)).imp
    intro m n h hm hn
    have hlt := h (decide_eq_true hm) (decide_eq_true hn)
    refine .inr ⟨rfl, ?_⟩
    change f.position m.name.start < f.position n.name.start
    simp only [SourceFile.position]
    omega
  · apply List.pairwise_iff_getElem.mpr
    intro i j hi hj hij x hx y hy _ _
    obtain ⟨m, -, rfl⟩ := List.mem_map.mp hx
    obtain ⟨n, -, rfl⟩ := List.mem_map.mp hy
    left
    have hidx : ∀ i (h : i < files.length), (files.map (·.path)).idxOf files[i].path = i := by
      intro i h
      have he := hpaths.idxOf_getElem i (by simpa using h)
      rwa [List.getElem_map] at he
    change (files.map (·.path)).idxOf files[i].path < (files.map (·.path)).idxOf files[j].path
    rw [hidx i hi, hidx j hj]
    exact hij

end Naming

/-- The names bound for a package agree with its symbol table: `_` and `init` apart, a name is bound
if and only if a bucket has it, and to the earliest of the symbols under it. -/
structure NamesAgree (ws : Workspace) (p : Package) (names : Frame) : Prop where
  bound : ∀ name, name ≠ "_" → name ≠ "init" →
    ((names.lookup name).isSome ↔
      ∃ k, (((SymbolTable.ofPackage p false).bucket k).lookup name).isSome)
  earliest : ∀ name, name ≠ "_" → name ≠ "init" → ∀ o, names.lookup name = some o →
    ∃ s, ((SymbolTable.ofPackage p false).bucket o.kind).lookup name = some s ∧
      (∃ offset, Session.offsetOf? ws s = some offset ∧ o.spot = some ⟨s.file, offset⟩) ∧
      ∀ k s', ((SymbolTable.ofPackage p false).bucket k).lookup name = some s' →
        s' = s ∨ s.Earlier p.files s'

section

variable {ws : Workspace} {p : Package} {name : String} {k : ObjectKind} {s : Symbol}

/-- The symbols of a bucket by the names they stand for. -/
theorem SymbolTable.lookup_bucket (hblank : name ≠ "_") :
    ((ofPackage p false).bucket k).lookup name =
      ((Naming.ofFiles p.files).find? fun x => (x.2.symbol x.1 p.key).isNamed k name).map
        fun x => x.2.symbol x.1 p.key := by
  rw [lookup_ofPackage p false k hblank, Naming.declared_eq, List.find?_map]
  rfl

theorem SymbolTable.lookup_first (hblank : name ≠ "_") {x : SourceFile × Naming}
    (hx : (Naming.ofFiles p.files).find? (Naming.bears name) = some x)
    (hk : x.2.kind.object? = some k) :
    ((ofPackage p false).bucket k).lookup name = some (x.2.symbol x.1 p.key) := by
  obtain ⟨hbears, before, after, hsplit, hbefore⟩ := List.find?_eq_some_iff_append.mp hx
  rw [lookup_bucket hblank]
  apply Option.map_eq_some_iff.mpr
  refine ⟨x, List.find?_eq_some_iff_append.mpr
    ⟨Naming.isNamed_of_bears hbears hk, before, after, hsplit, ?_⟩, rfl⟩
  intro y hy
  cases hnamed : (y.2.symbol y.1 p.key).isNamed k name with
  | false => rfl
  | true =>
    have hnot := hbefore y hy
    rw [Naming.bears_of_isNamed hnamed] at hnot
    cases hnot

theorem Naming.earlier_of_first {files : List SourceFile} (hpaths : (files.map (·.path)).Nodup)
    (hr : ∀ f ∈ files, ∃ size, Parsed size f.tree) {x y : SourceFile × Naming}
    (hx : (ofFiles files).find? (bears name) = some x) (hy : y ∈ ofFiles files)
    (hbears : bears name y) (package : String) :
    y = x ∨ (x.2.symbol x.1 package).Earlier files (y.2.symbol y.1 package) := by
  have hkind : ∀ {z : SourceFile × Naming}, bears name z → z.2.kind ≠ .method := by
    intro z hz he
    simp [bears, he, SymbolKind.object?] at hz
  obtain ⟨hfirst, before, after, hsplit, hbefore⟩ := List.find?_eq_some_iff_append.mp hx
  have hordered := ofFiles_ordered hpaths hr package
  rw [hsplit] at hy hordered
  rcases List.mem_append.mp hy with hy | hy
  · have hnot := hbefore y hy
    rw [hbears] at hnot
    cases hnot
  rcases List.mem_cons.mp hy with rfl | hy
  · exact .inl rfl
  · have hafter := (List.pairwise_cons.mp (List.pairwise_append.mp hordered).2.1).1
    exact .inr (hafter y hy (hkind hfirst) (hkind hbears))

theorem namesAgree_ofFiles (hws : ws.Loaded) (hp : p ∈ ws.packages) (path : String) :
    NamesAgree ws p (Declared.ofFiles path p.files).names := by
  have hfiles : ∀ f ∈ p.files, f ∈ ws.files true := fun f hf => Workspace.files_subset hp hf
  have hparsed : ∀ f ∈ p.files, ∃ size, Parsed size f.tree := fun f hf => hws.parsed f (hfiles f hf)
  have hpaths : (p.files.map (·.path)).Nodup := Checks.apart_files hws hp
  constructor
  · intro name hblank hinit
    rw [Naming.lookup_isSome hblank hinit]
    simp only [SymbolTable.lookup_bucket hblank, Option.isSome_map, List.find?_isSome]
    constructor
    · rintro ⟨x, hx, hbears⟩
      obtain ⟨k, hk⟩ := Option.isSome_iff_exists.mp (Bool.and_eq_true_iff.mp hbears).1
      exact ⟨k, x, hx, Naming.isNamed_of_bears hbears hk⟩
    · rintro ⟨k, x, hx, hnamed⟩
      exact ⟨x, hx, Naming.bears_of_isNamed hnamed⟩
  · intro name hblank hinit o ho
    obtain ⟨x, hx, hk, hspot⟩ := Naming.find?_of_lookup hblank hinit ho
    refine ⟨x.2.symbol x.1 p.key, SymbolTable.lookup_first hblank hx hk,
      ⟨x.2.name.start, ?_, hspot⟩, ?_⟩
    · obtain ⟨f, hf, hmem⟩ := List.mem_flatMap.mp (List.mem_of_find?_eq_some hx)
      obtain ⟨n, hn, rfl⟩ := List.mem_map.mp hmem
      obtain ⟨size, hr⟩ := hparsed f hf
      exact (Naming.names (Naming.stands_ofFile hr hn)).offsetOf? hws (hfiles f hf)
    · intro k s' hs'
      rw [SymbolTable.lookup_bucket hblank] at hs'
      obtain ⟨y, hy, rfl⟩ := Option.map_eq_some_iff.mp hs'
      have hnamed := List.find?_some hy
      have hbears : Naming.bears name y := Naming.bears_of_isNamed hnamed
      rcases Naming.earlier_of_first hpaths hparsed hx (List.mem_of_find?_eq_some hy) hbears p.key
        with rfl | hlater
      · exact .inl rfl
      · exact .inr hlater

end

/-- Whatever its imports lead to, the check of a package binds the names of its symbol table, and so
does the handle that is registered for it once it has been asked for. -/
theorem checked_names_agree {store : Files.Store} {root : String} {respectIgnore : Bool}
    {log : List LogRecord} {ws : Workspace} (hstore : store.Proper)
    (hload : Load.workspace store root respectIgnore = (.ok ws, log)) {p : Package}
    (hp : p ∈ ws.packages) :
    (∀ {σ : Type} (importer : Importer σ) (path : String) (s : σ),
      NamesAgree ws p (checkFiles importer path p.files s).1.handle.names) ∧
    ∀ rs more : List (Request ws), ∃ h,
      (Checks.performAll ws {} (rs ++ .check p hp :: more)).handles.lookup p.path = some h ∧
        NamesAgree ws p h.names := by
  have hws := Load.loaded hstore hload
  constructor
  · intro σ importer path s
    exact namesAgree_ofFiles hws hp path
  · intro rs more
    obtain ⟨i, hi⟩ := Checks.begun_of_check hws.distinct hp rs
    rw [← List.singleton_append, ← List.append_assoc, Checks.performAll_append]
    have hbefore := (Checks.performAll_sound hws.distinct (Checks.sound_empty ws)
      (rs ++ [.check p hp])).1
    have hgrows := (Checks.performAll_sound hws.distinct hbefore more).2
    have hbegun : (Checks.performAll ws {} (rs ++ [.check p hp])).Begun p := by
      simp [Checks.Begun, hi]
    obtain ⟨complete, hhandle⟩ := hbefore.handle p hp hbegun
    refine ⟨Checks.handleOf p complete, ?_, namesAgree_ofFiles hws hp p.key⟩
    rw [(hgrows.keeps p hp hbegun).2, hhandle]

/-- A name declared by a variable and a function is bound once. -/
theorem checked_names_agree_tested : ∃ ws log p, ∃ hp : p ∈ ws.packages, ∃ h,
    Load.workspace Load.tested "/ws" true = (.ok ws, log) ∧
    (Checks.performAll ws {} [.check p hp]).handles.lookup p.path = some h ∧
    (∀ k ∈ [.func, .var], (((SymbolTable.ofPackage p false).bucket k).lookup "f").isSome) ∧
    (h.names.lookup "f").isSome := by
  obtain ⟨main, hmain, test, htest, hbuckets⟩ :
      ∃ main ∈ parse? Load.testedMain, ∃ test ∈ parse? Load.testedTest,
        ∀ k ∈ [ObjectKind.func, .var],
          (((SymbolTable.ofPackage (Load.testedPackage main test) false).bucket k).lookup
            "f").isSome = true := by
    decide +kernel
  obtain ⟨log, hload⟩ := Load.workspace_tested hmain htest
  have hp : Load.testedPackage main test ∈ (Load.testedWorkspace main test).packages :=
    List.mem_singleton_self _
  obtain ⟨h, hhandle, hagree⟩ := (checked_names_agree Load.proper_tested hload hp).2 [] []
  refine ⟨_, log, _, hp, h, hload, hhandle, hbuckets, ?_⟩
  exact (hagree.bound "f" (by decide) (by decide)).mpr ⟨.func, hbuckets _ List.mem_cons_self⟩

end GoAtlas
