import GoAtlas.Proofs.Symbol.Namings
import Mathlib.Data.List.Count
import Mathlib.Data.List.Nodup

namespace GoAtlas

open Syntax Check

variable {f : SourceFile} {files : List SourceFile} {t : Tree} {size : Nat} {package : String}
  {table : SymbolTable} {s : Symbol}

/-- A symbol stands for the name written at a node of a file. -/
structure Symbol.Names (s : Symbol) (f : SourceFile) (t : Tree) : Prop where
  mem : t ∈ Tree.walkAll f.tree.children
  mark : t.kind.isMark
  top : TopName f.tree t ∨ t.kind = .fieldIdentifier
  name : s.name = f.text t
  file : s.file = f.path
  position : s.position = f.position t.start

/-- A symbol stands for a name written in one of the files. -/
def Symbol.Written (files : List SourceFile) (s : Symbol) : Prop :=
  ∃ f ∈ files, ∃ t, s.Names f t

/-- The symbols of the names given in files, in the order in which they are read. -/
def Symbol.declared (package : String) (files : List SourceFile) : List Symbol :=
  files.flatMap fun f => (Naming.ofFile f).map (·.symbol f package)

theorem Symbol.mem_declared : s ∈ declared package files ↔
    ∃ f ∈ files, ∃ n ∈ Naming.ofFile f, n.symbol f package = s := by
  simp only [declared, List.mem_flatMap, List.mem_map]

theorem Naming.names {n : Naming} (h : n.Stands f.tree) : (n.symbol f package).Names f n.name :=
  ⟨h.mem, h.mark, h.top, rfl, rfl, rfl⟩

theorem Symbol.nodup_declared (package : String) (hpaths : (files.map (·.path)).Nodup)
    (hr : ∀ f ∈ files, ∃ size, Parsed size f.tree) : (declared package files).Nodup := by
  apply List.nodup_flatMap.mpr
  constructor
  · intro f hf
    obtain ⟨size, hr⟩ := hr f hf
    apply List.pairwise_map.mpr
    apply (Naming.starts_ne hr).imp
    intro m n hne he
    have hposition : f.position m.name.start = f.position n.name.start :=
      congrArg Symbol.position he
    simp only [SourceFile.position] at hposition
    omega
  · apply (List.pairwise_map.mp hpaths).imp
    intro f g hne s hs hs'
    obtain ⟨m, -, rfl⟩ := List.mem_map.mp hs
    obtain ⟨n, -, he⟩ := List.mem_map.mp hs'
    exact hne (congrArg Symbol.file he).symm

namespace SymbolTable

theorem ofFunction?_eq (f : SourceFile) (package : String) (t : Tree) :
    (Symbol.ofFunction? f package t).toList =
      (Naming.ofFunction f.content t).map (·.symbol f package) := by
  unfold Symbol.ofFunction? Naming.ofFunction
  cases t.part? .name with
  | none => rfl
  | some name =>
    by_cases hk : t.kind = .methodDeclaration
    · simp only [hk, if_true, Option.map_some, Option.toList_some, List.map_cons, List.map_nil]
      rfl
    · simp only [hk, if_false, Option.map_some, Option.toList_some, List.map_cons, List.map_nil]
      rfl

theorem interfaceMethods_eq (f : SourceFile) (package receiver : String) (type : Tree) :
    interfaceMethods f package receiver type =
      (Naming.ofInterface f.content receiver type).map (·.symbol f package) := by
  unfold interfaceMethods Naming.ofInterface
  rw [List.filterMap_eq_flatMap_toList, List.map_flatMap]
  congr 1
  funext e
  cases e.part? .name with
  | none => rfl
  | some name => rfl

theorem valueSymbols_eq (f : SourceFile) (package : String) (kind : SymbolKind)
    (specs : List Tree) : specs.flatMap (valueSymbols f package kind) =
      (specs.flatMap (Naming.ofValue kind)).map (·.symbol f package) := by
  rw [List.map_flatMap]
  congr 1
  funext spec
  rw [valueSymbols, Naming.ofValue, List.map_map]
  rfl

/-- What a type specification does to a table: nothing if it has no name or its name is taken. -/
theorem addType_cases (f : SourceFile) (package : String) (table : SymbolTable) (spec : Tree) :
    Naming.ofType f.content spec = [] ∧ table.addType f package spec = table ∨
      ∃ n ms, Naming.ofType f.content spec = n :: ms ∧ (∀ m ∈ ms, m.kind = .method) ∧
        (n.kind = .type ∨ n.kind = .interface) ∧
        table.addType f package spec =
          if (table.types.lookup (n.symbol f package).name).isSome then table
          else (ms.map (·.symbol f package)).foldl
            (fun t m => t.addMethod (n.symbol f package).name m)
            { table with types := addTo table.types (n.symbol f package) } := by
  unfold addType
  cases hname : spec.part? .name with
  | none =>
    left
    simp [Naming.ofType, hname]
  | some name =>
    right
    cases htype : (spec.part? .type).filter (·.kind = .interfaceType) with
    | none =>
      refine ⟨⟨name, spec, .type, none, none⟩, [], ?_, ?_, .inl rfl, rfl⟩
      · simp [Naming.ofType, hname, htype]
      · intro m hm
        cases hm
    | some type =>
      refine ⟨⟨name, spec, .interface, none, none⟩,
        Naming.ofInterface f.content (name.text f.content) type, ?_,
        fun m hm => (Naming.mem_ofInterface hm).1, .inr rfl, ?_⟩
      · simp [Naming.ofType, hname, htype]
      · rw [← interfaceMethods_eq]
        rfl

variable (x : Symbol)

theorem count_addTo_le (bucket : Dict String Symbol) (s : Symbol) :
    ((addTo bucket s).map (·.2)).count x ≤ (bucket.map (·.2)).count x + [s].count x := by
  unfold addTo Dict.addNew
  split
  · exact Nat.le_add_right _ _
  split
  · exact Nat.le_add_right _ _
  · rw [List.map_append, List.count_append]
    exact Nat.le_refl _

theorem count_addAll_le (bucket : Dict String Symbol) (ss : List Symbol) :
    ((ss.foldl addTo bucket).map (·.2)).count x ≤ (bucket.map (·.2)).count x + ss.count x := by
  induction ss generalizing bucket with
  | nil => exact Nat.le_refl _
  | cons s ss ih =>
    have hfirst := count_addTo_le x bucket s
    have hrest := ih (addTo bucket s)
    rw [← List.singleton_append, List.count_append]
    rw [List.singleton_append, List.foldl_cons]
    omega

theorem count_gather (d : Dict String (List Symbol)) (key : String) (s : Symbol) :
    ((d.gather key s).flatMap (·.2)).count x = (d.flatMap (·.2)).count x + [s].count x := by
  have hadjust : (d.lookup key).isSome →
      ((d.adjust key (· ++ [s])).flatMap (·.2)).count x =
        (d.flatMap (·.2)).count x + [s].count x := by
    induction d with
    | nil => simp
    | cons e d ih =>
      obtain ⟨k, ms⟩ := e
      intro hl
      by_cases hk : key = k
      · simp only [Dict.adjust, hk, beq_self_eq_true, if_true, List.flatMap_cons, List.count_append]
        omega
      · have hk : (key == k) = false := by simpa using hk
        rw [List.lookup_cons, hk] at hl
        simp only [Dict.adjust, hk, Bool.false_eq_true, if_false, List.flatMap_cons,
          List.count_append, ih hl]
        omega
  unfold Dict.gather
  split
  · next hl => exact hadjust hl
  · simp [List.flatMap_append, List.count_append]

theorem count_addMethod (table : SymbolTable) (receiver : String) (s : Symbol) :
    (table.addMethod receiver s).symbols.count x = table.symbols.count x + [s].count x := by
  simp only [symbols, addMethod, List.count_append, count_gather]
  omega

/-- What is entered by steps is among what each of them declares. -/
theorem count_foldl_le {α : Type} {step : SymbolTable → α → SymbolTable} {new : α → List Symbol}
    (h : ∀ table a, (step table a).symbols.count x ≤ table.symbols.count x + (new a).count x)
    (table : SymbolTable) (l : List α) :
    (l.foldl step table).symbols.count x ≤ table.symbols.count x + (l.flatMap new).count x := by
  induction l generalizing table with
  | nil => exact Nat.le_refl _
  | cons a l ih =>
    have hfirst := h table a
    have hrest := ih (step table a)
    rw [List.foldl_cons, List.flatMap_cons, List.count_append]
    omega

theorem count_addFunction_le (table : SymbolTable) (t : Tree) :
    (table.addFunction f package t).symbols.count x ≤
      table.symbols.count x + ((Naming.ofFunction f.content t).map (·.symbol f package)).count x := by
  rw [← ofFunction?_eq]
  unfold addFunction
  cases Symbol.ofFunction? f package t with
  | none => exact Nat.le_add_right _ _
  | some s =>
    have hbucket := count_addTo_le x table.functions s
    dsimp only [Option.toList_some]
    split
    · cases s.receiver with
      | none => exact Nat.le_add_right _ _
      | some receiver => exact Nat.le_of_eq (count_addMethod x table receiver s)
    · simp only [symbols, List.count_append]
      omega

theorem count_addType_le (table : SymbolTable) (spec : Tree) :
    (table.addType f package spec).symbols.count x ≤
      table.symbols.count x + ((Naming.ofType f.content spec).map (·.symbol f package)).count x := by
  obtain ⟨hnone, he⟩ | ⟨n, ms, hsome, -, -, he⟩ := addType_cases f package table spec
  · rw [hnone, he]
    exact Nat.le_add_right _ _
  · rw [hsome, he]
    split
    · exact Nat.le_add_right _ _
    · have hbucket := count_addTo_le x table.types (n.symbol f package)
      have hmethods := count_foldl_le x
        (fun table m => Nat.le_of_eq (count_addMethod x table (n.symbol f package).name m))
        { table with types := addTo table.types (n.symbol f package) }
        (ms.map (·.symbol f package))
      have htypes : ({ table with types := addTo table.types (n.symbol f package) } :
          SymbolTable).symbols.count x ≤ table.symbols.count x + [n.symbol f package].count x := by
        simp only [symbols, List.count_append]
        omega
      rw [List.flatMap_singleton'] at hmethods
      rw [List.map_cons, ← List.singleton_append, List.count_append]
      omega

theorem count_addDeclaration_le (table : SymbolTable) (t : Tree) :
    (table.addDeclaration f package t).symbols.count x ≤ table.symbols.count x +
      ((Naming.ofDeclaration f.content t).map (·.symbol f package)).count x := by
  unfold addDeclaration
  split
  · next hk =>
    simp only [Naming.ofDeclaration, hk]
    exact count_addFunction_le x table t
  · next hk =>
    simp only [Naming.ofDeclaration, hk]
    exact count_addFunction_le x table t
  · next hk =>
    simp only [Naming.ofDeclaration, hk, List.map_flatMap]
    exact count_foldl_le x (count_addType_le x) table t.typeSpecs
  · next hk =>
    have hvars := count_addAll_le x table.vars
      ((t.specs .varSpec).flatMap (valueSymbols f package .variable))
    simp only [Naming.ofDeclaration, hk, ← valueSymbols_eq, symbols, List.count_append]
    omega
  · next hk =>
    have hconstants := count_addAll_le x table.constants
      ((t.specs .constSpec).flatMap (valueSymbols f package .constant))
    simp only [Naming.ofDeclaration, hk, ← valueSymbols_eq, symbols, List.count_append]
    omega
  · exact Nat.le_add_right _ _

theorem count_addFile_le (package : String) (table : SymbolTable) (f : SourceFile) :
    (table.addFile package f).symbols.count x ≤
      table.symbols.count x + ((Naming.ofFile f).map (·.symbol f package)).count x := by
  rw [Naming.ofFile, List.map_flatMap]
  exact count_foldl_le x (count_addDeclaration_le x) table f.tree.named

theorem count_ofPackage_le (p : Package) (tests : Bool) :
    (ofPackage p tests).symbols.count x ≤
      (Symbol.declared p.key (p.allFiles tests)).count x := by
  have h := count_foldl_le x (count_addFile_le x p.key) {} (p.allFiles tests)
  rw [show ({} : SymbolTable).symbols.count x = 0 from rfl, Nat.zero_add] at h
  exact h

section

variable {p : Package} {tests : Bool}

theorem declared_of_mem (hs : s ∈ (ofPackage p tests).symbols) :
    s ∈ Symbol.declared p.key (p.allFiles tests) := by
  have hle := count_ofPackage_le s p tests
  have hpos := List.count_pos_iff.mpr hs
  exact List.count_pos_iff.mp (Nat.lt_of_lt_of_le hpos hle)

/-- Every symbol of a package is written in one of its files. -/
theorem written_ofPackage (hr : ∀ f ∈ p.allFiles tests, ∃ size, Parsed size f.tree)
    (hs : s ∈ (ofPackage p tests).symbols) : s.Written (p.allFiles tests) := by
  obtain ⟨f, hf, n, hn, rfl⟩ := Symbol.mem_declared.mp (declared_of_mem hs)
  obtain ⟨size, hr⟩ := hr f hf
  exact ⟨f, hf, n.name, Naming.names (Naming.stands_ofFile hr hn)⟩

theorem nodup_ofPackage (hpaths : ((p.allFiles tests).map (·.path)).Nodup)
    (hr : ∀ f ∈ p.allFiles tests, ∃ size, Parsed size f.tree) :
    (ofPackage p tests).symbols.Nodup := by
  have hnodup := Symbol.nodup_declared p.key hpaths hr
  apply List.nodup_iff_count_le_one.mpr
  intro s
  exact (count_ofPackage_le s p tests).trans (List.nodup_iff_count_le_one.mp hnodup s)

end

end SymbolTable

end GoAtlas
