import GoAtlas.Check.Object
import GoAtlas.Proofs.Symbol.Tables

namespace GoAtlas

open Syntax Check

/-- The kind of object a name at the top level denotes; methods are bound to no name. -/
def SymbolKind.object? : SymbolKind → Option ObjectKind
  | .function => some .func
  | .type | .interface => some .type
  | .variable => some .var
  | .constant => some .const
  | .method | .field => none

/-- Whether a symbol is of a kind and bears a name. -/
def Symbol.isNamed (k : ObjectKind) (name : String) (s : Symbol) : Bool :=
  s.kind.object? = some k && s.name == name

namespace SymbolTable

/-- The symbols of a kind of object by name. -/
def bucket (table : SymbolTable) : ObjectKind → Dict String Symbol
  | .func => table.functions
  | .type => table.types
  | .var => table.vars
  | .const => table.constants
  | _ => []

def Adds (table : SymbolTable) (new : List Symbol) (table' : SymbolTable) : Prop :=
  ∀ k name, name ≠ "_" →
    (table'.bucket k).lookup name =
      ((table.bucket k).lookup name).or (new.find? (·.isNamed k name))

variable {table table' table'' : SymbolTable} {new more : List Symbol} {f : SourceFile}
  {package : String} {t spec : Tree}

theorem Adds.refl (table : SymbolTable) : table.Adds [] table := by
  intro k name _
  simp

theorem Adds.trans (h : table.Adds new table') (h' : table'.Adds more table'') :
    table.Adds (new ++ more) table'' := by
  intro k name hn
  rw [h' k name hn, h k name hn, List.find?_append, Option.or_assoc]

theorem Adds.foldl {α : Type} {step : SymbolTable → α → SymbolTable} {new : α → List Symbol}
    {l : List α} (h : ∀ table, ∀ a ∈ l, Adds table (new a) (step table a)) (table : SymbolTable) :
    table.Adds (l.flatMap new) (l.foldl step table) := by
  induction l generalizing table with
  | nil => exact .refl table
  | cons a l ih =>
    have hfirst := h table a List.mem_cons_self
    exact hfirst.trans (ih (fun table b hb => h table b (List.mem_cons_of_mem a hb)) (step table a))

theorem lookup_addAll (bucket : Dict String Symbol) {name : String} (hn : name ≠ "_")
    (ss : List Symbol) :
    (ss.foldl addTo bucket).lookup name = (bucket.lookup name).or (ss.find? (·.name == name)) := by
  induction ss generalizing bucket with
  | nil => simp
  | cons s ss ih =>
    rw [List.foldl_cons, ih, List.find?_cons, addTo]
    by_cases hs : s.name = name
    · rw [if_neg (by rw [hs]; exact hn), Dict.lookup_addNew]
      simp [hs]
    · have hne : (s.name == name) = false := by simpa using hs
      have hne' : (name == s.name) = false := by simpa using fun h => hs h.symm
      rw [hne]
      split
      · rfl
      · rw [Dict.lookup_addNew, hne']
        simp

theorem Adds.ofBucket (kind : ObjectKind) (hnew : ∀ s ∈ new, s.kind.object? = some kind)
    (hsame : table'.bucket kind = new.foldl addTo (table.bucket kind))
    (hother : ∀ k, k ≠ kind → table'.bucket k = table.bucket k) : table.Adds new table' := by
  intro k name hn
  by_cases hk : k = kind
  · have hfind : new.find? (·.isNamed k name) = new.find? (·.name == name) := by
      rw [← List.head?_filter, ← List.head?_filter]
      congr 1
      apply List.filter_congr
      intro s hs
      simp [Symbol.isNamed, hnew s hs, hk]
    rw [hfind, hk, hsame, lookup_addAll _ hn]
  · have hfind : new.find? (·.isNamed k name) = none := by
      apply List.find?_eq_none.mpr
      intro s hs
      have hne : kind ≠ k := fun h => hk h.symm
      simp [Symbol.isNamed, hnew s hs, hne]
    rw [hfind, hother k hk, Option.or_none]

theorem Adds.ofNone (hnew : ∀ s ∈ new, s.kind.object? = none)
    (h : ∀ k, table'.bucket k = table.bucket k) : table.Adds new table' := by
  intro k name _
  have hfind : new.find? (·.isNamed k name) = none := by
    apply List.find?_eq_none.mpr
    intro s hs
    simp [Symbol.isNamed, hnew s hs]
  rw [hfind, h k, Option.or_none]

theorem Adds.ofTaken {s : Symbol}
    (h : ∀ k, s.kind.object? = some k → ((table.bucket k).lookup s.name).isSome) :
    table.Adds [s] table := by
  intro k name _
  cases hs : s.isNamed k name with
  | false => simp [hs]
  | true =>
    obtain ⟨hk, hname⟩ := Bool.and_eq_true_iff.mp hs
    obtain ⟨found, hfound⟩ := Option.isSome_iff_exists.mp (h k (of_decide_eq_true hk))
    rw [← beq_iff_eq.mp hname, hfound, Option.some_or]

theorem bucket_addMethod (table : SymbolTable) (receiver : String) (s : Symbol) (k : ObjectKind) :
    (table.addMethod receiver s).bucket k = table.bucket k := by
  cases k <;> rfl

theorem adds_addFunction (f : SourceFile) (package : String) (table : SymbolTable) (t : Tree) :
    table.Adds ((Naming.ofFunction f.content t).map (·.symbol f package))
      (table.addFunction f package t) := by
  rw [← ofFunction?_eq]
  unfold addFunction
  cases hs : Symbol.ofFunction? f package t with
  | none => exact .refl table
  | some s =>
    obtain ⟨name, -, rfl⟩ := Option.map_eq_some_iff.mp hs
    by_cases hk : t.kind = .methodDeclaration
    · simp only [hk, if_true]
      apply Adds.ofNone
      · intro s hs
        rw [List.mem_singleton.mp hs]
        rfl
      · intro k
        split
        · exact bucket_addMethod table _ _ k
        · rfl
    · simp only [hk, if_false]
      apply Adds.ofBucket .func
      · intro s hs
        rw [List.mem_singleton.mp hs]
        rfl
      · rfl
      · intro k hne
        cases k with
        | func => exact (hne rfl).elim
        | _ => rfl

theorem adds_addMethods (table : SymbolTable) (receiver : String)
    (hnew : ∀ s ∈ new, s.kind.object? = none) :
    table.Adds new (new.foldl (fun table m => table.addMethod receiver m) table) := by
  have h : ∀ table : SymbolTable, ∀ m ∈ new, table.Adds [m] (table.addMethod receiver m) := by
    intro table m hm
    apply Adds.ofNone _ (bucket_addMethod table receiver m)
    intro s hs
    rw [List.mem_singleton.mp hs]
    exact hnew m hm
  have hall := Adds.foldl h table
  rwa [List.flatMap_singleton'] at hall

theorem adds_addType (f : SourceFile) (package : String) (table : SymbolTable) (spec : Tree) :
    table.Adds ((Naming.ofType f.content spec).map (·.symbol f package))
      (table.addType f package spec) := by
  obtain ⟨hnone, he⟩ | ⟨n, ms, hsome, hms, hn, he⟩ := addType_cases f package table spec
  · rw [hnone, he]
    exact .refl table
  have hkind : (n.symbol f package).kind.object? = some .type := by
    change n.kind.object? = some .type
    rcases hn with hn | hn
    · rw [hn]
      rfl
    · rw [hn]
      rfl
  have hmethods : ∀ s ∈ ms.map (·.symbol f package), s.kind.object? = none := by
    intro s hs
    obtain ⟨m, hm, rfl⟩ := List.mem_map.mp hs
    change m.kind.object? = none
    rw [hms m hm]
    rfl
  rw [hsome, he, List.map_cons]
  split
  · next htaken =>
    have hfirst : table.Adds [n.symbol f package] table := by
      apply Adds.ofTaken
      intro k hk
      obtain rfl : k = .type := Option.some.inj (hk.symm.trans hkind)
      exact htaken
    exact hfirst.trans (.ofNone hmethods fun _ => rfl)
  · have hfirst : table.Adds [n.symbol f package]
        { table with types := addTo table.types (n.symbol f package) } := by
      apply Adds.ofBucket .type
      · intro s hs
        rw [List.mem_singleton.mp hs]
        exact hkind
      · rfl
      · intro k hne
        cases k with
        | type => exact (hne rfl).elim
        | _ => rfl
    exact hfirst.trans (adds_addMethods _ _ hmethods)

theorem object?_ofValue {kind : SymbolKind} {k : ObjectKind} (hkind : kind.object? = some k)
    (f : SourceFile) (package : String) (specs : List Tree) :
    ∀ s ∈ (specs.flatMap (Naming.ofValue kind)).map (·.symbol f package),
      s.kind.object? = some k := by
  intro s hs
  obtain ⟨n, hn, rfl⟩ := List.mem_map.mp hs
  obtain ⟨spec, -, hn⟩ := List.mem_flatMap.mp hn
  change n.kind.object? = some k
  rw [(Naming.mem_ofValue hn).2, hkind]

theorem adds_addDeclaration (f : SourceFile) (package : String) (table : SymbolTable) (t : Tree) :
    table.Adds ((Naming.ofDeclaration f.content t).map (·.symbol f package))
      (table.addDeclaration f package t) := by
  unfold addDeclaration
  split
  · next hk =>
    simp only [Naming.ofDeclaration, hk]
    exact adds_addFunction f package table t
  · next hk =>
    simp only [Naming.ofDeclaration, hk]
    exact adds_addFunction f package table t
  · next hk =>
    simp only [Naming.ofDeclaration, hk, List.map_flatMap]
    exact Adds.foldl (fun table spec _ => adds_addType f package table spec) table
  · next hk =>
    simp only [Naming.ofDeclaration, hk]
    apply Adds.ofBucket .var (object?_ofValue rfl f package (t.specs .varSpec))
    · rw [← valueSymbols_eq]
      rfl
    · intro k hne
      cases k with
      | var => exact (hne rfl).elim
      | _ => rfl
  · next hk =>
    simp only [Naming.ofDeclaration, hk]
    apply Adds.ofBucket .const (object?_ofValue rfl f package (t.specs .constSpec))
    · rw [← valueSymbols_eq]
      rfl
    · intro k hne
      cases k with
      | const => exact (hne rfl).elim
      | _ => rfl
  · next hfunction hmethod htype hvar hconst =>
    have hnone : Naming.ofDeclaration f.content t = [] := by
      unfold Naming.ofDeclaration
      split
      · next hk => exact (hfunction hk).elim
      · next hk => exact (hmethod hk).elim
      · next hk => exact (htype hk).elim
      · next hk => exact (hvar hk).elim
      · next hk => exact (hconst hk).elim
      · rfl
    rw [hnone]
    exact .refl table

theorem adds_ofPackage (p : Package) (tests : Bool) :
    Adds {} (Symbol.declared p.key (p.allFiles tests)) (ofPackage p tests) := by
  apply Adds.foldl
  intro table f _
  rw [Naming.ofFile, List.map_flatMap]
  exact Adds.foldl (fun table t _ => adds_addDeclaration f p.key table t) table

/-- A bucket leads from a name to the first symbol of its kind that bears it. -/
theorem lookup_ofPackage (p : Package) (tests : Bool) (k : ObjectKind) {name : String}
    (hn : name ≠ "_") : ((ofPackage p tests).bucket k).lookup name =
      (Symbol.declared p.key (p.allFiles tests)).find? (·.isNamed k name) := by
  rw [adds_ofPackage p tests k name hn]
  cases k <;> rfl

end SymbolTable

end GoAtlas
