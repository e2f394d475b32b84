import GoAtlas.Proofs.Symbol.Tables
import GoAtlas.Proofs.Workspace.Relocation

namespace GoAtlas

open Syntax

namespace Dict

variable {α β γ : Type} [BEq α]

def mapped (g : β → γ) (d : Dict α β) : Dict α γ :=
  d.map fun e => (e.1, g e.2)

theorem lookup_mapped (g : β → γ) (key : α) (d : Dict α β) :
    (d.mapped g).lookup key = (d.lookup key).map g := by
  induction d with
  | nil => rfl
  | cons e d ih =>
    obtain ⟨k, v⟩ := e
    cases h : key == k with
    | true => simp [mapped, List.lookup_cons, h]
    | false => simpa [mapped, List.lookup_cons, h] using ih

theorem put_mapped (g : β → γ) (key : α) (value : β) (d : Dict α β) :
    (d.mapped g).put key (g value) = (d.put key value).mapped g := by
  induction d with
  | nil => rfl
  | cons e d ih =>
    obtain ⟨k, v⟩ := e
    simp only [mapped, List.map_cons, put] at ih ⊢
    split
    · rfl
    · rw [ih]
      rfl

theorem addNew_mapped (g : β → γ) (key : α) (value : β) (d : Dict α β) :
    (d.mapped g).addNew key (g value) = (d.addNew key value).mapped g := by
  simp only [addNew, lookup_mapped, Option.isSome_map]
  split
  · rfl
  · rw [mapped, mapped, List.map_append]
    rfl

theorem adjust_mapped {g : β → γ} {h : β → β} {h' : γ → γ} (hg : ∀ v, h' (g v) = g (h v)) (key : α)
    (d : Dict α β) : (d.mapped g).adjust key h' = (d.adjust key h).mapped g := by
  induction d with
  | nil => rfl
  | cons e d ih =>
    obtain ⟨k, v⟩ := e
    simp only [mapped, List.map_cons, adjust] at ih ⊢
    split
    · rw [hg]
      rfl
    · rw [ih]
      rfl

theorem gather_mapped (g : β → γ) (key : α) (value : β) (d : Dict α (List β)) :
    (d.mapped (List.map g)).gather key (g value) = (d.gather key value).mapped (List.map g) := by
  simp only [gather, lookup_mapped, Option.isSome_map]
  split
  · apply adjust_mapped
    intro vs
    rw [List.map_append]
    rfl
  · rw [mapped, mapped, List.map_append]
    rfl

end Dict

variable (d : String → Int)

namespace Symbol

def moved (s : Symbol) : Symbol :=
  { s with position := s.position + d s.file, stop := s.stop + d s.file }

def unplaced (s : Symbol) : Symbol :=
  { s with position := 0, stop := 0 }

theorem unplaced_moved (s : Symbol) : (s.moved d).unplaced = s.unplaced :=
  rfl

variable {f : SourceFile} {d}

theorem position_moved (hf : f.Movable d) (offset : Nat) :
    (f.moved d).position offset = f.position offset + d f.path := by
  have hbase : (((f.slot.base : Int) + d f.path).toNat : Int) = f.slot.base + d f.path :=
    Int.toNat_of_nonneg hf
  simp only [SourceFile.position, SourceFile.moved, hbase]
  omega

theorem ofNodes_moved (hf : f.Movable d) (package : String) (name declaration : Tree)
    (kind : SymbolKind) (signature receiver : Option String) :
    ofNodes (f.moved d) package name declaration kind signature receiver =
      (ofNodes f package name declaration kind signature receiver).moved d := by
  simp only [ofNodes, position_moved hf]
  rfl

theorem ofFunction?_moved (hf : f.Movable d) (package : String) (t : Tree) :
    ofFunction? (f.moved d) package t = (ofFunction? f package t).map (·.moved d) := by
  simp only [ofFunction?, ofNodes_moved hf, Option.map_map]
  congr 1
  funext name
  simp only [Function.comp]
  split <;> rfl

/-- The name a symbol stands for is moved with its file. -/
theorem Names.moved {s : Symbol} {t : Tree} (h : s.Names f t) (hf : f.Movable d) :
    (s.moved d).Names (f.moved d) t where
  mem := h.mem
  mark := h.mark
  top := h.top
  name := h.name
  file := h.file
  position := by
    rw [position_moved hf, ← h.position, ← h.file]
    rfl

end Symbol

namespace SymbolTable

def moved (table : SymbolTable) : SymbolTable where
  functions := table.functions.mapped (·.moved d)
  types := table.types.mapped (·.moved d)
  vars := table.vars.mapped (·.moved d)
  constants := table.constants.mapped (·.moved d)
  methods := table.methods.mapped (List.map (·.moved d))

/-- A table without the positions of its symbols. -/
def unplaced (table : SymbolTable) : SymbolTable where
  functions := table.functions.mapped (·.unplaced)
  types := table.types.mapped (·.unplaced)
  vars := table.vars.mapped (·.unplaced)
  constants := table.constants.mapped (·.unplaced)
  methods := table.methods.mapped (List.map (·.unplaced))

theorem unplaced_moved (table : SymbolTable) : (table.moved d).unplaced = table.unplaced := by
  simp only [unplaced, moved, Dict.mapped, List.map_map]
  congr 1
  apply List.map_congr_left
  intro e _
  simp only [Function.comp, List.map_map]
  rfl

variable {f : SourceFile} {d} {table : SymbolTable}

theorem addTo_moved (bucket : Dict String Symbol) (s : Symbol) :
    addTo (bucket.mapped (·.moved d)) (s.moved d) = (addTo bucket s).mapped (·.moved d) := by
  have hname : (s.moved d).name = s.name := rfl
  simp only [addTo, hname, Dict.addNew_mapped]
  split <;> rfl

theorem addAll_moved (bucket : Dict String Symbol) (ss : List Symbol) :
    (ss.map (·.moved d)).foldl addTo (bucket.mapped (·.moved d)) =
      (ss.foldl addTo bucket).mapped (·.moved d) := by
  rw [List.foldl_map]
  exact List.foldl_hom _ addTo_moved

theorem addMethod_moved (receiver : String) (s : Symbol) (table : SymbolTable) :
    (table.moved d).addMethod receiver (s.moved d) = (table.addMethod receiver s).moved d := by
  simp only [addMethod, moved, Dict.gather_mapped]

section

variable (hf : f.Movable d)
include hf

theorem addFunction_moved (package : String) (t : Tree) (table : SymbolTable) :
    (table.moved d).addFunction (f.moved d) package t = (table.addFunction f package t).moved d := by
  simp only [addFunction, Symbol.ofFunction?_moved hf]
  cases Symbol.ofFunction? f package t with
  | none => rfl
  | some s =>
    have hreceiver : (s.moved d).receiver = s.receiver := rfl
    simp only [Option.map_some, hreceiver]
    split
    · cases s.receiver with
      | none => rfl
      | some receiver => exact addMethod_moved receiver s table
    · simp only [moved, addTo_moved]

theorem interfaceMethods_moved (package receiver : String) (type : Tree) :
    interfaceMethods (f.moved d) package receiver type =
      (interfaceMethods f package receiver type).map (·.moved d) := by
  simp only [interfaceMethods, Symbol.ofNodes_moved hf, List.map_filterMap, Option.map_map]
  rfl

theorem addType_moved (package : String) (table : SymbolTable) (spec : Tree) :
    (table.moved d).addType (f.moved d) package spec = (table.addType f package spec).moved d := by
  simp only [addType, Symbol.ofNodes_moved hf]
  cases spec.part? .name with
  | none => rfl
  | some name =>
    dsimp only
    generalize hs : Symbol.ofNodes f package name spec _ none none = s
    have hname : (s.moved d).name = s.name := rfl
    have htypes : (table.moved d).types = table.types.mapped (·.moved d) := rfl
    rw [hname, htypes, Dict.lookup_mapped, Option.isSome_map]
    split
    · rfl
    · have hadd : { table.moved d with types := addTo (table.types.mapped (·.moved d)) (s.moved d) } =
          moved d { table with types := addTo table.types s } := by
        rw [addTo_moved]
        rfl
      rw [hadd]
      cases (spec.part? .type).filter (·.kind = .interfaceType) with
      | none => rfl
      | some type =>
        simp only [Option.map_some, Option.getD_some, interfaceMethods_moved hf, List.foldl_map]
        apply List.foldl_hom
        intro table m
        exact addMethod_moved s.name m table

theorem valueSymbols_moved (package : String) (kind : SymbolKind) :
    valueSymbols (f.moved d) package kind = fun spec =>
      (valueSymbols f package kind spec).map (·.moved d) := by
  funext spec
  simp only [valueSymbols, Symbol.ofNodes_moved hf, List.map_map]
  rfl

theorem addDeclaration_moved (package : String) (table : SymbolTable) (t : Tree) :
    (table.moved d).addDeclaration (f.moved d) package t =
      (table.addDeclaration f package t).moved d := by
  unfold addDeclaration
  split
  · exact addFunction_moved hf package t table
  · exact addFunction_moved hf package t table
  · apply List.foldl_hom
    exact addType_moved hf package
  · simp only [valueSymbols_moved hf, ← List.map_flatMap, moved, addAll_moved]
  · simp only [valueSymbols_moved hf, ← List.map_flatMap, moved, addAll_moved]
  · rfl

theorem addFile_moved (package : String) (table : SymbolTable) :
    addFile package (table.moved d) (f.moved d) = (addFile package table f).moved d :=
  List.foldl_hom _ (addDeclaration_moved hf package)

end

theorem ofPackage_moved {p : Package} {tests : Bool}
    (hf : ∀ f ∈ p.allFiles tests, f.Movable d) :
    ofPackage (p.moved d) tests = (ofPackage p tests).moved d := by
  have hfold : ∀ (fs : List SourceFile) (table : SymbolTable), (∀ f ∈ fs, f.Movable d) →
      (fs.map (·.moved d)).foldl (addFile p.key) (table.moved d) =
        (fs.foldl (addFile p.key) table).moved d := by
    intro fs
    induction fs with
    | nil => exact fun _ _ => rfl
    | cons f fs ih =>
      intro table hfs
      rw [List.map_cons, List.foldl_cons, List.foldl_cons,
        addFile_moved (hfs f List.mem_cons_self)]
      exact ih _ fun g hg => hfs g (List.mem_cons_of_mem f hg)
  rw [ofPackage, Package.allFiles_moved, Package.key_moved]
  exact hfold (p.allFiles tests) {} hf

theorem symbols_moved (table : SymbolTable) :
    (table.moved d).symbols = table.symbols.map (·.moved d) := by
  simp only [symbols, moved, Dict.mapped, List.map_append, List.map_map, List.map_flatMap,
    List.flatMap_map]
  rfl

theorem find?_moved (table : SymbolTable) (name : String) :
    (table.moved d).find? name = (table.find? name).map (·.moved d) := by
  have hbucket : ∀ bs : List (Dict String Symbol),
      (bs.map (Dict.mapped (·.moved d))).findSome? (List.lookup name ·) =
        (bs.findSome? (List.lookup name ·)).map (·.moved d) := by
    intro bs
    induction bs with
    | nil => rfl
    | cons b bs ih =>
      rw [List.map_cons, List.findSome?_cons, List.findSome?_cons, Dict.lookup_mapped, ih]
      cases b.lookup name <;> rfl
  exact hbucket [table.functions, table.types, table.vars, table.constants]

theorem methodsNamed_moved (table : SymbolTable) (name : String) :
    (table.moved d).methodsNamed name = (table.methodsNamed name).map (·.moved d) := by
  simp only [methodsNamed, moved, Dict.mapped, List.flatMap_map, ← List.map_flatMap,
    List.filter_map]
  rfl

end SymbolTable

end GoAtlas
