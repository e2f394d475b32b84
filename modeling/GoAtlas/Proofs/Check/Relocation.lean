import GoAtlas.Check.Demand
import GoAtlas.Proofs.Workspace.Relocation

namespace GoAtlas.Check

open Source

variable (d : String → Int) (r : Registry)

theorem Declared.ofFiles_moved (package : String) (fs : List SourceFile) :
    Declared.ofFiles package (fs.map (·.moved d)) = Declared.ofFiles package fs := by
  simp only [ofFiles, List.foldl_map]
  rfl

theorem placeholder_moved (path : String) (fs : List SourceFile) :
    placeholder path (fs.map (·.moved d)) = placeholder path fs := by
  simp only [placeholder, Declared.ofFiles_moved, List.head?_map, Option.map_map]
  rfl

def movedLinks (linked : List (SourceFile × Linked)) : List (SourceFile × Linked) :=
  linked.map fun fl => (fl.1.moved d, fl.2)

theorem Linked.files_moved {σ : Type} (importer : Importer σ) (package : String)
    (fs : List SourceFile) (s : σ) :
    Linked.files importer package (fs.map (·.moved d)) s =
      (movedLinks d (Linked.files importer package fs s).1,
        (Linked.files importer package fs s).2) := by
  induction fs generalizing s with
  | nil => rfl
  | cons f fs ih =>
    have hfile : Linked.file importer package (f.moved d) s = Linked.file importer package f s := rfl
    simp only [List.map_cons, Linked.files, hfile, ih]
    rfl

theorem Outcome.ofLinked_moved (path : String) (fs : List SourceFile)
    (linked : List (SourceFile × Linked)) :
    Outcome.ofLinked path (fs.map (·.moved d)) (movedLinks d linked) =
      Outcome.ofLinked path fs linked := by
  simp only [ofLinked, movedLinks, Declared.ofFiles_moved, placeholder_moved, List.flatMap_map,
    List.foldl_map]
  rfl

theorem checkFiles_moved {σ : Type} (importer : Importer σ) (path : String) (fs : List SourceFile)
    (s : σ) : checkFiles importer path (fs.map (·.moved d)) s = checkFiles importer path fs s := by
  simp only [checkFiles, Linked.files_moved, Outcome.ofLinked_moved]

namespace Checks

variable (ws : Workspace)

theorem start_moved (p : Package) (c : Checks) : c.start (p.moved d) = c.start p := by
  simp only [start, Package.path_moved, Package.key_moved, Package.files_moved, placeholder_moved]

theorem follow_moved {ensure ensure' : Package → Checks → Checks}
    (h : ∀ p c, ensure' (p.moved d) c = ensure p c) (path : String) (c : Checks) :
    follow (ws.moved d r) ensure' path c = follow ws ensure path c := by
  simp only [follow, Workspace.packageForImport?_moved]
  cases ws.packageForImport? path with
  | none => rfl
  | some p =>
    simp only [Option.map_some, h]
    rfl

theorem followInside_moved {ensure ensure' : Package → Checks → Checks}
    (h : ∀ p c, ensure' (p.moved d) c = ensure p c) :
    followInside (ws.moved d r) ensure' = followInside ws ensure := by
  funext path c
  simp only [followInside, follow_moved d r ws h]

theorem ensureTo_moved (depth : Nat) (p : Package) (c : Checks) :
    ensureTo (ws.moved d r) depth (p.moved d) c = ensureTo ws depth p c := by
  induction depth generalizing p c with
  | zero => rfl
  | succ depth ih =>
    have hcheck : checkFiles (followInside (ws.moved d r) (ensureTo (ws.moved d r) depth))
        (p.moved d).key (p.moved d).files (c.start (p.moved d)) =
          checkFiles (followInside ws (ensureTo ws depth)) p.key p.files (c.start p) := by
      rw [followInside_moved d r ws ih, start_moved]
      exact checkFiles_moved d _ p.key p.files _
    simp only [ensureTo, hcheck]
    rfl

theorem ensure_moved (p : Package) (c : Checks) :
    ensure (ws.moved d r) (p.moved d) c = ensure ws p c := by
  have hlength : (ws.moved d r).packages.length = ws.packages.length := List.length_map _
  rw [ensure, ensure, hlength, ensureTo_moved]

theorem importPath_moved (path : String) (c : Checks) :
    importPath (ws.moved d r) path c = importPath ws path c :=
  follow_moved d r ws (ensure_moved d r ws) path c

end Checks

end GoAtlas.Check
