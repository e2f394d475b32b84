import GoAtlas.Proofs.Workspace.Loading

namespace GoAtlas

open Source

-- how far the positions of each file are moved
variable (d : String → Int) (r : Registry)

def SourceFile.moved (f : SourceFile) : SourceFile :=
  { f with slot := { f.slot with base := (f.slot.base + d f.path).toNat } }

def Package.moved (p : Package) : Package :=
  { p with files := p.files.map (·.moved d), testFiles := p.testFiles.map (·.moved d) }

def Workspace.moved (ws : Workspace) : Workspace :=
  { ws with packages := ws.packages.map (·.moved d), registry := r }

def SourceFile.Movable (f : SourceFile) : Prop :=
  0 ≤ f.slot.base + d f.path

@[simp] theorem Package.path_moved (p : Package) : (p.moved d).path = p.path :=
  rfl

@[simp] theorem Package.key_moved (p : Package) : (p.moved d).key = p.key :=
  rfl

@[simp] theorem Package.files_moved (p : Package) : (p.moved d).files = p.files.map (·.moved d) :=
  rfl

@[simp] theorem Package.allFiles_moved (p : Package) (tests : Bool) :
    (p.moved d).allFiles tests = (p.allFiles tests).map (·.moved d) := by
  cases tests with
  | true => exact List.map_append.symm
  | false => rfl

namespace Workspace

variable (ws : Workspace)

@[simp] theorem files_moved (tests : Bool) :
    (ws.moved d r).files tests = (ws.files tests).map (·.moved d) := by
  simp only [files, moved, List.flatMap_map, Package.allFiles_moved, List.map_flatMap]

theorem find?_moved {test : Package → Bool} (h : ∀ p, test (p.moved d) = test p) :
    (ws.moved d r).packages.find? test = (ws.packages.find? test).map (·.moved d) := by
  have htest : test ∘ Package.moved d = test := funext h
  rw [moved, List.find?_map, htest]

@[simp] theorem package?_moved (path : String) :
    (ws.moved d r).package? path = (ws.package? path).map (·.moved d) :=
  find?_moved d r ws fun _ => rfl

@[simp] theorem packageOfFile?_moved (path : String) :
    (ws.moved d r).packageOfFile? path = (ws.packageOfFile? path).map (·.moved d) := by
  apply find?_moved
  intro p
  rw [Package.allFiles_moved, List.any_map]
  rfl

@[simp] theorem importTable_moved : (ws.moved d r).importTable = ws.importTable := by
  simp only [importTable, moved, List.foldl_map]
  rfl

@[simp] theorem packageForImport?_moved (path : String) :
    (ws.moved d r).packageForImport? path = (ws.packageForImport? path).map (·.moved d) := by
  rw [packageForImport?, packageForImport?, importTable_moved, Option.map_bind]
  congr 1
  exact funext (package?_moved d r ws)

@[simp] theorem file?_moved (path : String) :
    (ws.moved d r).file? path = (ws.file? path).map (·.moved d) := by
  rw [file?, file?, files_moved, List.find?_map]
  rfl

end Workspace

namespace SourceFile

def unplaced (f : SourceFile) : SourceFile :=
  { f with slot := { f.slot with base := 0 } }

theorem unplaced_moved (f : SourceFile) : (f.moved d).unplaced = f.unplaced :=
  rfl

end SourceFile

def Package.unplaced (p : Package) : Package :=
  { p with files := p.files.map (·.unplaced), testFiles := p.testFiles.map (·.unplaced) }

/-- A workspace but for its registry and the bases of its files. -/
def Workspace.unplaced (ws : Workspace) : Workspace :=
  { ws with packages := ws.packages.map (·.unplaced), registry := {} }

/-- A workspace as another with its files registered anew, in the order of `files` and among
others. -/
structure Workspace.RegisteredBy (files : List (String × ByteArray)) (ws ws' : Workspace) :
    Prop where
  alike : ws'.unplaced = ws.unplaced
  registry : ws'.registry = (({} : Registry).register files).2
  slots : ∀ f ∈ ws'.files true, f.slot ∈ ws'.registry.slots

theorem Package.unplaced_moved (p : Package) : (p.moved d).unplaced = p.unplaced := by
  simp only [unplaced, moved, List.map_map]
  rfl

theorem Workspace.unplaced_moved (ws : Workspace) : (ws.moved d r).unplaced = ws.unplaced := by
  simp only [unplaced, moved, List.map_map]
  congr 1
  exact List.map_congr_left fun p _ => p.unplaced_moved d

theorem eq_map_of_map_eq {α β : Type} {g : α → β} {h : α → α} {l l' : List α}
    (he : l'.map g = l.map g) (hh : ∀ a ∈ l, ∀ a' ∈ l', g a' = g a → a' = h a) : l' = l.map h := by
  induction l generalizing l' with
  | nil => exact List.map_eq_nil_iff.mp he
  | cons a l ih =>
    cases l' with
    | nil => cases he
    | cons a' l' =>
      obtain ⟨hfirst, hrest⟩ := List.cons.inj he
      rw [List.map_cons, hh a List.mem_cons_self a' List.mem_cons_self hfirst, ← ih hrest]
      intro b hb b' hb'
      exact hh b (List.mem_cons_of_mem a hb) b' (List.mem_cons_of_mem a' hb')

namespace Workspace

variable {ws ws' : Workspace} {f : SourceFile} {files : List (String × ByteArray)}

theorem file?_of_nodup (hn : ((ws.files true).map (·.path)).Nodup) (hf : f ∈ ws.files true) :
    ws.file? f.path = some f := by
  cases h : ws.file? f.path with
  | none => simpa using List.find?_eq_none.mp h f hf
  | some g =>
    have hpath : g.path = f.path := by simpa using List.find?_some h
    rw [List.inj_on_of_nodup_map hn (List.mem_of_find?_eq_some h) hf hpath]

theorem files_unplaced (ws : Workspace) (tests : Bool) :
    ws.unplaced.files tests = (ws.files tests).map (·.unplaced) := by
  simp only [files, unplaced, List.flatMap_map, List.map_flatMap]
  congr 1
  funext p
  cases tests with
  | true => exact List.map_append.symm
  | false => rfl

def shift (ws ws' : Workspace) (path : String) : Int :=
  match ws.file? path, ws'.file? path with
  | some f, some f' => f'.slot.base - f.slot.base
  | _, _ => 0

theorem RegisteredBy.paths (h : ws.RegisteredBy files ws') :
    (ws'.files true).map (·.path) = (ws.files true).map (·.path) := by
  have he : (ws'.unplaced.files true).map (·.path) = (ws.unplaced.files true).map (·.path) := by
    rw [h.alike]
  rw [files_unplaced, files_unplaced, List.map_map, List.map_map] at he
  exact he

theorem RegisteredBy.length_slots (h : ws.RegisteredBy files ws') :
    ws'.registry.slots.length = files.length := by
  have hcontents := congrArg List.length (Registry.contents_register {} files)
  rw [List.length_map, List.length_map] at hcontents
  rw [h.registry, Registry.slots_register]
  exact hcontents

section

variable (h : ws.RegisteredBy files ws') (hws : ws.Loaded)
include h hws

theorem RegisteredBy.shift_eq {f' : SourceFile} (hf : f ∈ ws.files true) (hf' : f' ∈ ws'.files true)
    (he : f'.unplaced = f.unplaced) : ws.shift ws' f.path = f'.slot.base - f.slot.base := by
  have hpath : f'.unplaced.path = f.unplaced.path := by rw [he]
  have hpath : f'.path = f.path := hpath
  have hnodup : ((ws'.files true).map (·.path)).Nodup := h.paths ▸ hws.paths
  have hfile' : ws'.file? f.path = some f' := hpath ▸ file?_of_nodup hnodup hf'
  rw [shift, file?_of_nodup hws.paths hf, hfile']

theorem RegisteredBy.file_eq {f' : SourceFile} (hf : f ∈ ws.files true) (hf' : f' ∈ ws'.files true)
    (he : f'.unplaced = f.unplaced) : f' = f.moved (ws.shift ws') := by
  have hshift := h.shift_eq hws hf hf' he
  have hbase : ((f.slot.base : Int) + ws.shift ws' f.path).toNat = f'.slot.base := by
    rw [hshift]
    omega
  obtain ⟨path, content, tree, slot⟩ := f
  obtain ⟨path', content', tree', slot'⟩ := f'
  obtain ⟨file, base, size, starts⟩ := slot
  obtain ⟨file', base', size', starts'⟩ := slot'
  simp only [SourceFile.unplaced, SourceFile.mk.injEq, Slot.mk.injEq] at he
  obtain ⟨rfl, rfl, rfl, rfl, -, rfl, rfl⟩ := he
  simp only [SourceFile.moved, hbase]

theorem RegisteredBy.eq_moved : ws' = ws.moved (ws.shift ws') ws'.registry := by
  have hpackages : ws'.packages = ws.packages.map (·.moved (ws.shift ws')) := by
    apply eq_map_of_map_eq (congrArg Workspace.packages h.alike)
    intro p hp p' hp' he
    have hfile : ∀ f ∈ p.allFiles true, ∀ f' ∈ p'.allFiles true, f'.unplaced = f.unplaced →
        f' = f.moved (ws.shift ws') := by
      intro f hf f' hf'
      exact h.file_eq hws (List.mem_flatMap.mpr ⟨p, hp, hf⟩) (List.mem_flatMap.mpr ⟨p', hp', hf'⟩)
    have hfiles : p'.files = p.files.map (·.moved (ws.shift ws')) := by
      apply eq_map_of_map_eq (congrArg Package.files he)
      intro f hf f' hf'
      exact hfile f (List.mem_append_left _ hf) f' (List.mem_append_left _ hf')
    have htests : p'.testFiles = p.testFiles.map (·.moved (ws.shift ws')) := by
      apply eq_map_of_map_eq (congrArg Package.testFiles he)
      intro f hf f' hf'
      exact hfile f (List.mem_append_right _ hf) f' (List.mem_append_right _ hf')
    obtain ⟨path, name, importPath, fs, ts, imports⟩ := p
    obtain ⟨path', name', importPath', fs', ts', imports'⟩ := p'
    simp only [Package.unplaced, Package.mk.injEq] at he
    obtain ⟨rfl, rfl, rfl, -, -, rfl⟩ := he
    simp only [Package.moved, Package.mk.injEq, true_and, and_true]
    exact ⟨hfiles, htests⟩
  have hroot := congrArg Workspace.root h.alike
  have hmodule := congrArg Workspace.module? h.alike
  obtain ⟨root, module?, packages, registry⟩ := ws'
  simp only [moved, Workspace.mk.injEq, and_true]
  exact ⟨hroot, hmodule, hpackages⟩

theorem RegisteredBy.movable : ∀ f ∈ ws.files true, f.Movable (ws.shift ws') := by
  intro f hf
  have hmem : f.unplaced ∈ ws'.unplaced.files true := by
    rw [h.alike, files_unplaced]
    exact List.mem_map_of_mem hf
  rw [files_unplaced] at hmem
  obtain ⟨f', hf', he⟩ := List.mem_map.mp hmem
  rw [SourceFile.Movable, h.shift_eq hws hf hf' he]
  omega

theorem RegisteredBy.loaded : ws'.Loaded := by
  have hmoved := h.eq_moved hws
  generalize ws.shift ws' = d at hmoved
  have hpackage : ∀ p' ∈ ws'.packages, ∃ p ∈ ws.packages, p' = p.moved d := by
    intro p' hp'
    rw [hmoved] at hp'
    obtain ⟨p, hp, rfl⟩ := List.mem_map.mp hp'
    exact ⟨p, hp, rfl⟩
  have hfields : ∀ {α : Type} (g : Package → α), (∀ p, g (p.moved d) = g p) →
      ws'.packages.map g = ws.packages.map g := by
    intro α g hg
    rw [hmoved, moved, List.map_map]
    exact List.map_congr_left fun p _ => hg p
  constructor
  case directories =>
    rw [hfields (·.path) fun _ => rfl]
    exact hws.directories
  case paths =>
    rw [h.paths]
    exact hws.paths
  case registered =>
    intro f' hf'
    have hslot := h.slots f' hf'
    rw [hmoved, files_moved] at hf'
    obtain ⟨f, hf, rfl⟩ := List.mem_map.mp hf'
    obtain ⟨hparsed, -, hfile, hsize, hstarts⟩ := hws.registered f hf
    exact ⟨hparsed, hslot, hfile, hsize, hstarts⟩
  case registry => exact ⟨files, h.registry⟩
  case tests =>
    intro p' hp' f' hf'
    obtain ⟨p, hp, rfl⟩ := hpackage p' hp'
    obtain ⟨f, hf, rfl⟩ := List.mem_map.mp hf'
    exact hws.tests p hp f hf
  case others =>
    intro p' hp' f' hf'
    obtain ⟨p, hp, rfl⟩ := hpackage p' hp'
    obtain ⟨f, hf, rfl⟩ := List.mem_map.mp hf'
    exact hws.others p hp f hf
  case importPaths =>
    intro m hm hne
    have hmodule : ws.module? = some m := (congrArg Workspace.module? h.alike).symm.trans hm
    obtain ⟨hpaths, hnodup⟩ := hws.importPaths m hmodule hne
    rw [hfields (·.importPath) fun _ => rfl]
    refine ⟨?_, hnodup⟩
    intro p' hp'
    obtain ⟨p, hp, rfl⟩ := hpackage p' hp'
    exact hpaths p hp

end

/-- The files of a workspace, in its order, as they are registered. -/
def contents (ws : Workspace) : List (String × ByteArray) :=
  (ws.files true).map fun f => (f.path, f.content)

/-- The files of a workspace can be registered in any order and among any others. -/
theorem Loaded.exists_registeredBy (hws : ws.Loaded) (hall : ws.contents ⊆ files) :
    ∃ ws', ws.RegisteredBy files ws' := by
  let slots := (({} : Registry).register files).1
  let registry := (({} : Registry).register files).2
  have hslot : ∀ f ∈ ws.files true, ∃ s ∈ slots, s = { f.slot with base := s.base } := by
    intro f hf
    have hmem := List.mem_map_of_mem
      (f := fun f : String × ByteArray => (f.1, f.2.size, lineStarts f.2))
      (hall (List.mem_map_of_mem hf))
    rw [← Registry.contents_register {} files] at hmem
    obtain ⟨s, hs, he⟩ := List.mem_map.mp hmem
    obtain ⟨-, -, hfile, hsize, hstarts⟩ := hws.registered f hf
    simp only [Prod.mk.injEq] at he
    obtain ⟨hsfile, hssize, hsstarts⟩ := he
    refine ⟨s, hs, ?_⟩
    cases s
    simp only [hfile, hsize, hstarts, ← hsfile, ← hssize, ← hsstarts]
  choose! slotOf hmem heq using hslot
  let d : String → Int := fun path =>
    match ws.file? path with
    | some f => (slotOf f).base - f.slot.base
    | none => 0
  have hmoved : ∀ f ∈ ws.files true, (f.moved d).slot = slotOf f := by
    intro f hf
    have hd : d f.path = (slotOf f).base - f.slot.base := by
      simp only [d, file?_of_nodup hws.paths hf]
    have hbase : ((f.slot.base : Int) + d f.path).toNat = (slotOf f).base := by
      rw [hd]
      omega
    rw [heq f hf]
    simp only [SourceFile.moved, hbase]
  refine ⟨ws.moved d registry, ws.unplaced_moved d registry, rfl, ?_⟩
  intro f' hf'
  rw [files_moved] at hf'
  obtain ⟨f, hf, rfl⟩ := List.mem_map.mp hf'
  rw [hmoved f hf]
  have hslots : registry.slots = slots := Registry.slots_register {} files
  exact hslots ▸ hmem f hf

end Workspace

end GoAtlas
