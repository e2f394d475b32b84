import GoAtlas.Proofs.Check.Requests

namespace GoAtlas

namespace Workspace

open GoAtlas.Path

variable {ws : Workspace} {ns : List String} {p : Package} {m : ModuleFile}

/-- The way from the root down to a package, with the import path it gives the package. -/
def ReachedBy (ws : Workspace) (m : ModuleFile) (p : Package) (way : List String) : Prop :=
  (∀ part ∈ way, IsPart part) ∧ p.path = join ws.root ("/".intercalate way) ∧
    p.importPath = m.path ++ "/" ++ "/".intercalate way

theorem Rooted.importPath_root (h : ws.Rooted ns) (hm : ws.module? = some m) (hp : p ∈ ws.packages)
    (hroot : p.path = ws.root) : p.importPath = m.path := by
  have hnone : ∀ part ∈ ([] : List String), IsPart part := nofun
  have hbelow := importPathOf_below hm h.root h.isPart hnone
  rw [List.append_nil, ← h.root, ← hroot, ← h.importPath p hp] at hbelow
  rw [hbelow, if_pos rfl, String.append_empty]

theorem Rooted.reachedBy (h : ws.Rooted ns) (hm : ws.module? = some m) (hp : p ∈ ws.packages)
    (hne : p.path ≠ ws.root) : ∃ way ≠ [], ws.ReachedBy m p way := by
  obtain ⟨way, hw, -, hpath⟩ := (h.placed p hp).directory
  have hway : way ≠ [] := by
    rintro rfl
    exact hne (by rw [hpath, List.append_nil, h.root])
  refine ⟨way, hway, hw, ?_, ?_⟩
  · rw [h.root, join_intercalate h.isPart hw hway, hpath]
  · rw [h.importPath p hp, hpath, importPathOf_below hm h.root h.isPart hw, if_neg hway, ofParts,
      String.append_assoc]

end Workspace

namespace Load

open Files GoAtlas.Path Workspace

variable {s : Store} {root : String} {respectIgnore : Bool} {ws : Workspace} {log : List LogRecord}

theorem exists_module (h : workspace s root respectIgnore = (.ok ws, log))
    (hfile : s.isFile (join (s.realPath root) "go.mod")) : ∃ m, ws.module? = some m := by
  obtain ⟨module?, dirs, hmodule, -, rfl⟩ := workspace_ok h
  rw [(assemble_eq s (s.realPath root) module? dirs).2.1]
  simp only [moduleOf, hfile, if_true] at hmodule
  split at hmodule
  · exact ⟨_, (Except.ok.inj hmodule).symm⟩
  · cases hmodule

/-- Whatever a module file says, packages, import paths and directories correspond one to one. -/
theorem importPaths_exact (hs : s.Proper) (h : workspace s root respectIgnore = (.ok ws, log))
    (hfile : s.isFile (join (s.realPath root) "go.mod")) : ∃ m, ws.module? = some m ∧
      ws.importTable = ws.packages.map (fun p => (p.importPath, p.path)) ∧
      (ws.packages.map (·.importPath)).Nodup ∧ (ws.packages.map (·.path)).Nodup ∧
      (∀ p ∈ ws.packages, ws.packageForImport? p.importPath = some p) ∧
      (∀ path directory, ws.importTable.lookup path = some directory →
        ∃! p, p ∈ ws.packages ∧ p.importPath = path ∧ p.path = directory) ∧
      ∀ p ∈ ws.packages, (p.path = ws.root → p.importPath = m.path) ∧
        (p.path ≠ ws.root → ∃ way ≠ [], ws.ReachedBy m p way) := by
  obtain ⟨m, hm⟩ := exists_module h hfile
  obtain ⟨ns, -, hrooted, hloaded⟩ := rooted_loaded hs h
  have hnodup := hrooted.nodup_importPaths hloaded.directories hm
  have htable := importTable_eq hm hnodup
  refine ⟨m, hm, htable, hnodup, hloaded.directories,
    fun p hp => hloaded.packageForImport? hm hnodup hp, ?_,
    fun p hp => ⟨hrooted.importPath_root hm hp, hrooted.reachedBy hm hp⟩⟩
  intro path directory hlookup
  have hentry := Dict.mem_of_lookup hlookup
  rw [htable] at hentry
  obtain ⟨p, hp, he⟩ := List.mem_map.mp hentry
  obtain ⟨hpath, hdirectory⟩ := Prod.mk.inj he
  refine ⟨p, ⟨hp, hpath, hdirectory⟩, ?_⟩
  rintro q ⟨hq, -, hqd⟩
  exact hloaded.distinct q hq p hp (hqd.trans hdirectory.symm)

/-- A module whose path is set in slashes, and directories named as it is. -/
def slashed : Store :=
  { root := .dir [("ws", .dir [("go.mod", .file "module /m/\n".toUTF8),
      ("a.go", .file "package p\n".toUTF8),
      ("m", .dir [("b.go", .file "package q\n".toUTF8),
        ("m", .dir [("c.go", .file "package r\n".toUTF8)])])])] }

theorem importPaths_exact_slashed : ∃ ws log m, workspace slashed "/ws" true = (.ok ws, log) ∧
    ws.module? = some m ∧ m.path = "/m/" ∧
    ws.importTable = [("/m/", "/ws"), ("/m//m", "/ws/m"), ("/m//m/m", "/ws/m/m")] ∧
    ws.importTable = ws.packages.map (fun p => (p.importPath, p.path)) ∧
    ∀ p ∈ ws.packages, ws.packageForImport? p.importPath = some p := by
  have hs : slashed.Proper := (Store.sound_of_isNeat (by decide +kernel)).proper
  obtain ⟨ws, hws, hpath, htable⟩ : ∃ ws ∈ (workspace slashed "/ws" true).1.toOption,
      ws.module?.map (·.path) = some "/m/" ∧
      ws.importTable = [("/m/", "/ws"), ("/m//m", "/ws/m"), ("/m//m/m", "/ws/m/m")] := by
    decide +kernel
  have h := workspace_of_toOption hws
  obtain ⟨m, hm, hlisted, -, -, hfound, -⟩ := importPaths_exact hs h (by decide +kernel)
  rw [hm] at hpath
  exact ⟨ws, _, m, h, hm, Option.some.inj hpath, htable, hlisted, hfound⟩

end Load

end GoAtlas
