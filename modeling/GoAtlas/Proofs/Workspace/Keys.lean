import GoAtlas.Proofs.Check.Requests
import GoAtlas.Proofs.Files.Places

namespace GoAtlas

namespace Path

variable {ns ms : List String}

theorem ofParts_append (hns : ns ≠ []) (hms : ms ≠ []) :
    ofParts (ns ++ ms) = ofParts ns ++ ofParts ms := by
  simp only [ofParts, String.intercalate_append_of_ne_nil hns hms, String.append_assoc]

theorem ofParts_ne_twice (ns : List String) : ofParts ns ≠ ofParts ns ++ ofParts ns := by
  intro he
  have hlength := congrArg (·.toList.length) he
  simp [toList_ofParts] at hlength

theorem ofParts_append_eq_twice_iff (h : ∀ n ∈ ns, IsPart n) (h' : ∀ m ∈ ms, IsPart m)
    (hms : ms ≠ []) : ofParts (ns ++ ms) = ofParts ns ++ ofParts ns ↔ ms = ns := by
  by_cases hns : ns = []
  · subst hns
    have hparts : parts (ofParts [] ++ ofParts []) = [] := by decide
    refine ⟨fun he => ?_, fun he => (hms he).elim⟩
    rw [← parts_ofParts h', ← List.nil_append ms, he, hparts]
  · rw [ofParts_append hns hms, String.append_right_inj]
    exact ⟨ofParts_inj h' h, fun he => by rw [he]⟩

end Path

namespace Workspace

open Files GoAtlas.Path

variable {ws : Workspace} {ns : List String} {p q : Package}

/-- The directory is that of the root, and the other is spelled as the root twice. -/
def Echoes (ws : Workspace) (directory other : String) : Prop :=
  directory = ws.root ∧ other = ws.root ++ ws.root

theorem Rooted.key_of_none (h : ws.Rooted ns) (hm : ws.module? = none) (hp : p ∈ ws.packages) :
    p.key = p.path := by
  have himport : p.importPath = "" := by rw [h.importPath p hp, importPathOf, hm]
  rw [Package.key, if_pos himport]

theorem Rooted.key_below (h : ws.Rooted ns) {m : ModuleFile} (hm : ws.module? = some m)
    (hp : p ∈ ws.packages) {way : List String} (hw : ∀ k ∈ way, IsPart k)
    (hpath : p.path = ofParts (ns ++ way)) (hpath' : m.path = "") :
    p.key = if way = [] then ws.root else ofParts way := by
  have himport : p.importPath = if way = [] then "" else ofParts way := by
    rw [h.importPath p hp, hpath, importPathOf_below hm h.root h.isPart hw, hpath',
      String.empty_append]
  by_cases hnil : way = []
  · rw [if_pos hnil] at himport ⊢
    rw [Package.key, if_pos himport, hpath, hnil, List.append_nil, h.root]
  · have hne : ofParts way ≠ "" := fun he => by simpa [ofParts] using congrArg String.toList he
    rw [if_neg hnil] at himport ⊢
    rw [Package.key, himport, if_neg hne]

/-- Without a path of the module, the root and a package below it share a key if the names on the way
to the package are those on the way to the root. -/
theorem Rooted.key_eq_iff_echoes (h : ws.Rooted ns) {m : ModuleFile} (hm : ws.module? = some m)
    (hnone : m.path = "") (hp : p ∈ ws.packages) (hq : q ∈ ws.packages) (hne : p.path ≠ q.path) :
    p.key = q.key ↔ ws.Echoes p.path q.path ∨ ws.Echoes q.path p.path := by
  obtain ⟨way, hw, -, hpath⟩ := (h.placed p hp).directory
  obtain ⟨way', hw', -, hpath'⟩ := (h.placed q hq).directory
  have hways : way ≠ way' := fun he => hne (by rw [hpath, hpath', he])
  have htwice := ofParts_ne_twice ns
  have hbelow : ∀ {l : List String}, (∀ k ∈ l, IsPart k) → l ≠ [] → ofParts (ns ++ l) ≠ ofParts ns := by
    intro l hl hnil he
    have hall : ∀ k ∈ ns ++ l, IsPart k := fun k hk => (List.mem_append.mp hk).elim (h.isPart k) (hl k)
    exact hnil (List.append_right_eq_self.mp (ofParts_inj hall h.isPart he))
  rw [h.key_below hm hp hw hpath hnone, h.key_below hm hq hw' hpath' hnone, Echoes, Echoes, hpath,
    hpath', h.root]
  by_cases hnil : way = [] <;> by_cases hnil' : way' = []
  · exact (hways (hnil.trans hnil'.symm)).elim
  · subst hnil
    have hsame : ofParts ns = ofParts way' ↔ way' = ns :=
      ⟨fun he => ofParts_inj hw' h.isPart he.symm, fun he => by rw [he]⟩
    simp [hnil', hsame, htwice, ofParts_append_eq_twice_iff h.isPart hw' hnil']
  · subst hnil'
    have hsame : ofParts way = ofParts ns ↔ way = ns :=
      ⟨ofParts_inj hw h.isPart, fun he => by rw [he]⟩
    simp [hnil, hsame, htwice, ofParts_append_eq_twice_iff h.isPart hw hnil]
  · have hkeys : ofParts way ≠ ofParts way' := fun he => hways (ofParts_inj hw hw' he)
    simp [hnil, hnil', hkeys, hbelow hw hnil, hbelow hw' hnil']

end Workspace

namespace Load

open Files Workspace

variable {s : Store} {root : String} {respectIgnore : Bool} {ws : Workspace} {log : List LogRecord}
  {p q : Package}

/-- Whatever the files, two packages have the same key exactly if the module file is there but names no
path, one of them lies in the root, and the other below it in a directory spelled as the root twice. -/
theorem key_eq_iff (hs : s.Proper) (h : workspace s root respectIgnore = (.ok ws, log))
    (hp : p ∈ ws.packages) (hq : q ∈ ws.packages) (hne : p ≠ q) :
    p.key = q.key ↔ (∃ m, ws.module? = some m ∧ m.path = "") ∧
      (ws.Echoes p.path q.path ∨ ws.Echoes q.path p.path) := by
  obtain ⟨ns, -, hrooted, hloaded⟩ := rooted_loaded hs h
  have hpaths : p.path ≠ q.path := fun he => hne (hloaded.distinct p hp q hq he)
  cases hm : ws.module? with
  | none => simp [hrooted.key_of_none hm hp, hrooted.key_of_none hm hq, hpaths]
  | some m =>
    by_cases hnone : m.path = ""
    · simp [hrooted.key_eq_iff_echoes hm hnone hp hq hpaths, hnone]
    · obtain ⟨hnonempty, hnodup⟩ := hloaded.importPaths m hm hnone
      have hkeys : p.key ≠ q.key := by
        rw [Package.key, Package.key, if_neg (hnonempty p hp), if_neg (hnonempty q hq)]
        exact fun he => hne (List.inj_on_of_nodup_map hnodup hp hq he)
      simp [hkeys, hnone]

/-- A module file without a path, and a directory named as the root is. -/
def namesake : Store :=
  { root := .dir [("ws", .dir [("go.mod", .file "go 1.21\n".toUTF8),
      ("a.go", .file "package p\n".toUTF8),
      ("ws", .dir [("b.go", .file "package q\n".toUTF8)])])] }

theorem key_eq_namesake : ∃ ws log p q, workspace namesake "/ws" true = (.ok ws, log) ∧
    ws.packages = [p, q] ∧ p ≠ q ∧ p.key = q.key := by
  have hs : namesake.Proper := (Store.sound_of_isNeat (by decide +kernel)).proper
  obtain ⟨ws, hws, hroot, hmodule, hpaths⟩ : ∃ ws ∈ (workspace namesake "/ws" true).1.toOption,
      ws.root = "/ws" ∧ (∃ m ∈ ws.module?, m.path = "") ∧
      ws.packages.map (·.path) = ["/ws", "/ws/ws"] := by
    decide +kernel
  simp only [List.map_eq_cons_iff, List.map_eq_nil_iff] at hpaths
  obtain ⟨p, _, hpackages, hp, q, _, rfl, hq, rfl⟩ := hpaths
  have hne : p ≠ q := fun he => by simp [he, hq] at hp
  have h := workspace_of_toOption hws
  have hecho : ws.Echoes p.path q.path := ⟨hp.trans hroot.symm, by rw [hq, hroot]; rfl⟩
  refine ⟨ws, _, p, q, h, hpackages, hne, ?_⟩
  exact (key_eq_iff hs h (by simp [hpackages]) (by simp [hpackages]) hne).mpr
    ⟨hmodule, .inl hecho⟩

end Load

end GoAtlas
