import GoAtlas.Proofs.Check.Growth
import GoAtlas.Proofs.Workspace.Small

namespace GoAtlas

namespace Workspace

variable {ws : Workspace} {p q : Package} {m : ModuleFile}

theorem Loaded.distinct (h : ws.Loaded) : ws.Distinct := fun _ hp _ hq he =>
  List.inj_on_of_nodup_map h.directories hp hq he

theorem Loaded.package? (h : ws.Loaded) (hp : p ∈ ws.packages) : ws.package? p.path = some p := by
  cases hf : ws.package? p.path with
  | none => simpa using List.find?_eq_none.mp hf p hp
  | some q =>
    have he : q.path = p.path := by simpa using List.find?_some hf
    rw [h.distinct q (List.mem_of_find?_eq_some hf) p hp he]

def Keyed (ws : Workspace) : Prop :=
  ∀ p ∈ ws.packages, ws.packageForImport? p.key = some p

/-- Where no two packages have the same import path, none is overwritten in the table. -/
theorem importTable_eq (hm : ws.module? = some m) (hn : (ws.packages.map (·.importPath)).Nodup) :
    ws.importTable = ws.packages.map fun p => (p.importPath, p.path) := by
  have hall : ∀ (d : Dict String String) (ps : List Package),
      (d.map (·.1) ++ ps.map (·.importPath)).Nodup →
      ps.foldl (fun d p => d.put p.importPath p.path) d =
        d ++ ps.map fun p => (p.importPath, p.path) := by
    intro d ps hn
    induction ps generalizing d with
    | nil => simp
    | cons p ps ih =>
      have hfresh : ∀ e ∈ d, e.1 ≠ p.importPath := by
        intro e he
        exact (List.nodup_append.mp hn).2.2 e.1 (List.mem_map_of_mem he) _ List.mem_cons_self
      rw [List.foldl_cons, Dict.put_of_fresh hfresh, ih]
      · simp
      · simpa using hn
  rw [importTable, if_pos (by simp [hm]), hall [] ws.packages (by simpa using hn), List.nil_append]

/-- A package is found by its import path if no other has the same. -/
theorem Loaded.packageForImport? (h : ws.Loaded) (hm : ws.module? = some m)
    (hn : (ws.packages.map (·.importPath)).Nodup) (hp : p ∈ ws.packages) :
    ws.packageForImport? p.importPath = some p := by
  have hkeys : (ws.importTable.map (·.1)).Nodup := by
    rw [importTable_eq hm hn, List.map_map]
    exact hn
  have hentry : (p.importPath, p.path) ∈ ws.importTable := by
    rw [importTable_eq hm hn]
    exact List.mem_map_of_mem hp
  rw [Workspace.packageForImport?, Dict.lookup_of_mem hkeys hentry]
  exact h.package? hp

theorem Loaded.keyed (h : ws.Loaded) (hm : ws.module? = some m) (hne : m.path ≠ "") :
    ws.Keyed := by
  intro p hp
  obtain ⟨hpath, hnodup⟩ := h.importPaths m hm hne
  rw [Package.key, if_neg (hpath p hp)]
  exact h.packageForImport? hm hnodup hp

end Workspace

namespace Check

variable {ws : Workspace}

/-- What can be asked of the checks from outside. -/
inductive Request (ws : Workspace) where
  | check (p : Package) (mem : p ∈ ws.packages)
  | follow (path : String)

namespace Checks

variable {c d : Checks} {p : Package}

def perform (ws : Workspace) (c : Checks) : Request ws → Checks
  | .check p _ => ensure ws p c
  | .follow path => (importPath ws path c).2

def performAll (ws : Workspace) (c : Checks) (rs : List (Request ws)) : Checks :=
  rs.foldl (perform ws) c

theorem importPath_ok (hws : ws.Distinct) (hs : Sound ws c) (path : String) :
    ∃ h d, importPath ws path c = (.ok h, d) ∧ Sound ws d ∧ Grows ws c d := by
  obtain ⟨h, d, he, hd, hG, _⟩ := (ensures_ensure hws).follow (fun _ h => h) path c hs
  exact ⟨h, d, he, hd, hG⟩

theorem perform_sound (hws : ws.Distinct) (hs : Sound ws c) (r : Request ws) :
    Sound ws (perform ws c r) ∧ Grows ws c (perform ws c r) := by
  cases r with
  | check p hp =>
    obtain ⟨hS, hG, _⟩ := ensures_ensure hws p hp c hs
    exact ⟨hS, hG⟩
  | follow path =>
    obtain ⟨h, d, he, hd, hG⟩ := importPath_ok hws hs path
    rw [perform, he]
    exact ⟨hd, hG⟩

theorem performAll_sound (hws : ws.Distinct) (hs : Sound ws c) (rs : List (Request ws)) :
    Sound ws (performAll ws c rs) ∧ Grows ws c (performAll ws c rs) := by
  induction rs generalizing c with
  | nil => exact ⟨hs, .refl ws c⟩
  | cons r rs ih =>
    obtain ⟨hS, hG⟩ := perform_sound hws hs r
    obtain ⟨hS', hG'⟩ := ih hS
    exact ⟨hS', hG.trans hG'⟩

/-- What holds of the checks while none is under way. -/
structure Settled (ws : Workspace) (c : Checks) : Prop where
  /-- No check was given up for its depth. -/
  whole : ∀ d, .cutOff d ∉ c.history
  once : c.begunDirectories.Nodup
  /-- A package has information if and only if its check was begun. -/
  begun : ∀ p ∈ ws.packages, p.path ∈ c.begunDirectories ↔ (c.info? p).isSome
  /-- Information is that of a check that went to its end with all imports answered. -/
  ended : ∀ p ∈ ws.packages, (c.info? p).isSome →
    ∃ linked, linked.map (·.1) = p.files ∧ (∀ fl ∈ linked, fl.2.errors = []) ∧
      c.info? p = some (Outcome.ofLinked p.key p.files linked).info ∧
      .ended p.path (Outcome.ofLinked p.key p.files linked).errors ∈ c.history
  closed : ∀ p ∈ ws.packages, (c.info? p).isSome →
    ∀ f ∈ p.files, ∀ i ∈ f.imports, Linked.isFollowed i →
      ∀ q, ws.packageForImport? i.path = some q → (c.info? q).isSome
  typed : ∀ p ∈ ws.packages, ∀ es, .ended p.path es ∈ c.history →
    ((c.typed? p).isSome ↔ es = [])
  typed_begun : ∀ p ∈ ws.packages, (c.typed? p).isSome → (c.info? p).isSome

theorem Known.begun (hk : ws.Keyed) {path : String} (h : Known ws c path) {q : Package}
    (hq : ws.packageForImport? path = some q) : c.Begun q := by
  rcases h q hq with hb | ⟨q', hm, rfl, hb⟩
  · exact hb
  · obtain rfl := Option.some.inj ((hk q' hm).symm.trans hq)
    exact hb

theorem Linked.errors_of_linking {linked : List (SourceFile × Linked)} (h : Linking ws c p linked) :
    ∀ fl ∈ linked, fl.2.errors = [] := by
  intro fl hfl
  obtain ⟨answers, hr⟩ := h.resolves fl hfl
  rw [hr.linked, Linked.ofAnswers_errors]

theorem Sound.settled (hk : ws.Keyed) (hs : Sound ws c)
    (he : ∀ p ∈ ws.packages, c.Begun p → Ended ws c p) : Settled ws c where
  whole := hs.whole
  once := hs.once
  begun := hs.begun
  ended p hp hb := by
    obtain ⟨linked, hl, hi, hh, _⟩ := he p hp hb
    exact ⟨linked, hl.files, Linked.errors_of_linking hl, hi, hh⟩
  closed p hp hb f hf i hi hfo q hq := by
    obtain ⟨_, _, _, _, hknown⟩ := he p hp hb
    exact (hknown f hf i hi hfo).begun hk hq
  typed p hp es hes := by
    rw [typed?, (hs.ended p hp es hes).2]
    simp [handleOf, Option.filter]
  typed_begun p hp ht := hs.begun_of_typed hp ht

theorem performAll_append (c : Checks) (rs more : List (Request ws)) :
    performAll ws c (rs ++ more) = performAll ws (performAll ws c rs) more :=
  List.foldl_append

/-- However often and in whatever order packages are asked for, with any imports between them, a
check is begun once for each package and goes to its end, and what it finds out stays. -/
theorem settled_performAll {s : Files.Store} {root : String} {respectIgnore : Bool}
    {log : List LogRecord} {m : ModuleFile} (hs : s.Proper)
    (hws : Load.workspace s root respectIgnore = (.ok ws, log)) (hm : ws.module? = some m)
    (hne : m.path ≠ "") (rs : List (Request ws)) :
    Settled ws (performAll ws {} rs) ∧
      (∀ path, ∃ h, (importPath ws path (performAll ws {} rs)).1 = .ok h) ∧
      ∀ more, ∀ p ∈ ws.packages, ((performAll ws {} rs).info? p).isSome →
        (performAll ws {} (rs ++ more)).info? p = (performAll ws {} rs).info? p ∧
        (performAll ws {} (rs ++ more)).typed? p = (performAll ws {} rs).typed? p := by
  have hloaded := Load.loaded hs hws
  obtain ⟨hS, hG⟩ := performAll_sound hloaded.distinct (sound_empty ws) rs
  refine ⟨?_, fun path => ?_, fun more p hp hb => ?_⟩
  · exact hS.settled (hloaded.keyed hm hne) fun p hp hb => hG.ended p hp (by simp [Begun, info?]) hb
  · obtain ⟨h, d, he, _⟩ := importPath_ok hloaded.distinct hS path
    exact ⟨h, by rw [he]⟩
  · rw [performAll_append]
    obtain ⟨hi, hh⟩ := (performAll_sound hloaded.distinct hS more).2.keeps p hp hb
    exact ⟨hi, by simp only [typed?, hh]⟩

end Checks

end Check

namespace Load

def ringOuter : ByteArray :=
  "package a\nimport \"m/b\"\nvar X = b.Y\n".toUTF8

def ringInner : ByteArray :=
  "package b\nimport \"m\"\nvar Y = a.X\n".toUTF8

/-- A module whose two packages import each other. -/
def ring : Files.Store :=
  nested ringOuter ringInner

theorem proper_ring : ring.Proper :=
  (sound_nested ringOuter ringInner).proper

theorem workspace_ring : ∃ ws log, workspace ring "/ws" true = (.ok ws, log) ∧
    ws.module? = some { path := "m" } ∧ ws.packages.map (·.path) = ["/ws", "/ws/b"] := by
  have houter : (Syntax.parse? ringOuter).isSome := by decide +kernel
  have hinner : (Syntax.parse? ringInner).isSome := by decide +kernel
  obtain ⟨outer, houter⟩ := Option.isSome_iff_exists.mp houter
  obtain ⟨inner, hinner⟩ := Option.isSome_iff_exists.mp hinner
  obtain ⟨log, hload⟩ := (nested_nested ringOuter ringInner).workspace houter hinner
  obtain ⟨hpath, hpath'⟩ := path_nested ringOuter ringInner outer inner
  refine ⟨_, log, hload, rfl, ?_⟩
  rw [nestedWorkspace, List.map_cons, List.map_singleton, hpath, hpath']

end Load

namespace Check.Checks

/-- Requests to two packages that import each other. -/
theorem settled_ring : ∃ ws log, Load.workspace Load.ring "/ws" true = (.ok ws, log) ∧
    ws.packages.map (·.path) = ["/ws", "/ws/b"] ∧
    ∀ rs, Settled ws (performAll ws {} rs) := by
  obtain ⟨ws, log, hws, hm, hp⟩ := Load.workspace_ring
  exact ⟨ws, log, hws, hp, fun rs => (settled_performAll Load.proper_ring hws hm (by decide) rs).1⟩

end Check.Checks

end GoAtlas
