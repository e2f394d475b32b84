import Mathlib.Logic.Function.Basic
import GoAtlas.Proofs.Session.Runs

namespace GoAtlas.Session

variable {ws : Workspace} {s : Session} {p : Package} {α β : Type}

/-- For each package path, whether the table there is was built with tests. -/
abbrev TableFlags := String → Option Bool

variable {flags : TableFlags}

/-- The symbol tables of a session are built as the flags say. -/
structure Holds (ws : Workspace) (flags : TableFlags) (s : Session) : Prop where
  workspace : s.workspace = ws
  tables : ∀ p ∈ ws.packages,
    s.tables.lookup p.path = (flags p.path).map (SymbolTable.ofPackage p)

theorem holds_of_empty (hws : s.workspace = ws) (htables : s.tables = []) :
    s.Holds ws (fun _ => none) :=
  ⟨hws, fun p _ => by rw [htables]; rfl⟩

theorem Holds.emit (h : s.Holds ws flags) (r : LogRecord) : (s.emit r).Holds ws flags :=
  ⟨h.workspace, h.tables⟩

theorem Holds.congr {flags' : TableFlags} (h : s.Holds ws flags)
    (heq : ∀ p ∈ ws.packages, flags' p.path = flags p.path) : s.Holds ws flags' :=
  ⟨h.workspace, fun p hp => by rw [heq p hp, h.tables p hp]⟩

def noted (choose : Option Bool → Bool) (path : String) (flags : TableFlags) : TableFlags :=
  Function.update flags path (some (choose (flags path)))

def Operates (ws : Workspace) (choose : Option Bool → Bool) (p : Package) (answer : Bool → α)
    (m : StateM Session α) : Prop :=
  ∀ flags s, Holds ws flags s →
    (m s).1 = answer (choose (flags p.path)) ∧ (m s).2.Holds ws (noted choose p.path flags)

theorem operates_buildTable (hws : ws.Distinct) (hp : p ∈ ws.packages) (tests : Bool) :
    Operates ws (fun _ => tests) p (SymbolTable.ofPackage p) (buildTable p tests) := by
  intro flags s h
  refine ⟨rfl, h.workspace, ?_⟩
  intro q hq
  rw [buildTable, Dict.lookup_put, noted]
  by_cases he : q.path = p.path
  · obtain rfl := hws q hq p hp he
    simp
  · simp [he, h.tables q hq]

theorem operates_tableWith (hws : ws.Distinct) (hp : p ∈ ws.packages) (tests : Bool) :
    Operates ws (·.getD tests) p (SymbolTable.ofPackage p) (tableWith p tests) := by
  intro flags s h
  have htable := h.tables p hp
  cases hset : flags p.path with
  | none =>
    have he : tableWith p tests s = buildTable p tests s := by
      simp [tableWith, htable, hset]
    have hnoted : noted (·.getD tests) p.path flags = noted (fun _ => tests) p.path flags := by
      simp [noted, hset]
    rw [he, hnoted]
    exact operates_buildTable hws hp tests flags s h
  | some tests' =>
    have he : tableWith p tests s = (SymbolTable.ofPackage p tests', s) := by
      simp [tableWith, htable, hset]
    have hnoted : noted (·.getD tests) p.path flags = flags := by
      rw [noted, hset, Option.getD_some, ← hset, Function.update_eq_self]
    rw [he, hnoted]
    exact ⟨rfl, h⟩

variable {choose : Option Bool → Bool}

theorem Operates.map {answer : Bool → α} {m : StateM Session α} (h : Operates ws choose p answer m)
    (f : α → β) : Operates ws choose p (fun tests => f (answer tests)) (do pure (f (← m))) := by
  intro flags s hs
  obtain ⟨hanswer, hnoted⟩ := h flags s hs
  exact ⟨congrArg f hanswer, hnoted⟩

section

variable (hchoose : ∀ x, choose (some (choose x)) = choose x)
include hchoose

theorem choose_noted (path other : String) (flags : TableFlags) :
    choose (noted choose path flags other) = choose (flags other) := by
  by_cases h : other = path
  · rw [h]
    simp [noted, hchoose]
  · simp [noted, h]

variable {answer : Package → Bool → α} {op : Package → StateM Session α}
  (hop : ∀ p ∈ ws.packages, Operates ws choose p (answer p) (op p))
include hop

/-- One after the other, packages are answered for as each would be alone, since what is noted for
one makes no difference to another. -/
theorem mapM_operates {ps : List Package} (hps : ps ⊆ ws.packages) (hs : s.Holds ws flags) :
    (ps.mapM op s).1 = ps.map (fun p => answer p (choose (flags p.path))) ∧
      (ps.mapM op s).2.Holds ws fun path =>
        if path ∈ ps.map (·.path) then some (choose (flags path)) else flags path := by
  induction ps generalizing s flags with
  | nil => exact ⟨rfl, hs.congr fun p _ => by simp⟩
  | cons p ps ih =>
    obtain ⟨hfirst, hnext⟩ := hop p (hps List.mem_cons_self) flags s hs
    obtain ⟨hrest, hlast⟩ := ih (List.subset_of_cons_subset hps) hnext
    simp only [choose_noted hchoose] at hrest hlast
    rw [List.mapM_cons]
    constructor
    · rw [List.map_cons, ← hfirst, ← hrest]
      rfl
    · refine hlast.congr fun q _ => ?_
      by_cases hq : q.path = p.path
      · simp [hq, noted]
      · simp [hq, noted]

theorem mapM_packages (hs : s.Holds ws flags) :
    (ws.packages.mapM op s).1 = ws.packages.map (fun p => answer p (choose (flags p.path))) ∧
      (ws.packages.mapM op s).2.Holds ws fun path => some (choose (flags path)) := by
  obtain ⟨hanswers, hlast⟩ := mapM_operates hchoose hop (List.Subset.refl _) hs
  refine ⟨hanswers, hlast.congr fun p hp => ?_⟩
  rw [if_pos (List.mem_map_of_mem hp)]

end

end GoAtlas.Session
