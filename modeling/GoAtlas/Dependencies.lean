import GoAtlas.Graph.Cycles
import GoAtlas.Session

namespace GoAtlas

namespace Workspace

/-- The packages each package imports, by their names. -/
def importGraph (ws : Workspace) : Graph :=
  ws.packages.foldl
    (fun (g : Dict String (List String)) p =>
      g.put p.key (sortedSet ((g.lookup p.key).getD [] ++ p.imports.filterMap fun i => (ws.packageForImport? i).map (·.key))))
    []

/-- The imports of each package that lead outside the workspace; packages without any are left
out. -/
def outsideImports (ws : Workspace) : Dict String (List String) :=
  ws.packages.foldl
    (fun (d : Dict String (List String)) p =>
      let outside := sortedSet (p.imports.filter fun i => (ws.packageForImport? i).isNone)
      if outside.isEmpty then d else d.put p.key outside) []

end Workspace

structure Dependencies where
  direct : Graph
  transitive : Graph
  outside : Dict String (List String)
  cycles : List (List String)
  deriving DecidableEq, Repr

namespace Dependencies

def ofWorkspace (ws : Workspace) : Dependencies :=
  let g := ws.importGraph
  { direct := g, transitive := g.closure, outside := ws.outsideImports, cycles := g.cycles }

/-- A warning for each cycle, written as a way back to its first package. -/
def warnings (d : Dependencies) : List LogRecord :=
  d.cycles.map fun c =>
    ⟨.warning, "analyzers.dependencies",
      "import cycle: " ++ " -> ".intercalate (c ++ c.head?.toList)⟩

/-- Lists by name, in increasing order of the names. -/
def graphJson (g : Graph) : Json :=
  .obj (Json.sortFields (g.map fun (k, vs) => (k, Json.strs (sortedSet vs))))

def toJson (d : Dependencies) : Json :=
  .obj [("schema_version", .int schemaVersion), ("package_imports", graphJson d.direct),
    ("package_deps", graphJson d.transitive), ("external_imports", graphJson d.outside),
    ("cycles", .arr (d.cycles.map .strs))]

end Dependencies

namespace Session

/-- The dependencies of the workspace; cycles are logged. -/
def dependencies : StateM Session Dependencies := fun s =>
  let d := Dependencies.ofWorkspace s.workspace
  (d, { s with log := s.log ++ d.warnings })

end Session

end GoAtlas
