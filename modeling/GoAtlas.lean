import GoAtlas.Check.Binding
import GoAtlas.Check.Demand
import GoAtlas.Check.Object
import GoAtlas.Check.Package
import GoAtlas.Check.Run
import GoAtlas.Command.Arguments
import GoAtlas.Command.Run
import GoAtlas.Config.Settings
import GoAtlas.Config.Toml
import GoAtlas.Dependencies
import GoAtlas.Dict
import GoAtlas.Failure
import GoAtlas.Files.Contents
import GoAtlas.Files.Ignore
import GoAtlas.Files.Store
import GoAtlas.Finding.Complexity
import GoAtlas.Finding.Flag
import GoAtlas.Finding.Initializer
import GoAtlas.Finding.Nesting
import GoAtlas.Finding.Place
import GoAtlas.Finding.RootContext
import GoAtlas.Finding.Switchable
import GoAtlas.Finding.Unused
import GoAtlas.Finding.Wrapping
import GoAtlas.Graph
import GoAtlas.Graph.Cycles
import GoAtlas.Json.Lines
import GoAtlas.Json.Read
import GoAtlas.Json.Value
import GoAtlas.Log
import GoAtlas.Loose.Real
import GoAtlas.Loose.Value
import GoAtlas.Main
import GoAtlas.ModuleFile
import GoAtlas.Name
import GoAtlas.Obstacle
import GoAtlas.Path
import GoAtlas.Reference.Index
import GoAtlas.Report.Generate
import GoAtlas.Report.Id
import GoAtlas.Report.Payload
import GoAtlas.Report.Records
import GoAtlas.Report.Verify
import GoAtlas.Session
import GoAtlas.Source.Registry
import GoAtlas.Symbol.Basic
import GoAtlas.Symbol.Table
import GoAtlas.Syntax.Declaration
import GoAtlas.Syntax.Grammar.Declarations
import GoAtlas.Syntax.Grammar.Expressions
import GoAtlas.Syntax.Grammar.Goal
import GoAtlas.Syntax.Grammar.Statements
import GoAtlas.Syntax.Grammar.Types
import GoAtlas.Syntax.Kind
import GoAtlas.Syntax.Lexer
import GoAtlas.Syntax.Parse
import GoAtlas.Syntax.Rule
import GoAtlas.Syntax.Statement
import GoAtlas.Syntax.Token
import GoAtlas.Syntax.Tree
import GoAtlas.Text.Blank
import GoAtlas.Text.Case
import GoAtlas.Text.CharSet
import GoAtlas.Text.Digit
import GoAtlas.Text.Letter
import GoAtlas.Text.Split
import GoAtlas.Text.Utf8
import GoAtlas.Workspace.Discovery
import GoAtlas.Workspace.Load
import GoAtlas.Workspace.Model
import GoAtlas.Proofs.Check.Agreement
import GoAtlas.Proofs.Check.Denotation
import GoAtlas.Proofs.Check.Growth
import GoAtlas.Proofs.Check.Frames
import GoAtlas.Proofs.Check.Linking
import GoAtlas.Proofs.Check.Placement
import GoAtlas.Proofs.Check.Requests
import GoAtlas.Proofs.Check.Verdicts
import GoAtlas.Proofs.Check.Roles
import GoAtlas.Proofs.Check.TopLevel
import GoAtlas.Proofs.Reference.Walk
import GoAtlas.Proofs.Reference.Search
import GoAtlas.Proofs.Reference.Sites
import GoAtlas.Proofs.Session.Definitions
import GoAtlas.Proofs.Session.Indexing
import GoAtlas.Proofs.Session.References
import GoAtlas.Proofs.Session.RoundTrip
import GoAtlas.Proofs.Session.Runs
import GoAtlas.Proofs.Source.Slots
import GoAtlas.Proofs.Symbol.Tables
import GoAtlas.Proofs.Syntax.DeclarationRules
import GoAtlas.Proofs.Syntax.ExpressionRules
import GoAtlas.Proofs.Syntax.Layout
import GoAtlas.Proofs.Syntax.Words
import GoAtlas.Proofs.Syntax.Lexing
import GoAtlas.Proofs.Syntax.Marks
import GoAtlas.Proofs.Syntax.Parsed
import GoAtlas.Proofs.Syntax.Reading
import GoAtlas.Proofs.Syntax.StatementRules
import GoAtlas.Proofs.Syntax.TypeRules
import GoAtlas.Proofs.Workspace.Discovered
import GoAtlas.Proofs.Files.Places
import GoAtlas.Proofs.Files.Contents
import GoAtlas.Proofs.Files.Hiding
import GoAtlas.Proofs.Files.Resolving
import GoAtlas.Proofs.Files.Writing
import GoAtlas.Proofs.Files.Located
import GoAtlas.Proofs.Workspace.Loading
import GoAtlas.Proofs.Workspace.Small
import GoAtlas.Proofs.Workspace.Parts
import GoAtlas.Proofs.Workspace.Unseen
import GoAtlas.Proofs.Check.Effects
import GoAtlas.Proofs.Check.Recording
import GoAtlas.Proofs.Check.Integrity
import GoAtlas.Proofs.Check.Composition
import GoAtlas.Proofs.Check.Precedence
import GoAtlas.Proofs.Check.Capture
import GoAtlas.Proofs.Check.Imported
import GoAtlas.Proofs.Session.Declarations
import GoAtlas.Proofs.Check.Relocation
import GoAtlas.Proofs.Session.Relocation
import GoAtlas.Proofs.Report.Relocation
import GoAtlas.Proofs.Symbol.Namings
import GoAtlas.Proofs.Finding.Events
import GoAtlas.Proofs.Finding.Decisions
import GoAtlas.Proofs.Finding.History
import GoAtlas.Proofs.Symbol.Buckets
import GoAtlas.Proofs.Symbol.Occurrences
import GoAtlas.Proofs.Symbol.PackageNames
import GoAtlas.Proofs.Report.Writing
import GoAtlas.Proofs.Report.Comparison
import GoAtlas.Proofs.Report.Alike
import GoAtlas.Proofs.Command.Verification
import GoAtlas.Proofs.Workspace.Keys
import GoAtlas.Proofs.Workspace.Shown
import GoAtlas.Proofs.Report.Selection
import GoAtlas.Proofs.Report.Ids
import GoAtlas.Proofs.Report.SymbolIds
import GoAtlas.Proofs.Finding.Anchors
import GoAtlas.Proofs.Report.Subjects
import GoAtlas.Proofs.Report.DiagnosticIds
import GoAtlas.Proofs.Files.Passing
import GoAtlas.Proofs.Workspace.Failing
import GoAtlas.Proofs.Report.Failing
import GoAtlas.Proofs.Graph.Paths
import GoAtlas.Proofs.Graph.Search
import GoAtlas.Proofs.Graph.Components
import GoAtlas.Proofs.Graph.Cycles
import GoAtlas.Proofs.Report.FileNames
import GoAtlas.Proofs.Report.Payload
import GoAtlas.Proofs.Graph.Closure
import GoAtlas.Proofs.Source.Lines
import GoAtlas.Proofs.Workspace.Snippets
import GoAtlas.Proofs.Workspace.Found
import GoAtlas.Proofs.Finding.Branches
import GoAtlas.Proofs.Finding.Outermost
import GoAtlas.Proofs.Finding.Owners
import GoAtlas.Proofs.Finding.Quoting
import GoAtlas.Proofs.Finding.Literals
import GoAtlas.Proofs.Finding.Ranking
import GoAtlas.Proofs.Symbol.Filing
import GoAtlas.Proofs.Symbol.Spelling
import GoAtlas.Proofs.Session.Resolution
import GoAtlas.Proofs.Session.Qualifiers
import GoAtlas.Proofs.Finding.Grouping
import GoAtlas.Proofs.Finding.Fanout
import GoAtlas.Proofs.Syntax.Bare
import GoAtlas.Proofs.Symbol.Bare
import GoAtlas.Proofs.Finding.Bare
import GoAtlas.Proofs.Workspace.ImportPaths
import GoAtlas.Proofs.Finding.Handovers
import GoAtlas.Proofs.Check.Values
import GoAtlas.Proofs.Check.Blank
