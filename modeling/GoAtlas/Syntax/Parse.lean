import GoAtlas.Syntax.Grammar.Statements
import GoAtlas.Syntax.Lexer

namespace GoAtlas.Syntax

namespace Grammar

/-- The production of each goal. -/
def production (g : Grammar) : Goal → Rule Tree
  | .expression header => expressionRule g header
  | .unary header => unary g header
  | .type => typeRule g
  | .parameters => parameters g
  | .literalValue => literalValue g
  | .block => block g
  | .statement => statementRule g
  | .ifStatement => ifStatement g

/-- Trees whose productions nest at most `depth` deep. -/
def upTo : Nat → Grammar
  | 0 => fun _ => failure
  | depth + 1 => production (upTo depth)

/-- A declaration that only stands at the top level and may end the file. -/
def topLevel (g : Grammar) : Rule Tree :=
  packageClause <|> importDeclaration <|> functionDeclaration g <|> methodDeclaration g

/-- One top-level item with its terminator, which only a top-level declaration can lack, and only at
the end of the file. -/
def fileItem (g : Grammar) : Rule (List Tree) :=
  (do let d ← topLevel g
      match ← optional Rule.terminator with
      | some t => pure [d, t]
      | none =>
        Rule.require (← Rule.ended)
        pure [d])
    <|> (do let s ← g .statement
            pure [s, ← Rule.terminator])

def file (g : Grammar) : Rule (List Tree) := do
  let items ← Rule.many (fileItem g)
  Rule.require (← Rule.ended)
  pure items.flatten

end Grammar

namespace Tree

mutual
/-- Puts comments, given in order, into the tree they lie in. -/
def insertComments (comments : List Span) : Tree → Tree
  | .node k f s cs => .node k f s (insertAmong comments cs)

/-- Puts comments between and into consecutive nodes. -/
def insertAmong (comments : List Span) : List Tree → List Tree
  | [] => comments.map fun s => .node .comment none s []
  | t :: ts =>
    let before := comments.takeWhile (·.start < t.start)
    let later := comments.dropWhile (·.start < t.start)
    let inside := later.takeWhile (·.start < t.stop)
    before.map (fun s => .node .comment none s [])
      ++ insertComments inside t :: insertAmong (later.dropWhile (·.start < t.stop)) ts
end

mutual
/-- The named nodes and their parts, in parentheses. -/
def render : Tree → String
  | .node k f _ cs =>
    let part := (f.map fun f => f.text ++ ": ").getD ""
    part ++ "(" ++ k.text ++ renderAll cs ++ ")"

def renderAll : List Tree → String
  | [] => ""
  | t :: ts => (if t.kind.isNamed then " " ++ render t else "") ++ renderAll ts
end

end Tree

/-- The syntax tree of a source text, unless the text has a syntax error. -/
def parse? (source : ByteArray) : Option Tree := do
  let (lexemes, stop) ← Lexer.lexemes? source
  let depth := 8 * lexemes.tokens.size + 16
  let (items, _) ← Grammar.file (Grammar.upTo depth) lexemes.tokens 0
  let start := (items.head?.map Tree.start).getD stop.offset
  let first := (items.head?.map fun t => t.span.first).getD stop.point
  pure (Tree.insertComments lexemes.comments.toList
    (.node .sourceFile none ⟨start, stop.offset, first, stop.point⟩ items))

end GoAtlas.Syntax
