import GoAtlas.Syntax.Rule

namespace GoAtlas.Syntax

/-- What can be asked for recursively. In the header of a control statement an opening brace starts
the body, so that a bare type name there takes no literal value. -/
inductive Goal where
  | expression (header : Bool)
  | unary (header : Bool)
  | type
  | parameters
  | literalValue
  | block
  | statement
  | ifStatement
  deriving DecidableEq, Repr

abbrev Grammar := Goal → Rule Tree

namespace Rule

/-- One or more results with commas between. -/
def commaList (r : Rule Tree) : Rule (List Tree) := do
  let first ← r
  let more ← many do
    let comma ← symbol ","
    let t ← r
    pure [comma, t]
  pure (first :: more.flatten)

/-- An optional trailing comma. -/
def trailingComma : Rule (List Tree) := do
  pure (← optional (symbol ",")).toList

/-- Reads over line breaks. -/
def lineBreaks : Rule Unit := do
  let _ ← many (satisfy (·.cls = .newline))
  pure ()

/-- Items with terminators between and an optional one after the last. -/
def terminated (r : Rule Tree) : Rule (List Tree) := do
  match ← optional r with
  | none => pure []
  | some first =>
    let more ← many do
      let t ← terminator
      let item ← r
      pure [t, item]
    let last ← optional terminator
    pure (first :: more.flatten ++ last.toList)

/-- Items with a terminator after each. -/
def eachTerminated (r : Rule Tree) : Rule (List Tree) := do
  let items ← many do
    let item ← r
    let t ← terminator
    pure [item, t]
  pure items.flatten

/-- A rule between two brackets, which are kept. -/
def between (opening closing : String) (r : Rule (List Tree)) : Rule (List Tree) := do
  let o ← symbol opening
  let items ← r
  let c ← symbol closing
  pure (o :: items ++ [c])

end Rule

end GoAtlas.Syntax
