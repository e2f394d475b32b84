import GoAtlas.Syntax.Tree

namespace GoAtlas.Syntax

inductive TokenClass where
  | name
  | keyword
  | symbol
  | int
  | float
  | imaginary
  | rune
  | rawString
  | quotedString
  | newline
  deriving DecidableEq, Repr, Inhabited

/-- A token; `pieces` are the runs and escapes inside a string literal. -/
structure Token where
  cls : TokenClass
  text : String
  span : Span
  pieces : List (Kind × Span) := []
  deriving Repr, Inhabited

def keywords : List String :=
  ["break", "case", "chan", "const", "continue", "default", "defer", "else", "fallthrough", "for",
    "func", "go", "goto", "if", "import", "interface", "map", "package", "range", "return",
    "select", "struct", "switch", "type", "var"]

/-- Punctuation and operators, longer ones first. -/
def symbols : List String :=
  ["<<=", ">>=", "&^=", "...",
    "&&", "||", "<-", "++", "--", "==", "!=", "<=", ">=", ":=", "+=", "-=", "*=", "/=", "%=",
    "&=", "|=", "^=", "<<", ">>", "&^",
    "+", "-", "*", "/", "%", "&", "|", "^", "<", ">", "=", "!", "(", ")", "[", "]", "\x7b", "\x7d",
    ",", ";", ".", ":", "~"]

namespace Token

/-- A line break after this token ends the statement. -/
def endsLine (t : Token) : Bool :=
  match t.cls with
  | .name | .int | .float | .imaginary | .rune | .rawString | .quotedString => true
  | .keyword => ["break", "continue", "fallthrough", "return"].contains t.text
  | .symbol => ["++", "--", ")", "]", "\x7d"].contains t.text
  | .newline => false

/-- A parenthesis after this token opens a list of declarations. -/
def opensGroup (t : Token) : Bool :=
  t.cls = .keyword && ["import", "const", "type", "var"].contains t.text

/-- The sign up to which the head of a statement or clause reaches that this token begins. -/
def head? (t : Token) : Option String :=
  if t.cls ≠ .keyword then none
  else if ["if", "for", "switch", "select"].contains t.text then some "\x7b"
  else if t.text == "case" then some ":"
  else none

end Token

/-- What a file or a bracket holds. -/
structure Level where
  /-- Neither statements nor declarations. -/
  closed : Bool := false
  /-- The sign that ends the head of the statement that has been begun last. -/
  head : Option String := none

namespace Level

def endsLines (levels : List Level) : Bool :=
  (levels.head?.map fun l => !l.closed && l.head.isNone).getD true

def past (sign : String) (l : Level) : Level :=
  { l with head := l.head.filter (· != sign) }

/-- The levels around what follows a token, which stands behind the token `last?`. -/
def pass (last? : Option Token) (t : Token) : List Level → List Level
  | [] => []
  | l :: ls =>
    match t.cls, t.text with
    | .symbol, "(" => { closed := !(last?.map Token.opensGroup).getD false } :: l :: ls
    | .symbol, "[" => { closed := true } :: l :: ls
    | .symbol, "\x7b" => {} :: l.past "\x7b" :: ls
    | .symbol, ")" | .symbol, "]" | .symbol, "\x7d" => ls
    | .symbol, ":" => l.past ":" :: ls
    | _, _ => { l with head := t.head?.or l.head } :: ls

end Level

end GoAtlas.Syntax
