import GoAtlas.Syntax.Token

namespace GoAtlas.Syntax

def Rule (α : Type) : Type :=
  Array Token → Nat → Option (α × Nat)

namespace Rule

variable {α β : Type}

instance : Monad Rule where
  pure a := fun _ i => some (a, i)
  bind r f := fun ts i =>
    match r ts i with
    | some (a, j) => f a ts j
    | none => none

instance : Alternative Rule where
  failure := fun _ _ => none
  orElse r s := fun ts i =>
    match r ts i with
    | some x => some x
    | none => s () ts i

/-- The token `n` places ahead, which stays unread. -/
def ahead (n : Nat) : Rule (Option Token) :=
  fun ts i => some (ts[i + n]?, i)

def next : Rule Token :=
  fun ts i => (ts[i]?).map (·, i + 1)

def ended : Rule Bool :=
  fun ts i => some (ts.size ≤ i, i)

/-- Reads a token satisfying `p`. -/
def satisfy (p : Token → Bool) : Rule Token := do
  let t ← next
  if p t then pure t else failure

def require (b : Bool) : Rule Unit :=
  if b then pure () else failure

/-- Extends a value by a rule as long as the rule succeeds and reads something. -/
def iterate (step : α → Rule α) (a : α) : Rule α :=
  fun ts i =>
    match step a ts i with
    | some (b, j) => if i < j ∧ j ≤ ts.size then iterate step b ts j else some (a, i)
    | none => some (a, i)
termination_by ts i => ts.size - i

/-- As many results of a rule as there are. -/
def many (r : Rule α) : Rule (List α) := do
  let found ← iterate (fun (acc : List α) => (· :: acc) <$> r) []
  pure found.reverse

end Rule

namespace Token

def isSymbol (s : String) (t : Token) : Bool :=
  t.cls = .symbol && t.text == s

def isKeyword (s : String) (t : Token) : Bool :=
  t.cls = .keyword && t.text == s

/-- A line break or a semicolon. -/
def isTerminator (t : Token) : Bool :=
  t.cls = .newline || t.isSymbol ";"

/-- The token as a leaf of punctuation. -/
def leaf (t : Token) : Tree :=
  .node (.token t.text) none t.span []

/-- The token as a leaf of some kind. -/
def as (t : Token) (k : Kind) : Tree :=
  .node k none t.span []

end Token

namespace Rule

def symbol (s : String) : Rule Tree :=
  Token.leaf <$> satisfy (·.isSymbol s)

def keyword (s : String) : Rule Tree :=
  Token.leaf <$> satisfy (·.isKeyword s)

def terminator : Rule Tree :=
  Token.leaf <$> satisfy (·.isTerminator)

/-- A name, as a leaf of some kind. -/
def name (k : Kind) : Rule Tree :=
  (·.as k) <$> satisfy (·.cls = .name)

/-- Whether the token `n` places ahead satisfies `p`. -/
def sees (n : Nat) (p : Token → Bool) : Rule Bool := do
  pure (((← ahead n).map p).getD false)

def seesSymbol (n : Nat) (s : String) : Rule Bool := sees n (·.isSymbol s)

def seesKeyword (n : Nat) (s : String) : Rule Bool := sees n (·.isKeyword s)

end Rule

namespace Tree

/-- A node over children that are not all missing; it covers what they cover. -/
def spanning (k : Kind) (children : List Tree) : Tree :=
  let first := (children.head?.map Tree.span).getD default
  let last := (children.getLast?.map Tree.span).getD default
  .node k none ⟨first.start, last.stop, first.first, last.last⟩ children

end Tree

end GoAtlas.Syntax
