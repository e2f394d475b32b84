import GoAtlas.Syntax.Kind
import GoAtlas.Text.Utf8

namespace GoAtlas.Syntax

/-- A place in a text by row and byte column, both from zero. -/
structure Point where
  row : Nat
  column : Nat
  deriving DecidableEq, Repr, Inhabited

/-- The bytes `start` up to, not including, `stop`, with the places of both ends. -/
structure Span where
  start : Nat
  stop : Nat
  first : Point
  last : Point
  deriving DecidableEq, Repr, Inhabited

inductive Tree where
  | node (kind : Kind) (field : Option Field) (span : Span) (children : List Tree)
  deriving Repr, Inhabited

namespace Tree

def kind : Tree → Kind
  | .node k _ _ _ => k

def field : Tree → Option Field
  | .node _ f _ _ => f

def span : Tree → Span
  | .node _ _ s _ => s

def children : Tree → List Tree
  | .node _ _ _ cs => cs

def start (t : Tree) : Nat := t.span.start

def stop (t : Tree) : Nat := t.span.stop

/-- The same node in another part of its parent. -/
def withField (f : Field) : Tree → Tree
  | .node k _ s cs => .node k (some f) s cs

/-- The same node under another kind. -/
def withKind (k : Kind) : Tree → Tree
  | .node _ f s cs => .node k f s cs

theorem sizeOf_lt_of_mem_children {t c : Tree} (h : c ∈ t.children) : sizeOf c < sizeOf t := by
  cases t with
  | node k f s cs =>
    have := List.sizeOf_lt_of_mem h
    simp only [children] at this
    simp only [node.sizeOf_spec]
    omega

/-- The children other than punctuation and keywords. -/
def named (t : Tree) : List Tree :=
  t.children.filter (·.kind.isNamed)

/-- The children playing a part. -/
def parts (t : Tree) (f : Field) : List Tree :=
  t.children.filter (·.field = some f)

/-- The first child playing a part. -/
def part? (t : Tree) (f : Field) : Option Tree :=
  t.children.find? (·.field = some f)

/-- Whether a piece of punctuation or a keyword is among the children. -/
def hasToken (t : Tree) (text : String) : Bool :=
  t.children.any (·.kind = .token text)

def isComment (t : Tree) : Bool :=
  t.kind = .comment

/-- The source text a node covers. -/
def text (source : ByteArray) (t : Tree) : String :=
  Text.Utf8.decode (source.extract t.start t.stop)

/-- The text of a node that may be missing, which is then empty. -/
def text? (source : ByteArray) (t : Option Tree) : String :=
  (t.map (·.text source)).getD ""

mutual
/-- The nodes of a tree, each before those below it, from left to right. -/
def walk : Tree → List Tree
  | .node k f s cs => .node k f s cs :: walkAll cs

def walkAll : List Tree → List Tree
  | [] => []
  | t :: ts => t.walk ++ walkAll ts
end

mutual
/-- The number of nodes of a tree. -/
def size : Tree → Nat
  | .node _ _ _ cs => sizeAll cs + 1

def sizeAll : List Tree → Nat
  | [] => 0
  | t :: ts => t.size + sizeAll ts
end

theorem sizeAll_append (ts us : List Tree) : sizeAll (ts ++ us) = sizeAll ts + sizeAll us := by
  induction ts with
  | nil => simp [sizeAll]
  | cons t ts ih => simp [sizeAll, ih, Nat.add_assoc]

theorem size_eq (t : Tree) : t.size = sizeAll t.children + 1 := by
  cases t
  rfl

end Tree

end GoAtlas.Syntax

namespace GoAtlas

-- these two are library names too, and in this library they always mean the syntax
export Syntax (Tree Field)

end GoAtlas
