import GoAtlas.Text.Blank
import GoAtlas.Text.Split

namespace GoAtlas.Files

/-- A piece of a pattern. -/
inductive Glob where
  | char (c : Char)
  /-- Any character but a slash. -/
  | any
  /-- Any run without a slash. -/
  | run
  /-- Any directories, or none. -/
  | dirs
  /-- Anything. -/
  | anything
  /-- A character in, or not in, a union of ranges. -/
  | oneOf (negated : Bool) (ranges : List (Char × Char))
  deriving DecidableEq, Repr

/-- The ends of a list that follow a run of characters satisfying `p`. -/
def endsAfter (p : Char → Bool) : List Char → List (List Char)
  | [] => [[]]
  | c :: r => (c :: r) :: if p c then endsAfter p r else []

/-- The ends of a list that follow a slash. -/
def endsAfterSlash : List Char → List (List Char)
  | [] => []
  | c :: r => if c = '/' then r :: endsAfterSlash r else endsAfterSlash r

namespace Glob

/-- Whether pieces match a start of a text such that the rest satisfies `stop`. -/
def accepts (stop : List Char → Bool) : List Glob → List Char → Bool
  | [], cs => stop cs
  | .char d :: gs, c :: cs => c = d && accepts stop gs cs
  | .any :: gs, c :: cs => c != '/' && accepts stop gs cs
  | .oneOf negated ranges :: gs, c :: cs =>
    (negated != ranges.any fun (a, b) => a ≤ c && c ≤ b) && accepts stop gs cs
  | .run :: gs, cs => (endsAfter (· != '/') cs).any (accepts stop gs)
  | .anything :: gs, cs => (endsAfter (· != '\n') cs).any (accepts stop gs)
  | .dirs :: gs, cs => (cs :: endsAfterSlash cs).any (accepts stop gs)
  | _ :: _, [] => false

/-- The ranges of the inside of brackets. -/
def ranges : List Char → List (Char × Char)
  | a :: '-' :: b :: r => (a, b) :: ranges r
  | a :: r => (a, a) :: ranges r
  | [] => []

/-- The inside of brackets and what follows them; a closing bracket may come first. -/
def bracketed? (cs : List Char) : Option (List Char × List Char) :=
  let (mark, afterMark) :=
    match cs with
    | '!' :: r => (['!'], r)
    | r => ([], r)
  let (first, afterFirst) :=
    match afterMark with
    | ']' :: r => ([']'], r)
    | r => ([], r)
  match afterFirst.dropWhile (· != ']') with
  | _ :: r => some (mark ++ first ++ afterFirst.takeWhile (· != ']'), r)
  | [] => none

/-- The class that the inside of brackets stands for; slashes do not count. -/
def ofBracketed (inside : List Char) : Glob :=
  match inside.filter (· != '/') with
  | '!' :: r => .oneOf true (ranges r)
  | r => .oneOf false (ranges r)

theorem length_bracketed? {cs inside rest : List Char} (h : bracketed? cs = some (inside, rest)) :
    rest.length ≤ cs.length := by
  unfold bracketed? at h
  split at h
  rename_i mark afterMark hm
  split at h
  rename_i first afterFirst hf
  have h1 : afterMark.length ≤ cs.length := by
    split at hm <;> simp at hm <;> obtain ⟨-, rfl⟩ := hm <;> simp
  have h2 : afterFirst.length ≤ afterMark.length := by
    split at hf <;> simp at hf <;> obtain ⟨-, rfl⟩ := hf <;> simp
  have h3 := (List.dropWhile_sublist (p := (· != ']')) (l := afterFirst)).length_le
  split at h
  · rename_i r he
    simp only [Option.some.injEq, Prod.mk.injEq] at h
    rw [he] at h3
    simp only [List.length_cons] at h3
    have := congrArg List.length h.2
    omega
  · simp at h

/-- The pieces of a pattern. -/
def parse (cs : List Char) : List Glob :=
  match cs with
  | [] => []
  | '*' :: '*' :: '/' :: r => .dirs :: parse r
  | '*' :: '*' :: r => .anything :: parse r
  | '*' :: r => .run :: parse r
  | '?' :: r => .any :: parse r
  | '[' :: r =>
    match h : bracketed? r with
    | some (inside, rest) =>
      have := length_bracketed? h
      ofBracketed inside :: parse rest
    | none => .char '[' :: parse r
  | c :: r => .char c :: parse r
termination_by cs.length

end Glob

/-- One rule of an ignore file. -/
structure IgnoreRule where
  globs : List Glob
  anchored : Bool
  directoryOnly : Bool
  negated : Bool
  deriving DecidableEq, Repr

namespace IgnoreRule

/-- What a run of stars between two characters is read as: a single star if it touches anything
other than a slash, and else no more than two. -/
def readStars (before after : Option Char) (stars : Nat) : List Char :=
  let touches (c : Option Char) : Bool := (c.map (· != '/')).getD false
  if stars = 0 then []
  else if stars = 1 || touches before || touches after then ['*']
  else ['*', '*']

/-- A pattern with its runs of stars as they are read. -/
def settleStars (before : Option Char) (stars : Nat) : List Char → List Char
  | [] => readStars before none stars
  | c :: r =>
    if c = '*' then settleStars before (stars + 1) r
    else readStars before (some c) stars ++ c :: settleStars (some c) 0 r

/-- A pattern in reverse without blanks at its end; a blank behind a backslash stays, and then so do
those before it. The first two characters are never blanks to drop. -/
def dropBlanks (strip : Bool) : List Char → List Char
  | ' ' :: '\\' :: a :: r => ' ' :: dropBlanks false (a :: r)
  | ' ' :: a :: b :: r =>
    if strip then dropBlanks strip (a :: b :: r) else ' ' :: dropBlanks strip (a :: b :: r)
  | cs => cs

/-- The rule on a line, if there is one. -/
def ofLine? (line : String) : Option IgnoreRule :=
  match line.toList with
  | [] => none
  | c :: r =>
    if Text.strip line = "" || c = '#' then none
    else
      let negated := c = '!'
      let pattern := settleStars none 0 (if negated then r else c :: r)
      if Text.strip (String.ofList pattern) = "/" && pattern.head? = some '/' then none
      else
        let directoryOnly := pattern.getLast? = some '/'
        let anchored := pattern.dropLast.contains '/'
        let dropSlash (cs : List Char) := if cs.head? = some '/' then cs.drop 1 else cs
        let p := dropSlash pattern
        let deep := ['*', '*'].isPrefixOf p
        let p := dropSlash (if deep then p.drop 2 else p)
        let p := if p.getLast? = some '/' then p.dropLast else p
        let p :=
          match p with
          | '\\' :: '#' :: r => '#' :: r
          | '\\' :: '!' :: r => '!' :: r
          | p => p
        some {
          globs := Glob.parse (dropBlanks true p.reverse).reverse
          anchored := anchored && !deep, directoryOnly, negated }

/-- Whether what follows a match lets the rule apply. -/
def stops (rule : IgnoreRule) (rest : List Char) : Bool :=
  if !rule.directoryOnly then rest.isEmpty
  else if rule.negated then rest = ['/']
  else rest.isEmpty || rest.head? = some '/'

/-- Whether a rule matches a path seen from the directory of the ignore file. -/
def accepts (rule : IgnoreRule) (path : String) : Bool :=
  let cs := path.toList
  let starts := if rule.anchored then [cs] else cs :: endsAfterSlash cs
  starts.any (Glob.accepts rule.stops rule.globs)

end IgnoreRule

/-- Lines that end in a line feed, a carriage return or both. -/
def plainLines (current : List Char) : List Char → List (List Char)
  | [] => if current.isEmpty then [] else [current.reverse]
  | '\r' :: '\n' :: r => current.reverse :: plainLines [] r
  | c :: r =>
    if c = '\n' || c = '\r' then current.reverse :: plainLines [] r else plainLines (c :: current) r

/-- The rules of an ignore file. -/
def ignoreRules (text : String) : List IgnoreRule :=
  (plainLines [] text.toList).filterMap fun l => IgnoreRule.ofLine? (String.ofList l)

/-- Whether rules ignore a path. Without negations any match counts; otherwise the last one decides. -/
def isIgnored (rules : List IgnoreRule) (path : String) : Bool :=
  match rules.reverse.find? (·.accepts path) with
  | some rule => !rule.negated
  | none => false

end GoAtlas.Files
