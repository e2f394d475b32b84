import GoAtlas.Syntax.Grammar.Goal
import GoAtlas.Proofs.Syntax.Layout

namespace GoAtlas.Syntax

def stopBefore (ts : Array Token) : Nat → Nat
  | 0 => 0
  | i + 1 => (ts[i]?.map (·.span.stop)).getD 0

def Token.literalKind (t : Token) : Kind :=
  if t.cls = .rawString then .rawStringLiteral else .interpretedStringLiteral

/-- A token that is not empty, holds its pieces in a row, is not touched by any of the places and is
spelled as its text says; a name is a word. -/
structure Token.Sound (C : Ground) (t : Token) : Prop where
  filled : t.span.start < t.span.stop
  free : Free C.places t.span.start t.span.stop
  word : t.cls = .name → C.word t.span
  sign : C.sign t.text t.span
  pieces : Row C t.literalKind t.span.start t.span.stop
    (t.pieces.map fun (k, s) => .node k none s [])

structure Lexed (C : Ground) (ts : Array Token) : Prop where
  sound : ∀ (i : Nat) (t : Token), ts[i]? = some t → t.Sound C
  ordered : ∀ (i : Nat) (t : Token), ts[i]? = some t → stopBefore ts i ≤ t.span.start

namespace Rule

variable {α β : Type} {ts : Array Token} {i : Nat} {r s : Rule α} {f : α → Rule β}
  {P : Nat → Nat → α → Prop} {Q : β → Nat → Prop}

def Post (ts : Array Token) (r : Rule α) (i : Nat) (Q : α → Nat → Prop) : Prop :=
  ∀ a j, r ts i = some (a, j) → Q a j

def Gives (ts : Array Token) (r : Rule α) (P : Nat → Nat → α → Prop) : Prop :=
  ∀ i, r.Post ts i fun a j => P i j a

theorem Post.pure {Q : α → Nat → Prop} {a : α} (h : Q a i) : Post ts (pure a) i Q := by
  rintro b j ⟨⟩
  exact h

theorem Post.failure {Q : α → Nat → Prop} : Post ts failure i Q := by
  rintro a j ⟨⟩

theorem bind_apply (r : Rule α) (f : α → Rule β) (ts : Array Token) (i : Nat) :
    (r >>= f) ts i = match r ts i with | some (a, j) => f a ts j | none => none :=
  rfl

theorem orElse_apply (r s : Rule α) (ts : Array Token) (i : Nat) :
    (r <|> s) ts i = match r ts i with | some x => some x | none => s ts i :=
  rfl

theorem Post.bind (h : r.Post ts i fun a j => (f a).Post ts j Q) : (r >>= f).Post ts i Q := by
  intro b k hb
  rw [bind_apply] at hb
  cases hr : r ts i with
  | none => simp [hr] at hb
  | some x =>
    rw [hr] at hb
    exact h x.1 x.2 hr b k hb

theorem Post.orElse {Q : α → Nat → Prop} (h : r.Post ts i Q) (h' : s.Post ts i Q) :
    (r <|> s).Post ts i Q := by
  intro a j ha
  rw [orElse_apply] at ha
  cases hr : r ts i with
  | none =>
    rw [hr] at ha
    exact h' a j ha
  | some x =>
    rw [hr] at ha
    exact h a j (hr.trans ha)

theorem Post.imp {Q R : α → Nat → Prop} (h : r.Post ts i Q) (hQ : ∀ a j, Q a j → R a j) :
    r.Post ts i R :=
  fun a j ha => hQ a j (h a j ha)

/-- One step of a sequence. -/
theorem Gives.bind (h : r.Gives ts P) (hf : ∀ a j, P i j a → (f a).Post ts j Q) :
    (r >>= f).Post ts i Q :=
  .bind ((h i).imp hf)

theorem Gives.map (h : r.Gives ts P) {g : α → β} {R : Nat → Nat → β → Prop}
    (hg : ∀ i j a, P i j a → R i j (g a)) : (g <$> r).Gives ts R :=
  fun i => h.bind fun a j ha => .pure (hg i j a ha)

theorem Gives.orElse (h : r.Gives ts P) (h' : s.Gives ts P) : (r <|> s).Gives ts P :=
  fun i => (h i).orElse (h' i)

theorem Gives.imp (h : r.Gives ts P) {R : Nat → Nat → α → Prop} (hP : ∀ i j a, P i j a → R i j a) :
    r.Gives ts R :=
  fun i => (h i).imp fun a j => hP i j a

theorem Gives.and (h : r.Gives ts P) {R : Nat → Nat → α → Prop} (h' : r.Gives ts R) :
    r.Gives ts fun i j a => P i j a ∧ R i j a :=
  fun i a j ha => ⟨h i a j ha, h' i a j ha⟩

theorem Gives.perhaps (h : r.Gives ts P) :
    (optional r).Gives ts fun i j o => (o = none ∧ i = j) ∨ ∃ a, o = some a ∧ P i j a := by
  intro i
  refine .orElse (h.bind fun a j ha => .pure ?_) (.pure ?_)
  · exact .inr ⟨a, rfl, ha⟩
  · exact .inl ⟨rfl, rfl⟩

def Still (r : Rule α) : Prop :=
  ∀ ts i a j, r ts i = some (a, j) → j = i

theorem Still.bind (h : Still r) (hf : ∀ a, (f a).Post ts i Q) : (r >>= f).Post ts i Q :=
  .bind fun a j ha => h ts i a j ha ▸ hf a

theorem still_ahead (n : Nat) : Still (ahead n) := by
  rintro ts i a j ⟨⟩
  rfl

theorem still_ended : Still ended := by
  rintro ts i a j ⟨⟩
  rfl

theorem still_sees (n : Nat) (p : Token → Bool) : Still (sees n p) := by
  rintro ts i a j ⟨⟩
  rfl

theorem still_seesSymbol (n : Nat) (s : String) : Still (seesSymbol n s) :=
  still_sees n _

theorem still_seesKeyword (n : Nat) (s : String) : Still (seesKeyword n s) :=
  still_sees n _

theorem still_require (b : Bool) : Still (require b) := by
  intro ts i a j h
  cases b with
  | true =>
    cases h
    rfl
  | false => cases h

inductive Chain (P : Nat → Nat → α → Prop) : Nat → Nat → List α → Prop
  | nil (i : Nat) : Chain P i i []
  | cons {i j k : Nat} {a : α} {l : List α} : P i j a → Chain P j k l → Chain P i k (a :: l)

theorem Chain.append {i j k : Nat} {l m : List α} (h : Chain P i j l) (h' : Chain P j k m) :
    Chain P i k (l ++ m) := by
  induction h with
  | nil => exact h'
  | cons ha _ ih => exact .cons ha (ih h')

theorem iterate_post {I : α → Nat → Prop} {step : α → Rule α}
    (h : ∀ a i, I a i → (step a).Post ts i I) (a : α) (i : Nat) (hi : I a i) :
    (iterate step a).Post ts i I := by
  intro b k hb
  fun_induction iterate step a ts i with
  | case1 a i c j hs hlt ih => exact ih (h a i hi c j hs) hb
  | case2 a i c j hs hlt =>
    cases hb
    exact hi
  | case3 a i hs =>
    cases hb
    exact hi

theorem Gives.many (h : r.Gives ts P) : (many r).Gives ts (Chain P) := by
  intro i
  have hstep : ∀ (acc : List α) j, Chain P i j acc.reverse →
      Post ts ((· :: acc) <$> r) j fun acc j => Chain P i j acc.reverse := by
    intro acc j hc
    refine h.bind fun a k ha => .pure ?_
    simpa using hc.append (.cons ha (.nil k))
  exact .bind ((iterate_post hstep [] i (.nil i)).imp fun acc j hc => .pure hc)

end Rule

structure Takes (C : Ground) (ts : Array Token) (i j : Nat) (t : Token) : Prop where
  sound : t.Sound C
  start : stopBefore ts i ≤ t.span.start
  stop : t.span.stop = stopBefore ts j

def Reads (C : Ground) (ts : Array Token) (K : Kind → Bool) (i j : Nat) (t : Tree) : Prop :=
  Piece C K (stopBefore ts i) (stopBefore ts j) t

def ReadsRow (C : Ground) (ts : Array Token) (k : Kind) (i j : Nat) (cs : List Tree) : Prop :=
  Row C k (stopBefore ts i) (stopBefore ts j) cs

variable {C : Ground} {ts : Array Token} {k : Kind} {K : Kind → Bool} {i j : Nat} {cs : List Tree}

/-- The token as a leaf, which is an identifier only if the token is a name, and a sign only if the
token is that sign. -/
theorem Takes.as {t : Token} (h : Takes C ts i j t) (hk : K k = true)
    (ho : k.order? = none) (hname : k.isIdentifier → t.cls = .name)
    (hsign : ∀ text, k = .token text → text = t.text) :
    Reads C ts K i j (t.as k) := by
  have hspells : C.Spells k t.span :=
    ⟨fun hi => h.sound.word (hname hi), fun text he => hsign text he ▸ h.sound.sign⟩
  exact ⟨Tree.laid_mark ho h.sound.filled h.sound.free hspells, h.start, h.stop.le, rfl, hk⟩

theorem Takes.asOther {t : Token} (h : Takes C ts i j t) (hk : K k = true)
    (hname : k.isIdentifier → t.cls = .name) (hother : k.isLeaf = true) :
    Reads C ts K i j (t.as k) :=
  h.as hk (Kind.order?_of_isLeaf hother) hname fun text he => by cases he; cases hother

theorem Takes.leaf {t : Token} (h : Takes C ts i j t) (hk : K (.token t.text) = true) :
    Reads C ts K i j t.leaf :=
  h.as hk rfl (fun hi => by cases hi) fun text he => (Kind.token.inj he).symm

theorem ReadsRow.nil (i : Nat) : ReadsRow C ts k i i [] :=
  Nat.le_refl _

theorem ReadsRow.flatten {ls : List (List Tree)} (h : Rule.Chain (ReadsRow C ts k) i j ls) :
    ReadsRow C ts k i j ls.flatten := by
  induction h with
  | nil i => exact .nil i
  | cons ha _ ih => exact Row.append ha ih

theorem ReadsRow.ofChain {P : Nat → Nat → Tree → Prop}
    (hP : ∀ i j t, P i j t → ReadsRow C ts k i j [t]) (h : Rule.Chain P i j cs) :
    ReadsRow C ts k i j cs := by
  induction h with
  | nil i => exact .nil i
  | cons ha _ ih => exact Row.append (hP _ _ _ ha) ih

theorem ReadsRow.flatten_map {f : Field} {ls : List (List Tree)}
    (h : Rule.Chain (fun i j cs => ReadsRow C ts k i j (cs.map (·.withField f))) i j ls) :
    ReadsRow C ts k i j (ls.flatten.map (·.withField f)) := by
  induction h with
  | nil i => exact .nil i
  | cons ha _ ih =>
    rw [List.flatten_cons, List.map_append]
    exact Row.append ha ih

/-- A child that may be missing, as the table of parts has it. -/
theorem Rule.Gives.perhapsPart {r : Rule Tree} {f : Field} (h : r.Gives ts (Reads C ts K))
    (k : Kind) (n : Nat) (hp : k.parts[n]? = some (some f, K)) :
    (optional r).Gives ts fun i j o => ReadsRow C ts k i j (o.map (·.withField f)).toList := by
  refine h.perhaps.imp ?_
  rintro i j o (⟨rfl, rfl⟩ | ⟨t, rfl, ht⟩)
  · exact .nil i
  · exact ht.part n hp (ReadsRow.nil j)

/-- Children that may be missing. -/
theorem Rule.Gives.perhapsRow {r : Rule (List Tree)} (h : r.Gives ts (ReadsRow C ts k)) :
    (optional r).Gives ts fun i j o => ReadsRow C ts k i j (o.getD []) := by
  refine h.perhaps.imp ?_
  rintro i j o (⟨rfl, rfl⟩ | ⟨cs, rfl, hcs⟩)
  · exact .nil i
  · exact hcs

theorem Rule.Gives.perhapsSign {r : Rule Tree} (h : r.Gives ts (Reads C ts Kind.isToken))
    (k : Kind) :
    (optional r).Gives ts fun i j o => ReadsRow C ts k i j o.toList := by
  refine h.perhaps.imp ?_
  rintro i j o (⟨rfl, rfl⟩ | ⟨t, rfl, ht⟩)
  · exact .nil i
  · exact ht.sign (ReadsRow.nil j)

namespace Lexed

open Rule

variable (h : Lexed C ts)
include h

theorem next : next.Gives ts (Takes C ts) := by
  intro i t j ht
  cases hi : ts[i]? with
  | none => simp [Rule.next, hi] at ht
  | some u =>
    simp only [Rule.next, hi, Option.map_some, Option.some.injEq, Prod.mk.injEq] at ht
    obtain ⟨rfl, rfl⟩ := ht
    exact ⟨h.sound i u hi, h.ordered i u hi, by simp [stopBefore, hi]⟩

theorem satisfy (p : Token → Bool) :
    (satisfy p).Gives ts fun i j t => Takes C ts i j t ∧ p t := by
  intro i
  refine h.next.bind fun t j ht => ?_
  split
  · next hp => exact .pure ⟨ht, hp⟩
  · exact .failure

theorem symbol (s : String) : (symbol s).Gives ts (Reads C ts Kind.isToken) :=
  (h.satisfy _).map fun _ _ _ ht => ht.1.leaf rfl

theorem symbolText (s : String) :
    (Rule.symbol s).Gives ts (Reads C ts (Kind.among [.token s])) := by
  refine (h.satisfy _).map ?_
  rintro i j t ⟨ht, hs⟩
  have htext : t.text = s := by simpa using (Bool.and_eq_true_iff.mp hs).2
  exact ht.leaf (by simp [Kind.among, htext])

theorem symbolAs (s : String) (k : Kind) (hk : k.isIdentifier = false)
    (hk' : k.isLeaf = true) :
    ((·.withKind k) <$> Rule.symbol s).Gives ts (Reads C ts (Kind.among [k])) := by
  intro i
  refine .bind ((h.satisfy _).bind fun t j ht => .pure (.pure ?_))
  exact ht.1.asOther (by simp [Kind.among]) (fun hi => by simp [hk] at hi) hk'

theorem keyword (s : String) : (keyword s).Gives ts (Reads C ts Kind.isToken) :=
  (h.satisfy _).map fun _ _ _ ht => ht.1.leaf rfl

theorem terminator : terminator.Gives ts (Reads C ts Kind.isToken) :=
  (h.satisfy _).map fun _ _ _ ht => ht.1.leaf rfl

theorem name (k : Kind) (hk : k.isLeaf = true) :
    (name k).Gives ts (Reads C ts (Kind.among [k])) :=
  (h.satisfy _).map fun _ _ _ ht =>
    ht.1.asOther (by simp [Kind.among]) (fun _ => by simpa using ht.2) hk

/-- The first of several results with commas between, and the others as children of a node. -/
theorem commaListFrom {r : Rule Tree} {P : Nat → Nat → Tree → Prop} (hr : r.Gives ts P)
    (hP : ∀ i j t, P i j t → ReadsRow C ts k i j [t]) : (commaList r).Gives ts fun i j cs =>
      ∃ first more l, cs = first :: more ∧ P i l first ∧ ReadsRow C ts k l j more := by
  intro i
  refine hr.bind fun first j hfirst => ?_
  have hmore : Gives ts (do let comma ← Rule.symbol ","; let t ← r; pure [comma, t])
      (ReadsRow C ts k) := by
    intro i
    refine (h.symbol ",").bind fun comma j hcomma => ?_
    exact hr.bind fun t l ht => .pure (hcomma.sign (hP j l t ht))
  refine hmore.many.bind fun more l hmore => .pure ?_
  exact ⟨first, more.flatten, j, rfl, hfirst, ReadsRow.flatten hmore⟩

/-- Results with commas between, as children of a node. -/
theorem commaList {r : Rule Tree} (hr : r.Gives ts fun i j t => ReadsRow C ts k i j [t]) :
    (commaList r).Gives ts fun i j cs => cs ≠ [] ∧ ReadsRow C ts k i j cs := by
  refine (h.commaListFrom hr fun _ _ _ ht => ht).imp ?_
  rintro i j cs ⟨first, more, l, rfl, hfirst, hmore⟩
  exact ⟨by simp, Row.append hfirst hmore⟩

/-- Results with commas between, where the commas are given the same part as the results. -/
theorem commaListIn {r : Rule Tree} {f : Field} (hr : r.Gives ts (Reads C ts K))
    (hK : ∀ c, K c = true → k.admits (some f) c)
    (hsign : k.admits (some f) (.token ",")) : (Rule.commaList r).Gives ts fun i j cs =>
      cs ≠ [] ∧ ReadsRow C ts k i j (cs.map (·.withField f)) := by
  intro i
  refine hr.bind fun first j hfirst => ?_
  have hmore : Gives ts (do let comma ← Rule.symbol ","; let t ← r; pure [comma, t])
      fun i j cs => ReadsRow C ts k i j (cs.map (·.withField f)) := by
    intro i
    refine (h.symbolText ",").bind fun comma j hcomma => ?_
    have hcommas : ∀ c, Kind.among [.token ","] c = true → k.admits (some f) c := by
      intro c hc
      obtain rfl : c = .token "," := by simpa [Kind.among] using hc
      exact hsign
    exact hr.bind fun t l ht => .pure (hcomma.admitted hcommas (ht.admitted hK (ReadsRow.nil l)))
  refine hmore.many.bind fun more l hmore => .pure ⟨by simp, ?_⟩
  exact hfirst.admitted hK (ReadsRow.flatten_map hmore)

/-- Identifiers with commas between are identifiers and commas by turns. -/
theorem commaListAlternates {r : Rule Tree}
    (hr : r.Gives ts (Reads C ts (Kind.among [.identifier]))) :
    (Rule.commaList r).Gives ts fun _ _ cs => Alternating (cs.map (·.kind)) := by
  intro i
  refine hr.bind fun first j hfirst => ?_
  have hmore : Gives ts (do let comma ← Rule.symbol ","; let t ← r; pure [comma, t])
      fun _ _ cs => cs.map (·.kind) = [.token ",", .identifier] := by
    intro i
    refine (h.symbolText ",").bind fun comma j hcomma => ?_
    exact hr.bind fun t l ht => .pure (by simp [hcomma.kind_eq, ht.kind_eq])
  refine hmore.many.bind fun more l hmore => .pure ?_
  have hturns : Alternating (.identifier :: more.flatten.map (·.kind)) := by
    clear hfirst
    induction hmore with
    | nil => rfl
    | cons hpair _ ih =>
      rw [List.flatten_cons, List.map_append, hpair]
      exact ⟨rfl, rfl, ih⟩
  simpa only [List.map_cons, hfirst.kind_eq] using hturns

theorem lineBreaks : lineBreaks.Gives ts fun i j _ => stopBefore ts i ≤ stopBefore ts j := by
  intro i
  refine (h.satisfy _).many.bind fun breaks j hbreaks => .pure ?_
  induction hbreaks with
  | nil => exact Nat.le_refl _
  | cons ht _ ih =>
    have hread := ht.1.start.trans (ht.1.sound.filled.le.trans ht.1.stop.le)
    exact hread.trans ih

theorem trailingComma : trailingComma.Gives ts (ReadsRow C ts k) :=
  fun _ => ((h.symbol ",").perhapsSign k).bind fun _ _ ho => .pure ho

theorem terminated {r : Rule Tree} (hr : r.Gives ts fun i j t => ReadsRow C ts k i j [t]) :
    (terminated r).Gives ts (ReadsRow C ts k) := by
  intro i
  refine hr.perhaps.bind fun o j ho => ?_
  obtain ⟨rfl, rfl⟩ | ⟨first, rfl, hfirst⟩ := ho
  · exact .pure (.nil i)
  have hmore : Gives ts (do let t ← Rule.terminator; let item ← r; pure [t, item])
      (ReadsRow C ts k) := by
    intro i
    refine h.terminator.bind fun t j ht => ?_
    exact hr.bind fun item l hitem => .pure (ht.sign hitem)
  refine hmore.many.bind fun more l hmore => ?_
  refine (h.terminator.perhapsSign k).bind fun last m hlast => .pure ?_
  exact Row.append (Row.append hfirst (ReadsRow.flatten hmore)) hlast

theorem eachTerminated {r : Rule Tree} (hr : r.Gives ts fun i j t => ReadsRow C ts k i j [t]) :
    (eachTerminated r).Gives ts (ReadsRow C ts k) := by
  intro i
  have hmore : Gives ts (do let item ← r; let t ← Rule.terminator; pure [item, t])
      (ReadsRow C ts k) := by
    intro i
    refine hr.bind fun item j hitem => ?_
    exact h.terminator.bind fun t l ht => .pure (Row.append hitem (ht.sign (ReadsRow.nil l)))
  exact hmore.many.bind fun items j hitems => .pure (ReadsRow.flatten hitems)

theorem between {r : Rule (List Tree)} (o c : String) (hr : r.Gives ts (ReadsRow C ts k)) :
    (between o c r).Gives ts fun i j cs => cs ≠ [] ∧ ReadsRow C ts k i j cs := by
  intro i
  refine (h.symbol o).bind fun opening j ho => ?_
  refine hr.bind fun items l hitems => ?_
  refine (h.symbol c).bind fun closing m hc => .pure ⟨by simp, ?_⟩
  exact ho.sign (Row.append hitems (hc.sign (ReadsRow.nil m)))

end Lexed

end GoAtlas.Syntax
