import GoAtlas.Finding.Wrapping
import GoAtlas.Syntax.Parse
import Mathlib.Data.List.Infix

namespace GoAtlas

namespace Text

variable {part l : List Char} {c : Char} {p : Char → Bool}

theorem isSome_cutAt? (hne : part ≠ []) : (cutAt? part l).isSome = true ↔ part <:+: l := by
  induction l with
  | nil => simp [cutAt?, hne]
  | cons c l ih =>
    rw [List.infix_cons_iff, cutAt?]
    split
    · next hp => simp [List.isPrefixOf_iff_prefix.mp hp]
    · next hp =>
      rw [Option.isSome_map, ih]
      have hp : ¬ part <+: c :: l := fun h => hp (List.isPrefixOf_iff_prefix.mpr h)
      simp [hp]

theorem eq_of_cutAt? {before after : List Char} (h : cutAt? part l = some (before, after)) :
    l = before ++ (part ++ after) := by
  induction l generalizing before with
  | nil =>
    rw [cutAt?] at h
    split at h
    · next hp =>
      obtain ⟨rfl, rfl⟩ := Prod.mk.inj (Option.some.inj h)
      simpa using hp
    · cases h
  | cons c l ih =>
    rw [cutAt?] at h
    split at h
    · next hp =>
      obtain ⟨rest, hrest⟩ := List.isPrefixOf_iff_prefix.mp hp
      obtain ⟨rfl, rfl⟩ := Prod.mk.inj (Option.some.inj h)
      rw [← hrest, List.drop_left, List.nil_append]
    · obtain ⟨⟨b, a⟩, hcut, h⟩ := Option.map_eq_some_iff.mp h
      obtain ⟨rfl, rfl⟩ := Prod.mk.inj h
      rw [ih hcut, List.cons_append]

theorem infix_between (hc : c ∉ part) (hne : part ≠ []) :
    part <:+: c :: l ++ [c] ↔ part <:+: l := by
  constructor
  · intro h
    rw [List.infix_concat_iff] at h
    rcases h with h | h
    · obtain ⟨before, h⟩ := h
      have hlast := congrArg List.getLast? h
      rw [List.getLast?_append, List.getLast?_concat] at hlast
      cases hp : part.getLast? with
      | none => exact (hne (List.getLast?_eq_none_iff.mp hp)).elim
      | some d =>
        rw [hp, Option.some_or] at hlast
        exact (hc (Option.some.inj hlast ▸ List.mem_of_getLast? hp)).elim
    · rcases List.infix_cons_iff.mp h with h | h
      · obtain ⟨d, rest, rfl⟩ := List.exists_cons_of_ne_nil hne
        exact (hc ((List.cons_prefix_cons.mp h).1 ▸ List.mem_cons_self)).elim
      · exact h
  · intro h
    exact (h.trans (List.suffix_cons c l).isInfix).trans (List.prefix_append _ _).isInfix

theorem trimBoth_between (hc : p c = true) : trimBoth p (c :: l ++ [c]) = trimBoth p l := by
  have hl : (c :: l ++ [c]).dropWhile p = (l ++ [c]).dropWhile p := by
    rw [List.cons_append, List.dropWhile_cons_of_pos hc]
  rw [trimBoth, trimBoth, hl, List.dropWhile_append]
  split
  · next h => simp [List.isEmpty_iff.mp h, hc]
  · rw [List.reverse_append, List.reverse_singleton, List.singleton_append,
      List.dropWhile_cons_of_pos hc]

theorem head_of_dropRight (hc : p c = false) :
    ∃ r, ((c :: l).reverse.dropWhile p).reverse = c :: r := by
  rw [List.reverse_cons, List.dropWhile_append]
  split
  · exact ⟨[], by simp [hc]⟩
  · exact ⟨((l.reverse.dropWhile p).reverse), by simp⟩

theorem head_of_trimBoth (hc : p c = false) : ∃ r, trimBoth p (c :: l) = c :: r := by
  rw [trimBoth, List.dropWhile_cons_of_neg (by simp [hc])]
  exact head_of_dropRight hc

end Text

namespace Finding

open Syntax

/-- The ways to write a text as a literal. -/
inductive Quote where
  | double
  | raw
  deriving DecidableEq, Repr

namespace Quote

def mark : Quote → Char
  | .double => '"'
  | .raw => '\x60'

def kind : Quote → Kind
  | .double => .interpretedStringLiteral
  | .raw => .rawStringLiteral

/-- The literal of a text. -/
def literal (q : Quote) (t : String) : String :=
  String.ofList (q.mark :: t.toList ++ [q.mark])

variable (q : Quote) (t : String)

theorem toList_literal : (q.literal t).toList = q.mark :: t.toList ++ [q.mark] :=
  String.toList_ofList

theorem occursIn_literal {verb : String} (hne : verb.toList ≠ []) (hmark : q.mark ∉ verb.toList) :
    Text.occursIn verb (q.literal t) = Text.occursIn verb t := by
  rw [Bool.eq_iff_iff, Text.occursIn, Text.occursIn, Text.cut?, Text.cut?, Option.isSome_map,
    Option.isSome_map, toList_literal, Text.isSome_cutAt? hne, Text.isSome_cutAt? hne,
    Text.infix_between hmark hne]

theorem formatMessage_double : formatMessage (double.literal t) = formatMessage t := by
  rw [formatMessage, formatMessage, Text.stripWith, Text.stripWith, toList_literal,
    Text.trimBoth_between (by rfl)]

end Quote

theorem toList_lower_cons {r : List Char} :
    (Text.lower (String.ofList ('\x60' :: r))).toList = '\x60' :: Text.lowerFrom ['\x60'] r := by
  rw [Text.lower, String.toList_ofList, String.toList_ofList, Text.lowerFrom]
  rfl

theorem not_isGenericMessage_cons (r : List Char) :
    isGenericMessage (String.ofList ('\x60' :: r)) = false := by
  have hhead : ∀ m ∈ genericMessages, m.toList.head? ≠ some '\x60' := by decide
  rw [isGenericMessage, Bool.eq_false_iff]
  intro h
  apply hhead _ (List.contains_iff_mem.mp h)
  rw [toList_lower_cons, List.head?_cons]

theorem formatMessage_raw (t : String) :
    ∃ r, formatMessage (Quote.raw.literal t) = String.ofList ('\x60' :: r) := by
  obtain ⟨bare, hbare⟩ : ∃ r, Text.stripWith (· == '"') (Quote.raw.literal t) =
      String.ofList ('\x60' :: r) := by
    obtain ⟨r, hr⟩ := Text.head_of_trimBoth (p := (· == '"')) (l := t.toList ++ ['\x60'])
      (c := '\x60') rfl
    refine ⟨r, ?_⟩
    rw [Text.stripWith, Quote.toList_literal]
    exact congrArg String.ofList hr
  have hstripped : ∀ r, ∃ r', Text.stripRightWith (fun c => c == ':' || c == ' ')
      (Text.strip (String.ofList ('\x60' :: r))) = String.ofList ('\x60' :: r') := by
    intro r
    obtain ⟨s, hs⟩ := Text.head_of_trimBoth (p := Text.isBlank) (l := r) (c := '\x60') (by decide)
    obtain ⟨s', hs'⟩ := Text.head_of_dropRight (p := fun c => c == ':' || c == ' ') (l := s)
      (c := '\x60') (by decide)
    refine ⟨s', ?_⟩
    rw [Text.strip, Text.stripWith, String.toList_ofList, hs, Text.stripRightWith,
      String.toList_ofList, hs']
  rw [formatMessage, hbare]
  cases hcut : Text.cut? "%w" (String.ofList ('\x60' :: bare)) with
  | none => exact hstripped bare
  | some cut =>
    rw [Text.cut?] at hcut
    obtain ⟨⟨before, after⟩, hat, rfl⟩ := Option.map_eq_some_iff.mp hcut
    have hparts := String.toList_ofList.symm.trans (Text.eq_of_cutAt? hat)
    cases before with
    | nil => cases hparts
    | cons c before =>
      obtain rfl : '\x60' = c := (List.cons.inj hparts).1
      dsimp only
      rw [← String.ofList_append, List.cons_append]
      exact hstripped (before ++ after)

/-- The arguments of a call that formats an error, each with its kind and text. -/
def written? (source : ByteArray) (e : Tree) : Option (List (Kind × String)) :=
  if e.kind = .callExpression ∧
      (e.part? .function).bind (Tree.selection? source) = some ("fmt", "Errorf") then
    some ((Tree.dropComments (((e.part? .arguments).map Tree.named).getD [])).map fun a =>
      (a.kind, a.text source))
  else none

def endsInError (arguments : List (Kind × String)) : Bool :=
  (arguments.getLast?.map fun a => a.1 = .identifier && Name.isErrorVariable a.2).getD false

def textFault? (format : String) (arguments : List (Kind × String)) : Option WrappingFault :=
  if arguments = [] then none
  else if Text.occursIn "%v" format && !Text.occursIn "%w" format && endsInError arguments then
    some .printedCause
  else if Text.occursIn "%w" format && isGenericMessage (formatMessage format) then some .noContext
  else none

/-- What is reported of a returned expression under a setting. -/
def verdict? (setting : Severity) (source : ByteArray) (e : Tree) :
    Option (WrappingFault × Severity) :=
  ((returnFault? source e).map fun fault => (fault, fault.severity)).filter fun v => setting.keeps v.2

section

variable {source : ByteArray} {e : Tree} {q : Quote} {t : String} {arguments : List (Kind × String)}

theorem returnFault?_written (h : written? source e = some ((q.kind, q.literal t) :: arguments)) :
    returnFault? source e = textFault? (q.literal t) arguments := by
  rw [written?, Option.ite_none_right_eq_some, Option.some.injEq] at h
  obtain ⟨⟨hk, hcallee⟩, h⟩ := h
  obtain ⟨format, rest, hlist, hformat, hrest⟩ := List.map_eq_cons_iff.mp h
  obtain ⟨hkind, htext⟩ := Prod.mk.inj hformat
  have hstring : (format.kind = .interpretedStringLiteral || format.kind = .rawStringLiteral) = true := by
    rw [hkind]
    cases q <;> rfl
  have hidentifier : e.kind ≠ .identifier := by simp [hk]
  rw [returnFault?, if_neg hidentifier, formatArguments?, hk, hcallee, hlist]
  cases rest with
  | nil =>
    obtain rfl : arguments = [] := hrest.symm
    simp [textFault?]
  | cons first more =>
    have hne : arguments ≠ [] := by simp [← hrest]
    have hlast : ((first :: more).getLast?.map fun a =>
        a.kind = .identifier && Name.isErrorVariable (a.text source)).getD false =
        endsInError arguments := by
      rw [endsInError, ← hrest, List.getLast?_map, Option.map_map]
      rfl
    simp only [hstring, bne_self_eq_false, Bool.false_eq_true, ↓reduceIte, Option.bind_some]
    rw [formatFault?, textFault?, if_neg hne, hlast, htext]

theorem textFault?_double : textFault? (Quote.double.literal t) arguments = textFault? t arguments := by
  rw [textFault?, textFault?, Quote.formatMessage_double,
    Quote.occursIn_literal _ _ (by decide) (by decide),
    Quote.occursIn_literal _ _ (by decide) (by decide)]

theorem textFault?_raw : textFault? (Quote.raw.literal t) arguments =
    (textFault? t arguments).filter (· ≠ .noContext) := by
  have hgeneric : isGenericMessage (formatMessage (Quote.raw.literal t)) = false := by
    obtain ⟨r, hr⟩ := formatMessage_raw t
    rw [hr, not_isGenericMessage_cons]
  rw [textFault?, textFault?, hgeneric, Quote.occursIn_literal _ _ (by decide) (by decide),
    Quote.occursIn_literal _ _ (by decide) (by decide), Bool.and_false, if_neg Bool.false_ne_true]
  split
  · rfl
  · split
    · rfl
    · split <;> rfl

theorem verdict?_written (setting : Severity)
    (h : written? source e = some ((q.kind, q.literal t) :: arguments)) :
    verdict? setting source e = ((textFault? (q.literal t) arguments).map fun fault =>
      (fault, fault.severity)).filter fun v => setting.keeps v.2 := by
  rw [verdict?, returnFault?_written h]

theorem textFault?_eq_noContext : textFault? t arguments = some .noContext ↔
    arguments ≠ [] ∧ Text.occursIn "%w" t = true ∧ isGenericMessage (formatMessage t) = true := by
  rw [textFault?]
  by_cases hnil : arguments = []
  · simp [hnil]
  · by_cases hwraps : Text.occursIn "%w" t = true
    · simp [hnil, hwraps]
    · simp [hnil, hwraps]

end

namespace Wrapping

theorem verdicts_inStatement (setting : Severity) (f : SourceFile) (name : String) (s : Tree) :
    ((inStatement f name s).filter fun w => setting.keeps w.fault.severity).map
      (fun w => (w.fault, w.fault.severity)) = (returned s).filterMap (verdict? setting f.content) := by
  have hverdict : verdict? setting f.content = fun e =>
      ((returnFault? f.content e).filter fun fault => setting.keeps fault.severity).map
        fun fault => (fault, fault.severity) := by
    funext e
    rw [verdict?, Option.filter_map]
    rfl
  rw [hverdict, ← List.map_filterMap, ← List.filter_filterMap, inStatement, List.filter_map,
    List.map_map]
  rfl

theorem verdicts_inFile (setting : Severity) (f : SourceFile) :
    (inFile setting f).map (fun w => (w.fault, w.fault.severity)) =
      ((bodies f).filter fun b => returnsError f.content b.2.1).flatMap fun b =>
        (b.2.2.walk.filter (·.kind = .returnStatement)).flatMap fun s =>
          (returned s).filterMap (verdict? setting f.content) := by
  simp only [inFile, List.map_flatMap, List.filter_flatMap, verdicts_inStatement]

/-- The verdict on a call whose format is the raw literal of a text is that on a call with the
interpreted one, except that a lack of context is not seen. The two agree unless the text wraps an error
under a message that says nothing, and the setting keeps warnings. -/
theorem verdicts_quoting (setting : Severity) :
    (∀ f, (inFile setting f).map (fun w => (w.fault, w.fault.severity)) =
      ((bodies f).filter fun b => returnsError f.content b.2.1).flatMap fun b =>
        (b.2.2.walk.filter (·.kind = .returnStatement)).flatMap fun s =>
          (returned s).filterMap (verdict? setting f.content)) ∧
    ∀ (t : String) (arguments : List (Kind × String)) (source source' : ByteArray) (e e' : Tree),
      written? source e = some ((Quote.double.kind, Quote.double.literal t) :: arguments) →
      written? source' e' = some ((Quote.raw.kind, Quote.raw.literal t) :: arguments) →
      verdict? setting source' e' = (verdict? setting source e).filter (·.1 ≠ .noContext) ∧
      (verdict? setting source' e' = verdict? setting source e ↔
        ¬ (arguments ≠ [] ∧ Text.occursIn "%w" t = true ∧ isGenericMessage (formatMessage t) = true ∧
          setting.keeps .warning = true)) := by
  refine ⟨verdicts_inFile setting, fun t arguments source source' e e' h h' => ?_⟩
  rw [verdict?_written setting h, verdict?_written setting h', textFault?_double, textFault?_raw]
  have hcontext : (arguments ≠ [] ∧ Text.occursIn "%w" t = true ∧
      isGenericMessage (formatMessage t) = true ∧ setting.keeps .warning = true) ↔
      textFault? t arguments = some .noContext ∧ setting.keeps .warning = true := by
    rw [textFault?_eq_noContext, and_assoc, and_assoc]
  rw [hcontext]
  generalize textFault? t arguments = fault
  cases fault with
  | none => simp
  | some fault => cases fault <;> cases setting <;> decide

def failing : ByteArray :=
  ("package p\nfunc f() error \x7b\nreturn fmt.Errorf(\"failed: %w\", err)\n\x7d\n"
    ++ "func g() error \x7b\nreturn fmt.Errorf(\x60failed: %w\x60, err)\n\x7d\n").toUTF8

/-- The call with the interpreted literal lacks context, that with the raw one does not. -/
theorem verdicts_quoting_failing : ∃ tree, parse? failing = some tree ∧
    ∃ e ∈ tree.walk, ∃ e' ∈ tree.walk, written? failing e =
        some [(Quote.double.kind, Quote.double.literal "failed: %w"), (.identifier, "err")] ∧
      written? failing e' =
        some [(Quote.raw.kind, Quote.raw.literal "failed: %w"), (.identifier, "err")] ∧
      verdict? .warning failing e = some (.noContext, .warning) ∧
      verdict? .warning failing e' = none := by
  obtain ⟨tree, htree, ⟨e, he, hdouble⟩, e', he', hraw⟩ : ∃ tree ∈ parse? failing,
      (∃ e ∈ tree.walk, written? failing e =
        some [(Quote.double.kind, Quote.double.literal "failed: %w"), (.identifier, "err")]) ∧
      ∃ e ∈ tree.walk, written? failing e =
        some [(Quote.raw.kind, Quote.raw.literal "failed: %w"), (.identifier, "err")] := by
    decide +kernel
  have hverdict : verdict? .warning failing e = some (.noContext, .warning) := by
    rw [verdict?_written .warning hdouble, textFault?_double]
    decide +kernel
  obtain ⟨hfilter, -⟩ := (verdicts_quoting .warning).2 _ _ _ _ _ _ hdouble hraw
  rw [hverdict] at hfilter
  exact ⟨tree, htree, e, he, e', he', hdouble, hraw, hverdict, hfilter⟩

end Wrapping

end Finding

end GoAtlas
