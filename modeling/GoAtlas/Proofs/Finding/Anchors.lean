import GoAtlas.Proofs.Check.Effects
import GoAtlas.Proofs.Finding.Grouping
import GoAtlas.Proofs.Source.Slots
import GoAtlas.Report.Records
import Mathlib.Data.List.Flatten

namespace GoAtlas

open Syntax

namespace Syntax.Tree

variable {t u v : Tree} {ts : List Tree}

theorem child_walk (h : u ∈ t.children) : u ∈ t.walk :=
  child_mem_walk h u.self_mem_walk

theorem part_walk {f : Field} (h : t.part? f = some u) : u ∈ t.walk :=
  child_walk (mem_of_part? h).1

mutual
theorem core_walk : (t : Tree) → ∀ {u : Tree}, t.core? = some u → u ∈ t.walk
  | .node k f s cs, u, h => by
    rw [core?] at h
    split at h
    · exact List.mem_cons_of_mem _ (coreOfFirst_walk cs h)
    · obtain rfl := Option.some.inj h
      exact self_mem_walk _

theorem coreOfFirst_walk : (ts : List Tree) → ∀ {u : Tree}, coreOfFirst? ts = some u →
    u ∈ walkAll ts
  | [], _, h => by cases h
  | t :: ts, _, h => by
    rw [coreOfFirst?] at h
    split at h
    · exact List.mem_append_left _ (core_walk t h)
    · exact List.mem_append_right _ (coreOfFirst_walk ts h)
end

theorem expressions_walk (h : u ∈ expressions t) : u ∈ t.walk := by
  unfold expressions at h
  split at h
  · exact child_walk (List.mem_filter.mp (List.mem_filter.mp h).1).1
  · rw [List.mem_singleton.mp h]
    exact t.self_mem_walk

theorem expressions?_walk {f : Field} (h : u ∈ expressions? (t.part? f)) : u ∈ t.walk := by
  cases hp : t.part? f with
  | none => simp [expressions?, hp] at h
  | some v =>
    have h : u ∈ v.expressions := by simpa [expressions?, hp] using h
    exact walk_trans t (part_walk hp) (expressions_walk h)

end Syntax.Tree

namespace Finding

/-- Where a finding stands and what it is about. -/
structure Tag where
  file : String
  line : Int
  column : Int
  subject : String
  deriving DecidableEq, Repr

namespace Tag

variable {f : SourceFile} {a b : Tag} {m n : Nat}

def Together (a b : Tag) : Prop :=
  a.file = b.file ∧ a.line = b.line ∧ a.column = b.column

/-- A finding at a byte of a file. -/
structure At (f : SourceFile) (n : Nat) (a : Tag) : Prop where
  file : a.file = f.path
  line : a.line = (f.place n).line
  column : a.column = (f.place n).column

instance (f : SourceFile) (n : Nat) (a : Tag) : Decidable (a.At f n) :=
  decidable_of_iff (a.file = f.path ∧ a.line = (f.place n).line ∧ a.column = (f.place n).column)
    ⟨fun ⟨hfile, hline, hcolumn⟩ => ⟨hfile, hline, hcolumn⟩, fun h => ⟨h.file, h.line, h.column⟩⟩

theorem At.eq (ha : a.At f m) (hb : b.At f n) (h : a.Together b) : m = n := by
  obtain ⟨-, hline, hcolumn⟩ := h
  rw [ha.line, hb.line] at hline
  rw [ha.column, hb.column] at hcolumn
  exact Int.ofNat.inj (Source.Slot.place_inj hline hcolumn)

end Tag

def Location.tag (l : Location) (subject : String) : Tag :=
  ⟨l.file, l.line, l.column, subject⟩

theorem Location.tag_at (f : SourceFile) (function subject : String) (n : Nat) :
    ((Location.of f function n).tag subject).At f n :=
  ⟨rfl, rfl, rfl⟩

def UnusedSymbol.tag (u : UnusedSymbol) : Tag :=
  ⟨u.symbol.file, u.symbol.line, u.symbol.column, u.symbol.qualifiedName⟩

def ComplexFunction.tag (c : ComplexFunction) : Tag :=
  ⟨c.function.file, c.function.line, c.function.column, c.function.name⟩

def Initializer.tag (i : Initializer) : Tag := i.location.tag i.expression

def Switchable.tag (s : Switchable) : Tag := s.location.tag s.subject

def Nesting.tag (n : Nesting) : Tag := n.location.tag n.location.function

def Wrapping.tag (w : Wrapping) : Tag := w.location.tag w.fault.text

def RootContext.tag (r : RootContext) : Tag := r.location.tag r.location.function

def Flag.tag (g : Flag) : Tag := g.location.tag g.name

section

variable {α β : Type} {f : SourceFile} {R : α → α → Prop}

theorem pairwise_toList (o : Option α) : o.toList.Pairwise R := by
  cases o with
  | none => exact .nil
  | some x => exact List.pairwise_singleton R x

/-- Findings in nodes that follow each other are related if findings at different places are, and
those in each node. -/
theorem pairwise_nodes (tag : α → Tag) (hR : ∀ {x y}, ¬ (tag x).Together (tag y) → R x y)
    {l : List β} {find : β → List α} (node : β → Tree)
    (hord : l.Pairwise fun b c => (node b).stop ≤ (node c).start)
    (hat : ∀ b ∈ l, ∀ x ∈ find b, ∃ n, (node b).Covers n ∧ (tag x).At f n)
    (hin : ∀ b ∈ l, (find b).Pairwise R) : (l.flatMap find).Pairwise R := by
  refine List.pairwise_flatMap.mpr ⟨hin, hord.imp_of_mem ?_⟩
  intro b c hb hc hle x hx y hy
  obtain ⟨m, hm, hx⟩ := hat b hb x hx
  obtain ⟨n, hn, hy⟩ := hat c hc y hy
  refine hR fun htogether => ?_
  have := hx.eq hy htogether
  have := hm.2
  have := hn.1
  omega

/-- Findings in files at different paths are related if findings at different places are, and those
in each file. -/
theorem pairwise_files (tag : α → Tag) (hR : ∀ {x y}, ¬ (tag x).Together (tag y) → R x y)
    {l : List β} {path : β → String} {find : β → List α} (hpaths : (l.map path).Nodup)
    (hfile : ∀ b ∈ l, ∀ x ∈ find b, (tag x).file = path b) (hin : ∀ b ∈ l, (find b).Pairwise R) :
    (l.flatMap find).Pairwise R := by
  refine List.pairwise_flatMap.mpr ⟨hin, (List.pairwise_map.mp hpaths).imp_of_mem ?_⟩
  intro b c hb hc hne x hx y hy
  refine hR fun htogether => hne ?_
  rw [← hfile b hb x hx, ← hfile c hc y hy]
  exact htogether.1

end

variable {f : SourceFile} {t u body : Tree} {name : String}

abbrev Lies (f : SourceFile) (t : Tree) : Prop :=
  t.Laid { word := Lexer.Spelled f.content, sign := Lexer.Called f.content }

namespace Lies

theorem walk (h : Lies f t) (hu : u ∈ t.walk) : Lies f u :=
  (Tree.walk_within t h u hu).2.2

theorem laid (h : Lies f t) : t.Laid {} :=
  Tree.Laid.within h ⟨fun _ => id, fun _ _ => trivial, fun _ _ _ => trivial⟩

theorem isWord (h : Lies f t) (hk : t.kind.isIdentifier) : Text.IsWord (f.text t) :=
  h.word hk

theorem covers_head (h : Lies f t) (hu : u ∈ t.walk) (hk : u.kind.isHeaded) : t.Covers u.start :=
  Tree.Laid.covers h hu ⟨Nat.le_refl _, (h.walk hu).signed.filled hk⟩

theorem covers_mark (h : Lies f t) (hu : u ∈ t.walk) (hk : u.kind.isMark) : t.Covers u.start :=
  Tree.Laid.covers h hu ⟨Nat.le_refl _, ((h.walk hu).mark hk).2.1⟩

end Lies

theorem isIdentifier_of_name {k c : Kind} (hk : k.isFunction) (h : k.admits (some .name) c) :
    c.isIdentifier := by
  cases k with
  | functionDeclaration =>
    rw [Kind.eq_of_admits h rfl]
    rfl
  | methodDeclaration =>
    rw [Kind.eq_of_admits h rfl]
    rfl
  | _ => cases hk

theorem mem_bodies {b : String × Tree × Tree} : b ∈ bodies f ↔
    b.2.1 ∈ f.functions ∧ b.2.1.part? .body = some b.2.2 ∧ b.1 = b.2.1.functionName f.content := by
  obtain ⟨name, t, body⟩ := b
  simp only [bodies, List.mem_filterMap, Option.map_eq_some_iff, Prod.mk.injEq]
  constructor
  · rintro ⟨t, ht, body, hbody, rfl, rfl, rfl⟩
    exact ⟨ht, hbody, rfl⟩
  · rintro ⟨ht, hbody, rfl⟩
    exact ⟨t, ht, body, hbody, rfl, rfl, rfl⟩

section

variable (hf : parse? f.content = some f.tree)
include hf

theorem lies_function (ht : t ∈ f.functions) : Lies f t :=
  ((parse?_spelled hf).row.mem (List.mem_filter.mp (List.mem_filter.mp ht).1).1).2.2.1

theorem functions_ordered : f.functions.Pairwise fun t u => t.stop ≤ u.start :=
  (parse?_parsed hf).row.ordered.sublist (List.filter_sublist.trans List.filter_sublist)

theorem bodies_ordered : (bodies f).Pairwise fun b c => b.2.1.stop ≤ c.2.1.start := by
  refine List.pairwise_filterMap.mpr ((functions_ordered hf).imp ?_)
  intro t u hle b hb c hc
  obtain ⟨_, -, rfl⟩ := Option.map_eq_some_iff.mp hb
  obtain ⟨_, -, rfl⟩ := Option.map_eq_some_iff.mp hc
  exact hle

theorem name_of_function (ht : t ∈ f.functions) (hu : t.part? .name = some u) :
    u.kind.isIdentifier := by
  obtain ⟨-, hadmits⟩ := Tree.Laid.part? (lies_function hf ht) hu
  exact isIdentifier_of_name (List.mem_filter.mp ht).2 hadmits

theorem isWord_functionName (ht : t ∈ f.functions) : Text.IsWord (t.functionName f.content) := by
  unfold Tree.functionName
  cases hu : t.part? .name with
  | none => simp [Tree.text?, Text.IsWord]
  | some u => exact ((lies_function hf ht).walk (Tree.part_walk hu)).isWord (name_of_function hf ht hu)

theorem isWord_name {b : String × Tree × Tree} (hb : b ∈ bodies f) : Text.IsWord b.1 := by
  obtain ⟨ht, -, hname⟩ := mem_bodies.mp hb
  rw [hname]
  exact isWord_functionName hf ht

theorem lies_body {b : String × Tree × Tree} (hb : b ∈ bodies f) : Lies f b.2.2 :=
  (lies_function hf (mem_bodies.mp hb).1).walk (Tree.part_walk (mem_bodies.mp hb).2.1)

theorem covers_of_body {b : String × Tree × Tree} (hb : b ∈ bodies f) (hu : u ∈ b.2.2.walk)
    (hk : u.kind.isHeaded) : b.2.1.Covers u.start :=
  (lies_function hf (mem_bodies.mp hb).1).covers_head
    (Tree.walk_trans _ (Tree.part_walk (mem_bodies.mp hb).2.1) hu) hk

end

/-- Findings at the nodes of one kind in the bodies of a file, each node starting with its keyword, are
related if findings at different places are, and those at each node. -/
theorem pairwise_bodies {α : Type} (tag : α → Tag) {R : α → α → Prop}
    (hf : parse? f.content = some f.tree) (hR : ∀ {x y}, ¬ (tag x).Together (tag y) → R x y)
    {K : Kind} (hK : K.isHeaded) (find : String → Tree → List α)
    (hat : ∀ name u, ∀ x ∈ find name u, (tag x).At f u.start)
    (hin : ∀ name u, (find name u).Pairwise R) :
    ((bodies f).flatMap fun b => (b.2.2.walk.filter (·.kind = K)).flatMap (find b.1)).Pairwise R := by
  have hhead : ∀ {t u : Tree}, u ∈ t.walk.filter (·.kind = K) → u.kind.isHeaded := by
    intro t u hu
    rw [of_decide_eq_true (List.mem_filter.mp hu).2]
    exact hK
  refine pairwise_nodes (f := f) tag hR (·.2.1) (bodies_ordered hf) (fun b hb x hx => ?_)
    fun b hb => ?_
  · obtain ⟨u, hu, hx⟩ := List.mem_flatMap.mp hx
    exact ⟨u.start, covers_of_body hf hb (List.mem_filter.mp hu).1 (hhead hu), hat b.1 u x hx⟩
  · have hstarts := Tree.Laid.heads_lt (lies_body hf hb) List.filter_sublist fun u => hhead
    refine List.pairwise_flatMap.mpr ⟨fun u _ => hin b.1 u, hstarts.imp ?_⟩
    intro u v hlt x hx y hy
    exact hR fun htogether => hlt.ne ((hat b.1 u x hx).eq (hat b.1 v y hy) htogether)

theorem Initializer.apart (hf : parse? f.content = some f.tree) :
    (inFile f).Pairwise fun i j => ¬ i.tag.Together j.tag := by
  have hall := pairwise_bodies tag hf id (K := .ifStatement) rfl (fun name u => (of? f name u).toList)
    (by
      intro name u i hi
      obtain ⟨_, -, rfl⟩ := Option.map_eq_some_iff.mp (Option.mem_toList.mp hi)
      exact Location.tag_at f name _ u.start)
    fun name u => pairwise_toList _
  simpa only [inFile, List.filterMap_eq_flatMap_toList] using hall

namespace Nesting

theorem of?_cases {l : Limits} {n : Nesting} (h : of? l f name t = some n) :
    t.kind = .ifStatement ∧ n.location = Location.of f name t.start := by
  unfold of? at h
  dsimp only at h
  split at h
  · next hc =>
    cases h
    simp only [Bool.and_eq_true, decide_eq_true_eq] at hc
    exact ⟨hc.1.1.1, rfl⟩
  · cases h

mutual
/-- What is found in a node is some of what its conditions give. -/
theorem inTree_sublist (l : Limits) (f : SourceFile) (name : String) : (t : Tree) →
    (inTree l f name t).Sublist
      ((t.walk.filter (·.kind = .ifStatement)).flatMap fun u => (of? l f name u).toList)
  | .node k field s cs => by
    have hcs := inTrees_sublist l f name cs
    cases ho : of? l f name (.node k field s cs) with
    | some n =>
      have hk := (of?_cases ho).1
      rw [inTree, ho, Tree.walk, List.filter_cons, if_pos (decide_eq_true hk), List.flatMap_cons, ho]
      exact List.singleton_sublist.mpr (List.mem_append_left _ (List.mem_singleton_self n))
    | none =>
      have hskip : ((Syntax.Tree.node k field s cs).walk.filter (·.kind = .ifStatement)).flatMap
          (fun u => (of? l f name u).toList) =
          ((Tree.walkAll cs).filter (·.kind = .ifStatement)).flatMap
            fun u => (of? l f name u).toList := by
        rw [Tree.walk, List.filter_cons]
        split
        · rw [List.flatMap_cons, ho, Option.toList_none, List.nil_append]
        · rfl
      rw [inTree, ho, hskip]
      exact hcs

theorem inTrees_sublist (l : Limits) (f : SourceFile) (name : String) : (ts : List Tree) →
    (inTrees l f name ts).Sublist
      (((Tree.walkAll ts).filter (·.kind = .ifStatement)).flatMap fun u => (of? l f name u).toList)
  | [] => by simp [inTrees]
  | t :: ts => by
    rw [inTrees, Tree.walkAll, List.filter_append, List.flatMap_append]
    refine List.Sublist.append ?_ (inTrees_sublist l f name ts)
    split
    · exact inTree_sublist l f name t
    · exact List.nil_sublist _
end

theorem apart {l : Limits} (hf : parse? f.content = some f.tree) :
    (inFile l f).Pairwise fun m n => ¬ m.tag.Together n.tag := by
  have hall := pairwise_bodies tag hf id (K := .ifStatement) rfl
    (fun name u => (of? l f name u).toList)
    (by
      intro name u n hn
      rw [tag, (of?_cases (Option.mem_toList.mp hn)).2]
      exact Location.tag_at f name _ u.start)
    fun name u => pairwise_toList _
  exact hall.sublist (List.Sublist.flatMap_right _ fun b _ => inTree_sublist l f b.1 b.2.2)

theorem isWord_subject {l : Limits} (hf : parse? f.content = some f.tree) {n : Nesting}
    (hn : n ∈ inFile l f) : Text.IsWord n.tag.subject := by
  obtain ⟨b, hb, hn⟩ := List.mem_flatMap.mp hn
  obtain ⟨u, -, hn⟩ := List.mem_flatMap.mp ((inTree_sublist l f b.1 b.2.2).subset hn)
  rw [tag, (of?_cases (Option.mem_toList.mp hn)).2]
  exact isWord_name hf hb

end Nesting

/-- Findings at the same return statement with the same fault are the same. -/
theorem Wrapping.eq_of_together {setting : Severity} (hf : parse? f.content = some f.tree) :
    (inFile setting f).Pairwise fun v w => v.tag.Together w.tag → v.fault = w.fault → v = w := by
  have hall := pairwise_bodies tag (R := fun v w => v.tag.Together w.tag → v.fault = w.fault → v = w)
    hf (fun hne htogether => (hne htogether).elim) (K := .returnStatement) rfl (inStatement f)
    (by
      intro name u w hw
      obtain ⟨fault, -, rfl⟩ := List.mem_map.mp hw
      exact Location.tag_at f name _ u.start)
    fun name u => List.pairwise_map.mpr (List.pairwise_of_forall fun _ _ _ hfault =>
      congrArg (Wrapping.mk _ · _) hfault)
  refine hall.sublist ((List.filter_sublist.flatMap _).trans ?_)
  exact List.Sublist.flatMap_right _ fun b _ => List.filter_sublist

theorem RootContext.apart (hf : parse? f.content = some f.tree) :
    (inFile f).Pairwise fun r s => ¬ r.tag.Together s.tag := by
  rw [inFile, List.filterMap_eq_flatMap_toList]
  refine pairwise_nodes (f := f) tag id (·.2.1) (bodies_ordered hf) (fun b hb r hr => ?_)
    fun b _ => pairwise_toList _
  obtain ⟨name, t, body⟩ := b
  obtain ⟨ht, -, -⟩ := mem_bodies.mp hb
  have hk := Kind.isHeaded_of_isFunction (List.mem_filter.mp ht).2
  refine ⟨t.start, (lies_function hf ht).covers_head t.self_mem_walk hk, ?_⟩
  replace hr := Option.mem_toList.mp hr
  dsimp only at hr
  split at hr
  · cases hr
  · cases hr
    exact Location.tag_at f name _ t.start

theorem RootContext.isWord_subject (hf : parse? f.content = some f.tree) {r : RootContext}
    (hr : r ∈ inFile f) : Text.IsWord r.tag.subject := by
  obtain ⟨⟨name, t, body⟩, hb, hr⟩ := List.mem_filterMap.mp hr
  obtain ⟨ht, -, hname⟩ := mem_bodies.mp hb
  have hword := isWord_name hf hb
  dsimp only at hr
  split at hr
  · cases hr
  · cases hr
    exact hword

namespace ComplexFunction

/-- What is reported of a function. -/
def ofFunction? (least : Int) (package : String) (f : SourceFile) (t : Tree) :
    Option ComplexFunction := do
  let metrics ← Metrics.ofFunction? f.content t
  if (metrics.paths : Int) < least then none
  else pure ⟨← Symbol.ofFunction? f package t, metrics⟩

theorem inFile_eq (least : Int) (package : String) (f : SourceFile) :
    inFile least package f = f.functions.flatMap fun t => (ofFunction? least package f t).toList :=
  List.filterMap_eq_flatMap_toList ..

variable {least : Int} {package : String} {c : ComplexFunction}

theorem at_name (h : c ∈ (ofFunction? least package f t).toList) :
    ∃ u, t.part? .name = some u ∧ c.tag.At f u.start ∧ c.tag.subject = f.text u := by
  obtain ⟨metrics, -, h⟩ := Option.bind_eq_some_iff.mp (Option.mem_toList.mp h)
  split at h
  · cases h
  · obtain ⟨symbol, hsymbol, h⟩ := Option.bind_eq_some_iff.mp h
    cases h
    obtain ⟨u, hu, rfl⟩ := Option.map_eq_some_iff.mp hsymbol
    refine ⟨u, hu, ?_⟩
    dsimp only [tag]
    split <;> exact ⟨⟨rfl, rfl, rfl⟩, rfl⟩

theorem apart (hf : parse? f.content = some f.tree) :
    (inFile least package f).Pairwise fun b c => ¬ b.tag.Together c.tag := by
  rw [inFile_eq]
  refine pairwise_nodes (f := f) tag id id (functions_ordered hf) (fun t ht c hc => ?_)
    fun t _ => pairwise_toList _
  obtain ⟨u, hu, hat, -⟩ := at_name hc
  have hmark := Kind.isMark_of_isIdentifier (name_of_function hf ht hu)
  exact ⟨u.start, (lies_function hf ht).covers_mark (Tree.part_walk hu) hmark, hat⟩

theorem isWord_subject (hf : parse? f.content = some f.tree) (hc : c ∈ inFile least package f) :
    Text.IsWord c.tag.subject := by
  rw [inFile_eq] at hc
  obtain ⟨t, ht, hc⟩ := List.mem_flatMap.mp hc
  obtain ⟨u, hu, -, hsubject⟩ := at_name hc
  rw [hsubject]
  exact ((lies_function hf ht).walk (Tree.part_walk hu)).isWord (name_of_function hf ht hu)

end ComplexFunction

namespace Flag

theorem boolParameters_spec (h : Lies f t) :
    (∀ u ∈ boolParameters f.content t, u ∈ t.walk ∧ u.kind.isIdentifier) ∧
      (boolParameters f.content t).Pairwise fun u v => u.start < v.start := by
  cases hp : t.part? .parameters with
  | none => simp [boolParameters, hp]
  | some list =>
    have hlist := Tree.part_walk hp
    have hrow := (h.walk hlist).laid.row
    simp only [boolParameters, hp, Option.map_some, Option.getD_some]
    generalize hds : List.filter _ list.named = ds
    have hsub : ds.Sublist list.children := hds ▸ List.filter_sublist.trans List.filter_sublist
    have hdeclaration : ∀ d ∈ ds, d.kind = .parameterDeclaration := by
      intro d hd
      rw [← hds] at hd
      exact of_decide_eq_true (Bool.and_eq_true_iff.mp (List.mem_filter.mp hd).2).1
    have hlaid : ∀ d ∈ ds, d.Laid {} := fun d hd => (hrow.mem (hsub.subset hd)).2.2.1
    have hname : ∀ d ∈ ds, ∀ u ∈ d.parts .name, u.kind = .identifier := by
      intro d hd u hu
      obtain ⟨hu, hfield⟩ := List.mem_filter.mp hu
      have hadmits := ((hlaid d hd).row.mem hu).2.2.2
      rw [hdeclaration d hd, of_decide_eq_true hfield] at hadmits
      exact Kind.eq_of_admits hadmits rfl
    have hmark : ∀ d ∈ ds, ∀ u ∈ d.parts .name, u.kind.isMark := fun d hd u hu => by
      rw [hname d hd u hu]
      rfl
    constructor
    · intro u hu
      obtain ⟨d, hd, hu⟩ := List.mem_flatMap.mp hu
      have hwalk := Tree.child_mem_walk (hsub.subset hd) (Tree.child_walk (List.mem_filter.mp hu).1)
      refine ⟨Tree.walk_trans t hlist hwalk, ?_⟩
      rw [hname d hd u hu]
      rfl
    · exact Check.starts_pairwise id (hrow.ordered.sublist hsub) hlaid
        (fun d hd u hu => ⟨Tree.child_walk (List.mem_filter.mp hu).1, hmark d hd u hu⟩)
        fun d hd => Check.names_lt (hlaid d hd) (hmark d hd)

variable {least : Int} {g : Flag}

def ofParameter? (least : Int) (f : SourceFile) (t parameter : Tree) : Option Flag :=
  let calls := receivers f.content (f.text parameter) (t.part? .body)
  if isFlagName (f.text parameter) && least ≤ calls.length then
    some ⟨Location.of f (t.functionName f.content) parameter.start, f.text parameter,
      t.functionName f.content :: calls⟩
  else none

theorem inFunction_eq (least : Int) (f : SourceFile) (t : Tree) :
    inFunction least f t = (boolParameters f.content t).filterMap (ofParameter? least f t) :=
  rfl

theorem at_parameter (h : ofParameter? least f t u = some g) :
    g.tag.At f u.start ∧ g.tag.subject = f.text u := by
  unfold ofParameter? at h
  dsimp only at h
  split at h
  · cases h
    exact ⟨Location.tag_at f _ _ u.start, rfl⟩
  · cases h

theorem apart (hf : parse? f.content = some f.tree) :
    (inFile least f).Pairwise fun g h => ¬ g.tag.Together h.tag := by
  refine pairwise_nodes (f := f) tag id id (functions_ordered hf) (fun t ht g hg => ?_) fun t ht => ?_
  · obtain ⟨u, hu, hg⟩ := List.mem_filterMap.mp hg
    obtain ⟨hwalk, hk⟩ := (boolParameters_spec (lies_function hf ht)).1 u hu
    have hmark := Kind.isMark_of_isIdentifier hk
    exact ⟨u.start, (lies_function hf ht).covers_mark hwalk hmark, (at_parameter hg).1⟩
  · rw [inFunction_eq]
    refine List.pairwise_filterMap.mpr ((boolParameters_spec (lies_function hf ht)).2.imp ?_)
    intro u v hlt g hg h hh htogether
    exact hlt.ne ((at_parameter hg).1.eq (at_parameter hh).1 htogether)

theorem isWord_subject (hf : parse? f.content = some f.tree) (hg : g ∈ inFile least f) :
    Text.IsWord g.tag.subject := by
  obtain ⟨t, ht, hg⟩ := List.mem_flatMap.mp hg
  obtain ⟨u, hu, hg⟩ := List.mem_filterMap.mp hg
  obtain ⟨hwalk, hk⟩ := (boolParameters_spec (lies_function hf ht)).1 u hu
  rw [(at_parameter hg).2]
  exact ((lies_function hf ht).walk hwalk).isWord hk

end Flag

theorem Introduction.subject_of? {source : ByteArray} {target e : Tree} {i : Introduction}
    (h : of? source target e = some i) :
    ∃ u ∈ e.walk, u.kind = .identifier ∧ i.subject = u.text source := by
  unfold of? at h
  dsimp only at h
  split at h
  · cases h
  obtain ⟨comparison, hcore, h⟩ := Option.bind_eq_some_iff.mp h
  split at h
  · cases h
  split at h
  · cases h
  obtain ⟨u, hu, h⟩ := Option.bind_eq_some_iff.mp h
  split at h
  · cases h
  · next hk =>
    obtain ⟨left, hleft, hu⟩ := Option.bind_eq_some_iff.mp hu
    cases h
    have hwalk := Tree.walk_trans comparison (Tree.part_walk hleft) (Tree.core_walk left hu)
    exact ⟨u, Tree.walk_trans e (Tree.core_walk e hcore) hwalk, by simpa using hk, rfl⟩

theorem Introduction.subject_of_mem {source : ByteArray} {i : Introduction}
    (h : i ∈ inBody source body) :
    ∃ u ∈ body.walk, u.kind = .identifier ∧ i.subject = u.text source := by
  obtain ⟨t, ht, h⟩ := List.mem_flatMap.mp h
  unfold ofStatement at h
  dsimp only at h
  split at h
  · obtain ⟨⟨target, e⟩, he, h⟩ := List.mem_filterMap.mp h
    obtain ⟨u, hu, hk, hsubject⟩ := subject_of? h
    have he := Tree.walk_trans t (Tree.expressions?_walk (List.of_mem_zip he).2) hu
    exact ⟨u, Tree.walk_trans body (List.mem_filter.mp ht).1 he, hk, hsubject⟩
  · cases h

theorem start_of_conditions {source : ByteArray} {e : String × Nat} (h : e ∈ conditions source body) :
    ∃ u ∈ body.walk, u.kind = .ifStatement ∧ e.2 = u.start := by
  have hall : ∀ e ∈ conditions source body, ∃ u ∈ body.walk, u.kind = .ifStatement ∧ e.2 = u.start := by
    refine List.foldlRecOn (motive := fun d : Dict String Nat =>
      ∀ e ∈ d, ∃ u ∈ body.walk, u.kind = .ifStatement ∧ e.2 = u.start) _ _ nofun ?_
    intro d hd t ht e he
    obtain ⟨ht, hk⟩ := List.mem_filter.mp ht
    split at he
    · rcases Dict.mem_addNew he with rfl | he
      · exact ⟨t, ht, of_decide_eq_true hk, rfl⟩
      · exact hd e he
    · exact hd e he
  exact hall e h

namespace Switchable

variable {least : Nat} {tested : Dict String Nat} {subject : String} {group : List Introduction}
  {s : Switchable}

theorem of_ofGroup? (h : ofGroup? least f name tested subject group = some s) :
    s.subject = subject ∧ ∃ i n, tested.lookup i = some n ∧ s.location = Location.of f name n := by
  obtain ⟨hsubject, -, -, n, hn, hlocation⟩ := parts_of_ofGroup? h
  obtain ⟨i, -, hi⟩ := List.mem_filterMap.mp (List.min?_mem hn)
  exact ⟨hsubject, i.name, n, hi, hlocation⟩

/-- Findings at the same place have different subjects. -/
theorem subject_ne (hf : parse? f.content = some f.tree) :
    (inFile least f).Pairwise fun r s => r.tag.Together s.tag → r.subject ≠ s.subject := by
  refine pairwise_nodes (f := f) tag (fun hne htogether => (hne htogether).elim) (·.2.1)
    (bodies_ordered hf) (fun b hb s hs => ?_) fun b hb => ?_
  · obtain ⟨e, -, hs⟩ := List.mem_filterMap.mp hs
    obtain ⟨-, i, n, hn, hlocation⟩ := of_ofGroup? hs
    obtain ⟨u, hu, hk, hstart⟩ := start_of_conditions (Dict.mem_of_lookup hn)
    refine ⟨u.start, covers_of_body hf hb hu (by rw [hk]; rfl), ?_⟩
    rw [tag, hlocation, show n = u.start from hstart]
    exact Location.tag_at f b.1 _ u.start
  · have hkeys := List.pairwise_map.mp (groups_spec (Introduction.inBody f.content b.2.2)).1
    refine List.pairwise_filterMap.mpr (hkeys.imp ?_)
    intro e e' hne r hr s hs _
    rw [(of_ofGroup? hr).1, (of_ofGroup? hs).1]
    exact hne

theorem isWord_subject (hf : parse? f.content = some f.tree) (hs : s ∈ inFile least f) :
    Text.IsWord s.tag.subject := by
  obtain ⟨b, hb, hs⟩ := List.mem_flatMap.mp hs
  obtain ⟨e, he, hs⟩ := List.mem_filterMap.mp hs
  obtain ⟨i, hi, hsubject⟩ := (groups_spec _).2 e.1 (List.mem_map_of_mem he)
  obtain ⟨u, hu, hk, htext⟩ := Introduction.subject_of_mem hi
  have hword := ((lies_body hf hb).walk hu).isWord (by rw [hk]; rfl)
  have he : s.tag.subject = f.text u := (of_ofGroup? hs).1.trans (hsubject.symm.trans htext)
  rw [he]
  exact hword

end Switchable

end Finding

end GoAtlas
