import GoAtlas.Syntax.Parse
import GoAtlas.Proofs.Syntax.Lexing
import GoAtlas.Proofs.Syntax.StatementRules

namespace GoAtlas.Syntax

open Rule

namespace Grammar.Lays

variable {C : Ground} {ts : Array Token} {g : Grammar}

theorem production (h : g.Lays C ts) : Grammar.Lays C ts (production g) where
  lexed := h.lexed
  goal
    | .expression header => h.expressionRule header
    | .unary header => h.unary header
    | .type => h.typeRule
    | .parameters => h.parameters
    | .literalValue => h.literalValue
    | .block => h.block
    | .statement => h.statementRule
    | .ifStatement => h.ifStatement

theorem upTo (h : Lexed C ts) (depth : Nat) : Grammar.Lays C ts (upTo depth) := by
  induction depth with
  | zero => exact ⟨h, fun _ _ => .failure⟩
  | succ depth ih => exact ih.production

section
variable (h : g.Lays C ts)
include h

theorem topLevel : (topLevel g).Gives ts (Reads C ts Kind.isTopLevel) := by
  refine .orElse ?_ (.orElse ?_ (.orElse ?_ ?_))
  · exact h.packageClause.imp fun _ _ _ ht => ht.one rfl
  · exact h.importDeclaration.imp fun _ _ _ ht => ht.one rfl
  · exact h.functionDeclaration.imp fun _ _ _ ht => ht.one rfl
  · exact h.methodDeclaration.imp fun _ _ _ ht => ht.one rfl

theorem fileItem : (fileItem g).Gives ts (ReadsRow C ts .sourceFile) := by
  intro i
  refine .orElse ?_ ?_
  · refine h.topLevel.bind fun d j hd => ?_
    refine h.lexed.terminator.perhaps.bind fun o l ho => ?_
    obtain ⟨rfl, rfl⟩ | ⟨t, rfl, ht⟩ := ho
    · refine still_ended.bind fun ended => (still_require _).bind fun _ => .pure ?_
      exact hd.plain 0 rfl (ReadsRow.nil j)
    · exact .pure (hd.plain 0 rfl (ht.sign (ReadsRow.nil l)))
  · refine (h.goal .statement).bind fun s j hs => ?_
    refine h.lexed.terminator.bind fun t l ht => .pure ?_
    exact hs.plain 1 rfl (ht.sign (ReadsRow.nil l))

theorem file : (file g).Gives ts (ReadsRow C ts .sourceFile) := by
  intro i
  refine h.fileItem.many.bind fun items j hitems => ?_
  exact still_ended.bind fun ended => (still_require _).bind fun _ => .pure (ReadsRow.flatten hitems)

end

end Grammar.Lays

/-- Places that are not empty and follow one another between `a` and `b`. -/
structure Following (C : List Span) (a b : Nat) : Prop where
  le : a ≤ b
  filled : ∀ s ∈ C, s.start < s.stop
  within : ∀ s ∈ C, a ≤ s.start ∧ s.stop ≤ b
  ordered : C.Pairwise fun s u => s.stop ≤ u.start

namespace Following

variable {C : List Span} {word : Span → Prop} {sign : String → Span → Prop} {a b : Nat} {k : Kind}

theorem tail {s : Span} (h : Following (s :: C) a b) : Following C s.stop b where
  le := (h.within s List.mem_cons_self).2
  filled u hu := h.filled u (List.mem_cons_of_mem s hu)
  within u hu := ⟨List.rel_of_pairwise_cons h.ordered hu, (h.within u (List.mem_cons_of_mem s hu)).2⟩
  ordered := h.ordered.of_cons

/-- Comments as children of a node. -/
theorem row (h : Following C a b) :
    Row { word, sign } k a b (C.map fun s => .node .comment none s []) := by
  induction C generalizing a with
  | nil => exact h.le
  | cons s C ih =>
    have hlt := h.filled s List.mem_cons_self
    exact ⟨(h.within s List.mem_cons_self).1, 
      Tree.laid_mark rfl hlt (by simp [Free]) ⟨nofun, nofun⟩, Kind.admits_filler (by rfl), ih h.tail⟩

/-- The places before a byte that none of them reaches over. -/
theorem before (h : Following C a b) {n : Nat} (hn : Free C n n) (ha : a ≤ n) :
    Following (C.takeWhile (·.start < n)) a n := by
  refine ⟨ha, fun s hs => ?_, fun s hs => ?_, ?_⟩
  · exact h.filled s ((List.takeWhile_sublist _).subset hs)
  · have hmem := (List.takeWhile_sublist _).subset hs
    have hlt : s.start < n := by
      simpa using List.all_eq_true.mp List.all_takeWhile s hs
    exact ⟨(h.within s hmem).1, (hn s hmem).resolve_right (by omega)⟩
  · exact h.ordered.sublist (List.takeWhile_sublist _)

theorem le_of_mem_dropWhile (h : Following C a b) {n : Nat} {s : Span}
    (hs : s ∈ C.dropWhile (·.start < n)) : n ≤ s.start := by
  induction C generalizing a with
  | nil => cases hs
  | cons u C ih =>
    rw [List.dropWhile_cons] at hs
    split at hs
    · exact ih h.tail hs
    · next hge =>
      have hge : n ≤ u.start := by simpa using hge
      rcases List.mem_cons.mp hs with rfl | hs
      · exact hge
      · calc n ≤ u.start := hge
          _ ≤ u.stop := (h.filled u List.mem_cons_self).le
          _ ≤ s.start := (h.tail.within s hs).1

/-- The places from a byte on. -/
theorem after (h : Following C a b) {n : Nat} (hb : n ≤ b) :
    Following (C.dropWhile (·.start < n)) n b where
  le := hb
  filled s hs := h.filled s ((List.dropWhile_sublist _).subset hs)
  within s hs :=
    ⟨h.le_of_mem_dropWhile hs, (h.within s ((List.dropWhile_sublist _).subset hs)).2⟩
  ordered := h.ordered.sublist (List.dropWhile_sublist _)

end Following

namespace Tree

variable (C : List Span) (t : Tree)

@[simp] theorem start_insertComments : (t.insertComments C).start = t.start := by
  cases t
  rfl

@[simp] theorem stop_insertComments : (t.insertComments C).stop = t.stop := by
  cases t
  rfl

@[simp] theorem kind_insertComments : (t.insertComments C).kind = t.kind := by
  cases t
  rfl

@[simp] theorem field_insertComments : (t.insertComments C).field = t.field := by
  cases t
  rfl

end Tree

theorem mem_insertAmong {C : List Span} {ts : List Tree} {t : Tree}
    (h : t ∈ Tree.insertAmong C ts) :
    (∃ s, t = .node .comment none s []) ∨ ∃ u ∈ ts, ∃ C, t = u.insertComments C := by
  have hcomment : ∀ {C : List Span}, t ∈ C.map (fun s => Tree.node .comment none s []) →
      ∃ s, t = .node .comment none s [] := by
    intro C h
    obtain ⟨s, _, rfl⟩ := List.mem_map.mp h
    exact ⟨s, rfl⟩
  induction ts generalizing C with
  | nil => exact .inl (hcomment h)
  | cons u ts ih =>
    rcases List.mem_append.mp h with h | h
    · exact .inl (hcomment h)
    · rcases List.mem_cons.mp h with rfl | h
      · exact .inr ⟨u, List.mem_cons_self, _, rfl⟩
      · exact (ih h).imp_right fun ⟨v, hv, he⟩ => ⟨v, List.mem_cons_of_mem u hv, he⟩

theorem exists_mem_insertAmong (C : List Span) {ts : List Tree} {u : Tree} (h : u ∈ ts) :
    ∃ C', u.insertComments C' ∈ Tree.insertAmong C ts := by
  induction ts generalizing C with
  | nil => cases h
  | cons t ts ih =>
    rcases List.mem_cons.mp h with rfl | h
    · exact ⟨_, List.mem_append_right _ List.mem_cons_self⟩
    · obtain ⟨C', hC'⟩ := ih _ h
      exact ⟨C', List.mem_append_right _ (List.mem_cons_of_mem _ hC')⟩

theorem filterMap_insertAmong {α : Type} {f : Tree → Option α} (C : List Span) (ts : List Tree)
    (hcomment : ∀ s, f (.node .comment none s []) = none)
    (hinsert : ∀ C' t, f (t.insertComments C') = f t) :
    (Tree.insertAmong C ts).filterMap f = ts.filterMap f := by
  have hcomments : ∀ C : List Span,
      (C.map fun s => Tree.node .comment none s []).filterMap f = [] := by
    intro C
    rw [List.filterMap_map]
    exact List.filterMap_eq_nil_iff.mpr fun s _ => hcomment s
  induction ts generalizing C with
  | nil => rw [Tree.insertAmong, hcomments]; rfl
  | cons t ts ih =>
    rw [Tree.insertAmong, List.filterMap_append, hcomments, List.nil_append, List.filterMap_cons,
      List.filterMap_cons, hinsert, ih]

theorem map_filter_insertAmong {α : Type} {p : Tree → Bool} {f : Tree → α} (C : List Span)
    (ts : List Tree) (hcomment : ∀ s, p (.node .comment none s []) = false)
    (hp : ∀ C' t, p (t.insertComments C') = p t) (hf : ∀ C' t, f (t.insertComments C') = f t) :
    ((Tree.insertAmong C ts).filter p).map f = (ts.filter p).map f := by
  rw [← List.filterMap_eq_map, List.filterMap_filter, List.filterMap_filter]
  exact filterMap_insertAmong C ts (fun s => by simp [hcomment]) fun C' t => by simp [hp, hf]

theorem insertAmong_signed {C : List Span} {k : Kind} {s : Span} {ts : List Tree}
    (h : Signed k s ts) : Signed k s (Tree.insertAmong C ts) where
  define := by
    rintro hk ⟨c, hc, hf⟩
    rcases mem_insertAmong hc with ⟨s, rfl⟩ | ⟨u, hu, C', rfl⟩
    · cases hf
    · obtain ⟨d, hd, hkind⟩ := h.define hk ⟨u, hu, by simpa using hf⟩
      obtain ⟨C'', hmem⟩ := exists_mem_insertAmong C hd
      exact ⟨_, hmem, by simpa using hkind⟩
  filled := h.filled
  head hk c hc := by
    rcases mem_insertAmong hc with ⟨s, rfl⟩ | ⟨u, hu, C', rfl⟩
    · exact .inl rfl
    · simpa using h.head hk u hu
  single hk := by
    have hkinds := map_filter_insertAmong (p := (·.kind.isStatement)) (f := Tree.kind) C ts
      (fun _ => rfl) (by simp) (by simp)
    rw [← List.length_map, hkinds, List.length_map]
    exact h.single hk
  named := by
    rintro hk ⟨c, hc, hf⟩
    rcases mem_insertAmong hc with ⟨s, rfl⟩ | ⟨u, hu, C', rfl⟩
    · cases hf
    · obtain ⟨d, hd, hname⟩ := h.named hk ⟨u, hu, by simpa using hf⟩
      obtain ⟨C'', hmem⟩ := exists_mem_insertAmong C hd
      exact ⟨_, hmem, by simpa using hname⟩
  ordered fs hk := by
    rw [filterMap_insertAmong C ts (fun _ => rfl) (by simp)]
    exact h.ordered fs hk
  series hk := by
    rw [map_filter_insertAmong C ts (fun _ => rfl) (by simp) (by simp)]
    exact h.series hk

mutual
theorem insertComments_laid (C : List Span) {word : Span → Prop} {sign : String → Span → Prop} :
    (t : Tree) → t.Laid ⟨C, word, sign⟩ → Following C t.start t.stop →
      (t.insertComments C).Laid { word, sign }
  | .node k f s cs, h, hC => by
    refine ⟨by simp [Free], by simp [Free], fun hm => ?_, insertAmong_signed h.2.2.2.1, ?_⟩
    · obtain ⟨rfl, hlt, hfree, hword⟩ := h.2.2.1 hm
      -- there is no room for a comment in a mark
      have hnone : C = [] := by
        rw [List.eq_nil_iff_forall_not_mem]
        intro p hp
        have hin := hC.within p hp
        have hfilled := hC.filled p hp
        have hapart := hfree p hp
        simp only [Tree.start, Tree.stop, Tree.span] at hin
        omega
      exact ⟨by simp [hnone, Tree.insertAmong], hlt, by simp [Free], hword⟩
    · exact insertAmong_row C cs k _ _ h.2.2.2.2 hC

theorem insertAmong_row (C : List Span) {word : Span → Prop} {sign : String → Span → Prop} :
    (ts : List Tree) → ∀ k a b, Row ⟨C, word, sign⟩ k a b ts → Following C a b →
      Row { word, sign } k a b (Tree.insertAmong C ts)
  | [], _, _, _, _, hC => hC.row
  | t :: ts, k, a, b, h, hC => by
    obtain ⟨hstart, hlaid, hadmits, hrest⟩ := h
    have hb : t.stop ≤ b := hrest.le
    have hlater := hC.after (n := t.start) (hlaid.le.trans hb)
    have hsub := (List.dropWhile_sublist (l := C) fun s => decide (s.start < t.start)).subset
    have hwithin : ∀ {C' : List Span}, C' ⊆ C → Ground.Within ⟨C, word, sign⟩ ⟨C', word, sign⟩ :=
      fun hsub => ⟨hsub, fun _ => id, fun _ _ => id⟩
    have hinside := hlater.before (n := t.stop) (fun p hp => hlaid.stop_free p (hsub hp)) hlaid.le
    have hrow := insertAmong_row _ ts k t.stop b
      (hrest.within (hwithin fun p hp => hsub ((List.dropWhile_sublist _).subset hp)))
      (hlater.after hb)
    have ht := insertComments_laid _ t
      (hlaid.within (hwithin fun p hp => hsub ((List.takeWhile_sublist _).subset hp))) hinside
    refine Row.append (hC.before hlaid.start_free hstart).row ?_
    exact ⟨by simp, ht, by simpa using hadmits, by simpa using hrow⟩
end

theorem Lexer.Scanned.commented {source : ByteArray} {c : Cursor} {found : Lexemes}
    (h : Scanned source c found) : Following found.comments.toList 0 source.size where
  le := Nat.zero_le _
  filled s hs := (h.comments s hs).1
  within s hs := ⟨Nat.zero_le _, (h.comments s hs).2.trans h.inside.within⟩
  ordered := h.following

/-- A tree laid out in the bytes of a file. Its root starts with its first declaration, behind any
comments at the beginning of the file. -/
structure Parsed (size : Nat) (root : Tree) (C : Ground := {}) : Prop where
  kind : root.kind = .sourceFile
  row : Row C .sourceFile 0 size root.children
  start : ∀ t ∈ root.children, (∃ s, t = .node .comment none s []) ∨ root.start ≤ t.start

/-- Files that are parsed have words for identifiers, and signs that are called as they are written. -/
theorem parse?_spelled {source : ByteArray} {root : Tree} (h : parse? source = some root) :
    Parsed source.size root { word := Lexer.Spelled source, sign := Lexer.Called source } := by
  unfold parse? at h
  cases hl : Lexer.lexemes? source with
  | none => simp [hl] at h
  | some x =>
    obtain ⟨found, stop⟩ := x
    have hs := Lexer.lexemes?_scanned hl
    simp only [hl, Option.bind_eq_bind, Option.bind_some] at h
    obtain ⟨⟨items, n⟩, hf, h⟩ := Option.bind_eq_some_iff.mp h
    obtain rfl := Option.some.inj h
    have hlays := Grammar.Lays.upTo hs.lexed (8 * found.tokens.size + 16)
    have hitems : Row ⟨found.comments.toList, Lexer.Spelled source, Lexer.Called source⟩ .sourceFile 0
        source.size items :=
      (hlays.file 0 items n hf).widen (Nat.le_refl 0) (hs.stopBefore_le n)
    refine ⟨rfl, insertAmong_row _ items .sourceFile 0 source.size hitems hs.commented,
      fun t ht => (mem_insertAmong ht).imp_right fun ⟨u, hu, C, he⟩ => ?_⟩
    rw [he, Tree.start_insertComments C u]
    cases items with
    | nil => cases hu
    | cons first more =>
      obtain ⟨-, hfirst, hadmits, hmore⟩ := hitems
      have htight : Row _ .sourceFile first.start source.size (first :: more) :=
        ⟨Nat.le_refl _, hfirst, hadmits, hmore⟩
      exact (htight.mem hu).1

theorem parse?_parsed {source : ByteArray} {root : Tree} (h : parse? source = some root) :
    Parsed source.size root := by
  obtain ⟨hkind, hrow, hstart⟩ := parse?_spelled h
  exact ⟨hkind, hrow.within ⟨fun _ => id, fun _ _ => trivial, fun _ _ _ => trivial⟩, hstart⟩

end GoAtlas.Syntax
