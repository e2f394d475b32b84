import GoAtlas.Proofs.Syntax.Reading
import GoAtlas.Proofs.Syntax.Words

namespace GoAtlas.Syntax.Lexer

namespace Cursor

variable {c : Cursor}

theorem offset_advance (n : Nat) (c : Cursor) :
    (c.advance n).offset = c.offset + min n c.rest.length := by
  induction n generalizing c with
  | zero => simp [advance]
  | succ n ih =>
    unfold advance
    split
    · next h => simp [h]
    · next b r h =>
      rw [ih, h, List.length_cons]
      dsimp only
      omega

theorem advance_nil (n : Nat) (h : c.rest = []) : c.advance n = c := by
  cases n with
  | zero => rfl
  | succ n => simp [advance, h]

theorem advance_add (m n : Nat) (c : Cursor) : (c.advance m).advance n = c.advance (m + n) := by
  induction m generalizing c with
  | zero => simp [advance]
  | succ m ih =>
    cases hr : c.rest with
    | nil => rw [advance_nil _ hr, advance_nil _ hr, advance_nil _ hr]
    | cons b r =>
      rw [Nat.add_right_comm]
      simp only [advance, hr]
      exact ih _

theorem offset_advance_mono {m n : Nat} (h : m ≤ n) (c : Cursor) :
    (c.advance m).offset ≤ (c.advance n).offset := by
  rw [offset_advance, offset_advance]
  omega

theorem rest_advance (n : Nat) (c : Cursor) : (c.advance n).rest = c.rest.drop n := by
  induction n generalizing c with
  | zero => rfl
  | succ n ih =>
    unfold advance
    split
    · next h => simp [h]
    · next b r h => simp [ih, h]

structure In (source : ByteArray) (c : Cursor) : Prop where
  within : c.offset ≤ source.size
  rest : c.rest = source.toList.drop c.offset

theorem In.advance {source : ByteArray} (h : c.In source) (n : Nat) : (c.advance n).In source := by
  have hlength : c.rest.length = source.size - c.offset := by
    rw [h.rest, List.length_drop, Text.length_toList]
  have hwithin := h.within
  refine ⟨?_, ?_⟩
  · rw [offset_advance]
    omega
  · rw [rest_advance, offset_advance, hlength, h.rest, List.drop_drop]
    rcases Nat.le_total n (source.size - c.offset) with hle | hle
    · rw [Nat.min_eq_left hle]
    · rw [List.drop_eq_nil_of_le (by rw [Text.length_toList]; omega),
        List.drop_eq_nil_of_le (by rw [Text.length_toList]; omega)]

theorem In.toList_extract {source : ByteArray} (h : c.In source) (n : Nat) :
    (source.extract c.offset (c.advance n).offset).toList = c.rest.take n := by
  rw [Text.toList_extract, ← h.rest, offset_advance, Nat.add_sub_cancel_left, List.take_eq_take_iff]
  omega

end Cursor

def Spelled (source : ByteArray) (s : Span) : Prop :=
  Text.IsWord (Text.Utf8.decode (source.extract s.start s.stop))

def Called (source : ByteArray) (text : String) (s : Span) : Prop :=
  text = "" ∨ Text.Utf8.decode (source.extract s.start s.stop) = text

/-- The kinds of piece a token of a class can have. -/
def pieceKinds : TokenClass → Kind → Bool
  | .quotedString => Kind.among [.interpretedStringLiteralContent, .escapeSequence]
  | .rawString => Kind.among [.rawStringLiteralContent]
  | _ => fun _ => false

def total : List (Kind × Nat) → Nat
  | [] => 0
  | p :: ps => p.2 + total ps

/-- An item whose pieces are of the right kinds and leave room for a byte before and after them. -/
def Item.Fits : Item → Prop
  | .token cls n ps => (∀ p ∈ ps, pieceKinds cls p.1 = true) ∧ (ps ≠ [] → 1 + total ps ≤ n)
  | _ => True

theorem decodeBytes_newline : Text.Utf8.decodeBytes [byte '\n'] = "\n" := by
  simp [Text.Utf8.decodeBytes, Text.Utf8.pieces, Text.Utf8.step, byte]

theorem take_of_newline {bytes : List UInt8} (h : item? bytes = some .newline) :
    bytes.take 1 = [byte '\n'] := by
  unfold item? at h
  split at h
  · cases h
  split at h
  · cases h
  split at h
  · next b r _ hb =>
    rw [List.take_succ_cons, List.take_zero, beq_iff_eq.mp hb]
  repeat' split at h
  all_goals first
    | cases h
    | (obtain ⟨_, -, he⟩ := Option.map_eq_some_iff.mp h
       cases he)

theorem isLoose_of_pieceKinds {cls : TokenClass} {k : Kind} (h : pieceKinds cls k = true) :
    k.isLoose = true := by
  cases cls <;> simp only [pieceKinds, Kind.among, List.contains_cons, List.contains_nil,
    Bool.or_false, Bool.or_eq_true, beq_iff_eq, Bool.false_eq_true] at h
  · exact h ▸ rfl
  · rcases h with rfl | rfl <;> rfl

theorem admits_piece {t : Token} {k : Kind} (h : pieceKinds t.cls k = true) :
    t.literalKind.admits none k := by
  unfold Token.literalKind
  split
  · next hc =>
    rw [hc] at h
    exact Kind.admits_part 0 rfl h
  · next hc =>
    cases hq : t.cls <;> rw [hq] at h <;> try cases h
    · exact (hc hq).elim
    · exact Kind.admits_part 0 rfl h

theorem quotedPieces_kinds (bytes : List UInt8) (ps : List (Kind × Nat))
    (h : quotedPieces bytes = some ps) : ∀ p ∈ ps, pieceKinds .quotedString p.1 = true := by
  fun_induction quotedPieces bytes generalizing ps with
  | case1 => cases h
  | case2 b r hb =>
    cases h
    simp
  | case3 => cases h
  | case4 b r hb hs n hn ih =>
    obtain ⟨qs, hqs, rfl⟩ := Option.map_eq_some_iff.mp h
    exact List.forall_mem_cons.mpr ⟨rfl, ih qs hqs⟩
  | case5 => cases h
  | case6 b r hb hs hn run ih =>
    obtain ⟨qs, hqs, rfl⟩ := Option.map_eq_some_iff.mp h
    exact List.forall_mem_cons.mpr ⟨rfl, ih qs hqs⟩

theorem foldl_total (ps : List (Kind × Nat)) (n : Nat) :
    ps.foldl (fun n p => n + p.2) n = n + total ps := by
  induction ps generalizing n with
  | nil => rfl
  | cons p ps ih =>
    rw [List.foldl_cons, ih, total, Nat.add_assoc]

theorem item?_fits {bytes : List UInt8} {i : Item} (h : item? bytes = some i) : i.Fits := by
  have hbare : ∀ cls n, (Item.token cls n []).Fits := fun cls n => ⟨by simp, by simp⟩
  unfold item? at h
  split at h
  · cases h
  split at h
  · cases h
    trivial
  split at h
  · cases h
    trivial
  split at h
  · cases h
    trivial
  split at h
  · obtain ⟨n, -, rfl⟩ := Option.map_eq_some_iff.mp h
    trivial
  split at h
  · obtain ⟨ps, hps, rfl⟩ := Option.map_eq_some_iff.mp h
    refine ⟨quotedPieces_kinds _ ps hps, fun _ => ?_⟩
    rw [foldl_total]
    omega
  split at h
  · obtain ⟨n, -, rfl⟩ := Option.map_eq_some_iff.mp h
    exact ⟨by simp [pieceKinds, Kind.among], fun _ => by simp [total]; omega⟩
  split at h
  · obtain ⟨n, -, rfl⟩ := Option.map_eq_some_iff.mp h
    exact hbare _ _
  split at h
  · obtain ⟨n, -, rfl⟩ := Option.map_eq_some_iff.mp h
    exact hbare _ _
  split at h
  · obtain ⟨n, -, rfl⟩ := Option.map_eq_some_iff.mp h
    exact hbare _ _
  · cases h
    exact hbare _ _

theorem layOut_row {C : Ground} (hC : C.places = []) {k : Kind} (ps : List (Kind × Nat))
    (hk : ∀ p ∈ ps, k.admits none p.1 ∧ p.1.isLoose = true) (c : Cursor) :
    Row C k c.offset (c.advance (total ps)).offset
      ((c.layOut ps).map fun (k, s) => .node k none s []) := by
  induction ps generalizing c with
  | nil => exact Nat.le_refl _
  | cons p ps ih =>
    have hle : c.offset ≤ (c.advance p.2).offset := Cursor.offset_advance_mono (Nat.zero_le _) c
    have hrest := ih (fun q hq => hk q (List.mem_cons_of_mem p hq)) (c.advance p.2)
    rw [Cursor.advance_add] at hrest
    obtain ⟨hadmits, hloose⟩ := hk p List.mem_cons_self
    have hlaid : (Tree.node p.1 none (c.spanTo (c.advance p.2)) []).Laid C := by
      refine ⟨by simp [hC, Free], by simp [hC, Free], fun hm => ?_, signed_of_isLoose hloose, hle⟩
      simp [Kind.isLoose, hm] at hloose
    exact ⟨Nat.le_refl _, hlaid, hadmits, hrest⟩

/-- A token that is not empty, holds its pieces and is called as it is written; a name is a word of
the text. -/
structure Formed (source : ByteArray) (t : Token) : Prop where
  filled : t.span.start < t.span.stop
  word : t.cls = .name → Spelled source t.span
  sign : Called source t.text t.span
  pieces : Row { word := Spelled source, sign := Called source } t.literalKind t.span.start t.span.stop
    (t.pieces.map fun (k, s) => .node k none s [])

theorem formed {source : ByteArray} {c : Cursor} {cls : TokenClass} {text : String} {n : Nat}
    {ps : List (Kind × Nat)} (hlt : c.offset < (c.advance n).offset)
    (hw : cls = .name → Spelled source (c.spanTo (c.advance n)))
    (hc : Called source text (c.spanTo (c.advance n))) (hf : (Item.token cls n ps).Fits) :
    Formed source ⟨cls, text, c.spanTo (c.advance n), (c.advance 1).layOut ps⟩ := by
  refine ⟨hlt, hw, hc, ?_⟩
  have hrow := layOut_row (C := { word := Spelled source, sign := Called source }) rfl
    (k := Token.literalKind ⟨cls, text, c.spanTo (c.advance n), []⟩) ps
    (fun p hp => ⟨admits_piece (hf.1 p hp), isLoose_of_pieceKinds (hf.1 p hp)⟩) (c.advance 1)
  rw [Cursor.advance_add] at hrow
  cases ps with
  | nil => exact hlt.le
  | cons p ps =>
    have hstart : c.offset ≤ (c.advance 1).offset := Cursor.offset_advance_mono (Nat.zero_le _) c
    exact hrow.widen hstart (Cursor.offset_advance_mono (hf.2 (by simp)) c)

structure Scanned (source : ByteArray) (c : Cursor) (found : Lexemes) : Prop where
  inside : c.In source
  tokens : ∀ t ∈ found.tokens.toList, Formed source t ∧ t.span.stop ≤ c.offset
  ordered : found.tokens.toList.Pairwise fun t u => t.span.stop ≤ u.span.start
  comments : ∀ s ∈ found.comments.toList, s.start < s.stop ∧ s.stop ≤ c.offset
  following : found.comments.toList.Pairwise fun s u => s.stop ≤ u.start
  apart : ∀ t ∈ found.tokens.toList, Free found.comments.toList t.span.start t.span.stop

namespace Scanned

variable {source : ByteArray} {c next : Cursor} {found : Lexemes}

theorem skip (h : Scanned source c found) (hle : c.offset ≤ next.offset) (hs : next.In source) :
    Scanned source next found where
  inside := hs
  tokens t ht := ⟨(h.tokens t ht).1, (h.tokens t ht).2.trans hle⟩
  ordered := h.ordered
  comments s hs := ⟨(h.comments s hs).1, (h.comments s hs).2.trans hle⟩
  following := h.following
  apart := h.apart

theorem push (h : Scanned source c found) (hs : next.In source) {t : Token} (ht : Formed source t)
    (hstart : t.span.start = c.offset) (hstop : t.span.stop = next.offset) :
    Scanned source next (found.push t) := by
  have hlt : c.offset < next.offset := hstart ▸ hstop ▸ ht.filled
  have hnext := h.skip hlt.le hs
  refine ⟨hs, ?_, ?_, hnext.comments, h.following, ?_⟩
  · intro u hu
    simp only [Lexemes.push, Array.toList_push, List.mem_append, List.mem_singleton] at hu
    obtain hu | rfl := hu
    · exact hnext.tokens u hu
    · exact ⟨ht, hstop.le⟩
  · simp only [Lexemes.push, Array.toList_push, List.pairwise_append, List.mem_singleton]
    refine ⟨h.ordered, List.pairwise_singleton _ _, ?_⟩
    rintro u hu _ rfl
    exact hstart ▸ (h.tokens u hu).2
  · intro u hu
    simp only [Lexemes.push, Array.toList_push, List.mem_append, List.mem_singleton] at hu
    obtain hu | rfl := hu
    · exact h.apart u hu
    · exact fun s hs => .inl (hstart ▸ (h.comments s hs).2)

theorem comment (h : Scanned source c found) (hlt : c.offset < next.offset) (hs : next.In source) :
    Scanned source next { found with comments := found.comments.push (c.spanTo next) } := by
  have hnext := h.skip hlt.le hs
  refine ⟨hs, hnext.tokens, h.ordered, ?_, ?_, ?_⟩
  · intro s hs
    simp only [Array.toList_push, List.mem_append, List.mem_singleton] at hs
    obtain hs | rfl := hs
    · exact hnext.comments s hs
    · exact ⟨hlt, Nat.le_refl _⟩
  · simp only [Array.toList_push, List.pairwise_append, List.mem_singleton]
    refine ⟨h.following, List.pairwise_singleton _ _, ?_⟩
    rintro s hs _ rfl
    exact (h.comments s hs).2
  · intro t ht s hs
    simp only [Array.toList_push, List.mem_append, List.mem_singleton] at hs
    obtain hs | rfl := hs
    · exact h.apart t ht s hs
    · exact .inr (h.tokens t ht).2

theorem record (h : Scanned source c found) {i : Item} (hi : item? c.rest = some i)
    (hlt : c.offset < (c.advance i.length).offset) :
    Scanned source (c.advance i.length) (found.record c (c.advance i.length) i) := by
  have hs := h.inside.advance i.length
  have hfits := item?_fits hi
  cases i with
  | blank n => exact h.skip hlt.le hs
  | newline =>
    unfold Lexemes.record
    dsimp only
    split
    · have hbreak : Called source "\n" (c.spanTo (c.advance 1)) := by
        have hbytes := h.inside.toList_extract 1
        rw [take_of_newline hi] at hbytes
        exact .inr ((congrArg Text.Utf8.decodeBytes hbytes).trans decodeBytes_newline)
      exact h.push hs ⟨hlt, nofun, hbreak, hlt.le⟩ rfl rfl
    · exact h.skip hlt.le hs
  | comment n => exact h.comment hlt hs
  | token cls n ps =>
    refine h.push hs (formed hlt (fun hname => ?_) ?_ ⟨fun p hp => ?_, hfits.2⟩) rfl rfl
    · have hcls : cls = .name := by
        by_contra hne
        simp [hne] at hname
      subst hcls
      have hword := isWord_of_item? hi
      rw [← h.inside.toList_extract n] at hword
      exact hword
    · have hwritten := congrArg Text.Utf8.decodeBytes (h.inside.toList_extract n)
      cases cls <;> first | exact .inr hwritten | exact .inl rfl
    · have hkind := hfits.1 p hp
      -- a name has no pieces, so that it does not matter whether it is a keyword
      cases cls <;> first | exact hkind | cases hkind

end Scanned

theorem scan_scanned {source : ByteArray} {c stop : Cursor} {found all : Lexemes}
    (h : Scanned source c found) (hs : scan source.size c found = some (all, stop)) :
    Scanned source stop all := by
  fun_induction scan source.size c found with
  | case1 c found he =>
    cases hs
    exact h
  | case2 => cases hs
  | case3 c found he i hi hlt ih => exact ih (h.record hi hlt.1) hs
  | case4 => cases hs

theorem lexemes?_scanned {source : ByteArray} {all : Lexemes} {stop : Cursor}
    (h : lexemes? source = some (all, stop)) : Scanned source stop all := by
  have hstart : (startCursor source.toList).In source := by
    have hzero : Cursor.In source ⟨source.toList, 0, ⟨0, 0⟩⟩ := ⟨Nat.zero_le _, rfl⟩
    unfold startCursor
    split
    · exact hzero.advance 3
    · exact hzero
  refine scan_scanned ⟨hstart, ?_, ?_, ?_, ?_, ?_⟩ h
  all_goals simp

theorem Scanned.lexed {source : ByteArray} {c : Cursor} {found : Lexemes}
    (h : Scanned source c found) :
    Lexed ⟨found.comments.toList, Spelled source, Called source⟩ found.tokens := by
  refine ⟨fun i t ht => ?_, fun i t ht => ?_⟩
  · have hmem : t ∈ found.tokens.toList := by
      rw [← Array.getElem?_toList] at ht
      exact List.mem_of_getElem? ht
    obtain ⟨⟨hfilled, hword, hsign, hpieces⟩, -⟩ := h.tokens t hmem
    have hfree := h.apart t hmem
    exact ⟨hfilled, hfree, hword, hsign, Row.avoid _ _ _ _ hpieces hfree⟩
  · cases i with
    | zero => exact Nat.zero_le _
    | succ i =>
      obtain ⟨hlt, ht⟩ := Array.getElem?_eq_some_iff.mp ht
      have hpairs := List.pairwise_iff_getElem.mp h.ordered i (i + 1) (by simp; omega) (by simpa)
        (Nat.lt_succ_self i)
      simp only [Array.getElem_toList, ht] at hpairs
      simpa [stopBefore, Array.getElem?_eq_getElem (Nat.lt_of_succ_lt hlt)] using hpairs

theorem Scanned.stopBefore_le {source : ByteArray} {c : Cursor} {found : Lexemes}
    (h : Scanned source c found) (i : Nat) : stopBefore found.tokens i ≤ source.size := by
  cases i with
  | zero => exact Nat.zero_le _
  | succ i =>
    cases ht : found.tokens[i]? with
    | none => simp [stopBefore, ht]
    | some t =>
      have hmem : t ∈ found.tokens.toList := by
        rw [← Array.getElem?_toList] at ht
        exact List.mem_of_getElem? ht
      simpa [stopBefore, ht] using (h.tokens t hmem).2.trans h.inside.within

end GoAtlas.Syntax.Lexer
