import GoAtlas.Proofs.Finding.Anchors

namespace GoAtlas.Finding

open Syntax

variable {f : SourceFile} {name : String} {t body call call' function arguments callee u v : Tree}

/-- The word that names what is called: an identifier itself, or the field selected. -/
def nameOf? (function : Tree) : Option Tree :=
  if function.kind = .identifier then some function
  else if function.kind = .selectorExpression then function.part? .field
  else none

def callee? (call : Tree) : Option Tree :=
  (call.part? .function).bind nameOf?

def calleeStart (call : Tree) : Nat :=
  ((callee? call).map Tree.start).getD call.start

/-- A call stands in what another one calls, as all but the last do in a chain of methods. -/
def Chained (call call' : Tree) : Prop :=
  ∃ function, call.part? .function = some function ∧ call' ∈ function.walk

theorem not_isFiller_call {k : Kind} (h : k = .callExpression) : ¬ k.isFiller := by
  rintro hf
  rw [h] at hf
  cases hf

theorem field_of_selector (h : Lies f t) (hk : t.kind = .selectorExpression) :
    ∃ u, t.part? .field = some u ∧ u.kind = .fieldIdentifier ∧
      ∀ v ∈ t.walk, v.kind = .callExpression → v.stop ≤ u.start := by
  obtain ⟨operand, field, -, hfield, hle, hchildren⟩ :=
    h.inOrder (f := .operand) (g := .field) (by rw [hk]; rfl) (by decide)
  obtain ⟨hlaid, hadmits⟩ := Tree.Laid.part? h hfield
  rw [hk] at hadmits
  have hmark : field.kind = .fieldIdentifier := Kind.eq_of_admits hadmits rfl
  refine ⟨field, hfield, hmark, fun v hv hc => ?_⟩
  rcases Tree.mem_walk_iff.mp hv with rfl | ⟨c, hc', hv⟩
  · rw [hk] at hc
    cases hc
  have hlaid := h.walk (Tree.child_walk hc')
  rcases hchildren c hc' with rfl | rfl | hfiller
  · exact (Tree.walk_within c hlaid v hv).2.1.trans hle
  · rw [walk_of_isMark hlaid (by rw [hmark]; rfl), List.mem_singleton] at hv
    rw [hv, hmark] at hc
    cases hc
  · exact (not_isFiller_call hc (Tree.walk_filler c hlaid hfiller v hv)).elim

theorem word_of_nameOf? (h : Lies f t) (hu : nameOf? t = some u) : u ∈ t.walk ∧ u.kind.isIdentifier ∧
    ∀ v ∈ t.walk, v.kind = .callExpression → v.stop ≤ u.start := by
  unfold nameOf? at hu
  split at hu
  · next hk =>
    cases hu
    refine ⟨Tree.self_mem_walk t, by rw [hk]; rfl, fun v hv hc => ?_⟩
    rw [walk_of_isMark h (by rw [hk]; rfl), List.mem_singleton] at hv
    rw [hv, hk] at hc
    cases hc
  · obtain ⟨hk, hu⟩ := Option.ite_none_right_eq_some.mp hu
    obtain ⟨field, hfield, hmark, hbehind⟩ := field_of_selector h hk
    obtain rfl := Option.some.inj (hfield.symm.trans hu)
    exact ⟨Tree.part_walk hu, by rw [hmark]; rfl, hbehind⟩

theorem nameOf?_isSome_iff (h : Lies f t) :
    (nameOf? t).isSome ↔ t.kind = .identifier ∨ t.kind = .selectorExpression := by
  unfold nameOf?
  split
  · next hk => simp [hk]
  · next hk =>
    split
    · next hk' =>
      obtain ⟨field, hfield, -⟩ := field_of_selector h hk'
      simp [hfield, hk']
    · next hk' => simp [hk, hk']

/-- A call with what it calls and the arguments, the calls in it standing in the one or the other. -/
structure Call (call g list : Tree) : Prop where
  function : call.part? .function = some g
  arguments : call.part? .arguments = some list
  before : g.stop ≤ list.start
  inside : ∀ v ∈ Tree.walkAll call.children, v.kind = .callExpression → v ∈ g.walk ∨ v ∈ list.walk

theorem exists_call (h : Lies f call) (hk : call.kind = .callExpression) :
    ∃ function arguments, Call call function arguments := by
  obtain ⟨function, arguments, hfunction, harguments, hle, hchildren⟩ :=
    h.inOrder (f := .function) (g := .arguments) (by rw [hk]; rfl) (by decide)
  refine ⟨function, arguments, hfunction, harguments, hle, fun v hv hc => ?_⟩
  obtain ⟨c, hc', hv⟩ := Tree.exists_of_mem_walkAll hv
  rcases hchildren c hc' with rfl | rfl | hfiller
  · exact .inl hv
  · exact .inr hv
  · have hlaid := h.walk (Tree.child_walk hc')
    exact (not_isFiller_call hc (Tree.walk_filler c hlaid hfiller v hv)).elim

theorem calleeStart_within (h : Lies f call) (hc : Call call function arguments)
    (hu : (callee? call).isSome) : function.start ≤ calleeStart call ∧
      calleeStart call < function.stop ∧
      ∀ v ∈ function.walk, v.kind = .callExpression → v.stop ≤ calleeStart call := by
  obtain ⟨u, hu⟩ := Option.isSome_iff_exists.mp hu
  have hname : nameOf? function = some u := by simpa [callee?, hc.function] using hu
  have hfunction := h.walk (Tree.part_walk hc.function)
  obtain ⟨hwalk, hident, hbehind⟩ := word_of_nameOf? hfunction hname
  obtain ⟨hstart, hstop, hlaid⟩ := Tree.walk_within function hfunction u hwalk
  have hfilled := (hlaid.mark (Kind.isMark_of_isIdentifier hident)).2.1
  rw [calleeStart, hu]
  exact ⟨hstart, hfilled.trans_le hstop, hbehind⟩

/-- Of two calls, where the second follows the first in the walk, the second is named first exactly if
the first calls what is selected from it. -/
theorem calleeStart_le_iff (h : Lies f call) (h' : Lies f call') (hk : call.kind = .callExpression)
    (hk' : call'.kind = .callExpression) (hu : (callee? call).isSome) (hu' : (callee? call').isSome)
    (hnested : call' ∈ Tree.walkAll call.children ∨ call.stop ≤ call'.start) :
    calleeStart call ≤ calleeStart call' ↔ ¬ Chained call call' := by
  obtain ⟨function, arguments, hc⟩ := exists_call h hk
  obtain ⟨function', arguments', hc'⟩ := exists_call h' hk'
  obtain ⟨hstart, hlt, hbehind⟩ := calleeStart_within h hc hu
  obtain ⟨hstart', hlt', -⟩ := calleeStart_within h' hc' hu'
  obtain ⟨hle', hstop', -⟩ := Tree.walk_within call' h' function' (Tree.part_walk hc'.function)
  obtain ⟨-, hstop, -⟩ := Tree.walk_within call h function (Tree.part_walk hc.function)
  constructor
  · rintro hle ⟨g, hg, hmem⟩
    obtain rfl := Option.some.inj (hc.function.symm.trans hg)
    have := hbehind call' hmem hk'
    omega
  · intro hchained
    have hmem : call' ∉ function.walk := fun hmem => hchained ⟨function, hc.function, hmem⟩
    rcases hnested with hin | hbehind
    · have hin := (hc.inside call' hin hk').resolve_left hmem
      have hlaid := h.walk (Tree.part_walk hc.arguments)
      have := (Tree.walk_within arguments hlaid call' hin).1
      have := hc.before
      omega
    · omega

/-- A call and one of its arguments. -/
structure Handover where
  call : Tree
  argument : Tree

/-- A call of an identifier or a selector has a name as one of its own arguments. -/
structure Handover.Of (f : SourceFile) (name : String) (body : Tree) (h : Handover) : Prop where
  call : h.call ∈ body.walk ∧ h.call.kind = .callExpression
  callee : ∃ function, h.call.part? .function = some function ∧
    (function.kind = .identifier ∨ function.kind = .selectorExpression)
  argument : ∃ list, h.call.part? .arguments = some list ∧ h.argument ∈ list.named
  flag : h.argument.kind = .identifier ∧ f.text h.argument = name

/-- The arguments of a call that are a name. -/
def uses (f : SourceFile) (name : String) (call : Tree) : List Tree :=
  (((call.part? .arguments).map Tree.named).getD []).filter fun a =>
    a.kind = .identifier && a.text f.content = name

/-- The calls that a name is handed to, once for each time, in the order of the walk. -/
def handovers (f : SourceFile) (name : String) (body : Tree) : List Handover :=
  (body.walk.filter (·.kind = .callExpression)).flatMap fun call =>
    if (callee? call).isSome then (uses f name call).map fun argument => ⟨call, argument⟩ else []

theorem mem_uses : u ∈ uses f name call ↔ (∃ list, call.part? .arguments = some list ∧
    u ∈ list.named) ∧ u.kind = .identifier ∧ f.text u = name := by
  cases h : call.part? .arguments <;> simp [uses, h, SourceFile.text]

theorem callee?_isSome_iff (h : Lies f call) : (callee? call).isSome ↔ ∃ function,
    call.part? .function = some function ∧
      (function.kind = .identifier ∨ function.kind = .selectorExpression) := by
  cases hfunction : call.part? .function with
  | none => simp [callee?, hfunction]
  | some function =>
    have hlaid := h.walk (Tree.part_walk hfunction)
    simpa [callee?, hfunction] using nameOf?_isSome_iff hlaid

theorem mem_handovers (h : Lies f body) {x : Handover} :
    x ∈ handovers f name body ↔ x.Of f name body := by
  simp only [handovers, List.mem_flatMap, List.mem_filter, decide_eq_true_eq, List.mem_ite_nil_right,
    List.mem_map]
  constructor
  · rintro ⟨call, ⟨hwalk, hk⟩, hcallee, u, hu, rfl⟩
    obtain ⟨hargument, hflag⟩ := mem_uses.mp hu
    exact ⟨⟨hwalk, hk⟩, (callee?_isSome_iff (h.walk hwalk)).mp hcallee, hargument, hflag⟩
  · rintro ⟨⟨hwalk, hk⟩, hcallee, hargument, hflag⟩
    have hcallee := (callee?_isSome_iff (h.walk hwalk)).mpr hcallee
    exact ⟨x.call, ⟨hwalk, hk⟩, hcallee, x.argument, mem_uses.mpr ⟨hargument, hflag⟩, rfl⟩

theorem ne_of_nested (h : Lies f call) (hk : call.kind = .callExpression) (hu : (callee? call).isSome)
    (hnested : call' ∈ Tree.walkAll call.children ∨ call.stop ≤ call'.start) : call ≠ call' := by
  rintro rfl
  rcases hnested with hin | hle
  · obtain ⟨c, hc, hin⟩ := Tree.exists_of_mem_walkAll hin
    have := Tree.sizeOf_lt_of_mem_children hc
    have := Tree.sizeOf_le_of_mem_walk hin
    omega
  · obtain ⟨function, arguments, hc⟩ := exists_call h hk
    obtain ⟨hstart, hlt, -⟩ := calleeStart_within h hc hu
    have := Tree.walk_within call h function (Tree.part_walk hc.function)
    omega

theorem uses_nodup (h : Lies f call) : (uses f name call).Nodup := by
  cases hlist : call.part? .arguments with
  | none => simp [uses, hlist]
  | some list =>
    have hrow := (h.walk (Tree.part_walk hlist)).row
    simp only [uses, hlist, Option.map_some, Option.getD_some]
    refine (hrow.ordered.sublist (List.filter_sublist.trans List.filter_sublist)).imp_of_mem ?_
    rintro u v hu - hle rfl
    obtain ⟨hmem, hkeep⟩ := List.mem_filter.mp hu
    have hk : u.kind = .identifier := by
      simpa using (Bool.and_eq_true_iff.mp hkeep).1
    have hlt := ((hrow.mem (List.mem_filter.mp hmem).1).2.2.1.mark (by rw [hk]; rfl)).2.1
    omega

theorem not_chained_self : ¬ Chained call call := by
  rintro ⟨function, hfunction, hmem⟩
  have := Tree.sizeOf_lt_of_mem_children (mem_of_part? hfunction).1
  have := Tree.sizeOf_le_of_mem_walk hmem
  omega

theorem handovers_pairwise (h : Lies f body) : (handovers f name body).Pairwise fun x y =>
    x ≠ y ∧ (calleeStart x.call ≤ calleeStart y.call ↔ ¬ Chained x.call y.call) := by
  refine List.pairwise_flatMap.mpr ⟨fun call hcall => ?_, ?_⟩
  · have hwalk := (List.mem_filter.mp hcall).1
    split
    · refine List.pairwise_map.mpr ((uses_nodup (h.walk hwalk)).imp ?_)
      exact fun hne => ⟨fun he => hne (Handover.mk.inj he).2, by simp [not_chained_self]⟩
    · exact .nil
  · refine ((Tree.walk_nested body h).sublist List.filter_sublist).imp_of_mem ?_
    intro call call' hcall hcall' hnested x hx y hy
    simp only [List.mem_filter, decide_eq_true_eq] at hcall hcall'
    simp only [List.mem_ite_nil_right, List.mem_map] at hx hy
    obtain ⟨hu, u, -, rfl⟩ := hx
    obtain ⟨hu', v, -, rfl⟩ := hy
    have hlies := h.walk hcall.1
    exact ⟨fun he => ne_of_nested hlies hcall.2 hu hnested (Handover.mk.inj he).1,
      calleeStart_le_iff hlies (h.walk hcall'.1) hcall.2 hcall'.2 hu hu' hnested⟩

theorem calleeName_eq_empty_iff (h : Lies f call) (hle : call.stop ≤ f.content.size) :
    calleeName f.content call = "" ↔ callee? call = none := by
  cases hfunction : call.part? .function with
  | none => simp [calleeName, callee?, hfunction]
  | some function =>
    have hwithin := Tree.walk_within call h function (Tree.part_walk hfunction)
    have hlaid := h.walk (Tree.part_walk hfunction)
    have hword : ∀ u, nameOf? function = some u → u.text f.content ≠ "" := by
      intro u hu
      obtain ⟨hwalk, hident, -⟩ := word_of_nameOf? hlaid hu
      have hstop := (Tree.walk_within function hlaid u hwalk).2.1
      exact (hlaid.walk hwalk).text_ne_empty (Kind.isMark_of_isIdentifier hident)
        (hstop.trans (hwithin.2.1.trans hle))
    simp only [calleeName, callee?, hfunction, Option.bind_some]
    unfold nameOf? at hword ⊢
    split
    · next hk => simpa using hword function (by simp [hk])
    · next hk =>
      split
      · next hk' =>
        obtain ⟨field, hfield, -⟩ := field_of_selector hlaid hk'
        have hne := hword field (by simp [hk', hfield])
        cases hselection : Tree.selection? f.content function with
        | none => simpa [hfield, Tree.text?] using hne
        | some x => simp [hfield, String.append_eq_empty_iff]
      · simp

theorem receivers_eq (h : Lies f body) (hle : body.stop ≤ f.content.size) :
    receivers f.content name (some body) =
      (handovers f name body).map fun x => calleeName f.content x.call := by
  rw [receivers, handovers, List.map_flatMap]
  refine List.flatMap_congr fun call hcall => ?_
  have hwalk := (List.mem_filter.mp hcall).1
  have hstop := (Tree.walk_within body h call hwalk).2.1
  have hempty := calleeName_eq_empty_iff (h.walk hwalk) (hstop.trans hle)
  cases hcallee : callee? call with
  | none => simp [hempty.mpr hcallee]
  | some u =>
    have hne : calleeName f.content call ≠ "" := fun he => by simp [hempty.mp he] at hcallee
    simp only [hne, if_false, Option.isSome_some, if_true, List.map_map]
    exact List.map_const.symm

/-- Each time that a name is an argument of a named call the call is listed once. The names of the calls
come in the order of the text, save that a call chained to another comes before it. -/
theorem receivers_exact (hf : parse? f.content = some f.tree) (ht : t ∈ f.functions)
    (hb : t.part? .body = some body) (name : String) :
    (handovers f name body).Nodup ∧ (∀ x, x ∈ handovers f name body ↔ x.Of f name body) ∧
      receivers f.content name (some body) =
        (handovers f name body).map (fun x => calleeName f.content x.call) ∧
      (handovers f name body).Pairwise fun x y =>
        calleeStart x.call ≤ calleeStart y.call ↔ ¬ Chained x.call y.call := by
  have hlies := lies_function hf ht
  have hbody := Tree.part_walk hb
  have hstop := (Tree.walk_within t hlies body hbody).2.1
  have hsize := ((parse?_spelled hf).row.mem (List.mem_filter.mp (List.mem_filter.mp ht).1).1).2.1
  have hlaid := hlies.walk hbody
  exact ⟨(handovers_pairwise hlaid).imp And.left, fun x => mem_handovers hlaid,
    receivers_eq hlaid (hstop.trans hsize), (handovers_pairwise hlaid).imp And.right⟩

def chain : ByteArray :=
  ("package p\n\nfunc f(debug bool) \x7b\n\ta(debug).b(c(debug), debug)\n\x7d\n").toUTF8

def chainFile (tree : Tree) : SourceFile :=
  ⟨"p.go", chain, tree, Source.Registry.slotFor {} "p.go" chain⟩

/-- The method is listed before the function it is chained to, and the call among its arguments behind
both. -/
theorem receivers_exact_chain : ∃ tree t body, parse? chain = some tree ∧
    t ∈ (chainFile tree).functions ∧ t.part? .body = some body ∧
    receivers chain "debug" (some body) = ["b", "a", "c"] ∧
    ∃ b a c, handovers (chainFile tree) "debug" body = [b, a, c] ∧
      calleeStart a.call < calleeStart b.call ∧ Chained b.call a.call ∧
      calleeStart b.call < calleeStart c.call ∧ ¬ Chained b.call c.call := by
  obtain ⟨tree, htree, t, ht, body, hbody, hreceivers, hstarts⟩ :
      ∃ tree ∈ parse? chain, ∃ t ∈ (chainFile tree).functions, ∃ body ∈ t.part? .body,
        receivers chain "debug" (some body) = ["b", "a", "c"] ∧
        (handovers (chainFile tree) "debug" body).map (fun x => calleeStart x.call) =
          [42, 33, 44] := by
    decide +kernel
  obtain ⟨-, -, -, hordered⟩ := receivers_exact (f := chainFile tree) htree ht hbody "debug"
  refine ⟨tree, t, body, htree, ht, hbody, hreceivers, ?_⟩
  obtain ⟨b, rest, hlist, hb, hstarts⟩ := List.map_eq_cons_iff.mp hstarts
  obtain ⟨a, rest, rfl, ha, hstarts⟩ := List.map_eq_cons_iff.mp hstarts
  obtain ⟨c, rest, rfl, hc, hstarts⟩ := List.map_eq_cons_iff.mp hstarts
  obtain rfl := List.map_eq_nil_iff.mp hstarts
  rw [hlist] at hordered
  have hba := (List.pairwise_cons.mp hordered).1 a (by simp)
  have hbc := (List.pairwise_cons.mp hordered).1 c (by simp)
  refine ⟨b, a, c, hlist, by omega, ?_, by omega, hbc.mp (by omega)⟩
  exact not_not.mp fun hnot => absurd (hba.mpr hnot) (by omega)

end GoAtlas.Finding
