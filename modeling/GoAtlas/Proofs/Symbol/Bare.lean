import GoAtlas.Proofs.Finding.Fanout
import GoAtlas.Proofs.Symbol.Buckets
import GoAtlas.Proofs.Syntax.Bare

namespace GoAtlas

open Syntax

namespace Syntax.Tree

variable {C : Ground} {k : Kind} {a b : Nat} {t u : Tree} {ts : List Tree}

/-- What a node stands for where one child is meant: the first that is named and no label. -/
def leading? (t : Tree) : Option Tree :=
  t.children.find? fun c => c.kind.isNamed && c.kind != .labelName

/-- Whether a node stands for one of its children. -/
def isWrapper (t : Tree) : Bool :=
  match t.kind with
  | .pointerType | .parenthesizedType | .parenthesizedExpression | .labeledStatement => true
  | _ => false

/-- No comment is taken for what a node stands for. -/
def Clear (t : Tree) : Prop :=
  t.isWrapper = true → ∀ c, t.leading? = some c → c.isComment = false

theorem head_of_clear (h : t.Clear) (hw : t.isWrapper = true) :
    (t.named.head?.map (·.kind)) ≠ some .comment := by
  intro hhead
  obtain ⟨c, hc, hk⟩ := Option.map_eq_some_iff.mp hhead
  rw [named, List.head?_filter, List.find?_eq_some_iff_append] at hc
  obtain ⟨hnamed, before, after, hsplit, hbefore⟩ := hc
  have hleading : t.leading? = some c := by
    rw [leading?, List.find?_eq_some_iff_append]
    refine ⟨by simp [hk, Kind.isNamed], before, after, hsplit, fun d hd => ?_⟩
    have := hbefore d hd
    simp_all
  have := h hw c hleading
  simp [isComment, hk] at this

theorem find?_isMeant (h : ((ts.filter (·.kind.isNamed)).head?.map (·.kind)) ≠ some .comment) :
    (ts.find? fun c => c.kind.isMeant) = ts.find? fun c => c.kind.isNamed := by
  induction ts with
  | nil => rfl
  | cons t ts ih =>
    rw [List.find?_cons, List.find?_cons]
    cases hk : t.kind.isNamed with
    | false =>
      rw [List.filter_cons, if_neg (by simp [hk])] at h
      rw [Kind.isMeant, hk, Bool.false_and, ih h]
    | true =>
      rw [List.filter_cons, if_pos hk] at h
      have hmeant : t.kind.isMeant = true := by simpa [Kind.isMeant, hk] using h
      rw [hmeant]

theorem find?_bareAll {P : Tree → Bool} (hP : ∀ t : Tree, P t.bare = P t) :
    (bareAll ts).find? P = (ts.find? fun c => P c && !c.isComment).map bare := by
  rw [← List.head?_filter, filter_bareAll hP, List.head?_map, dropComments, List.filter_filter,
    List.head?_filter]
  congr 2
  funext c
  rw [Bool.and_comm]

theorem find?_named_bareAll : (bareAll ts).find? (·.kind.isNamed) =
    (ts.find? fun c => c.kind.isMeant).map bare := by
  rw [find?_bareAll (fun t => by rw [kind_bare])]
  rfl

mutual
/-- The type under pointers, parentheses and type arguments, by the children that are seen. -/
def baseWithin? (sees : Kind → Bool) : Tree → Option Tree
  | .node k f s cs =>
    if k = .pointerType ∨ k = .parenthesizedType then baseOfFirstWithin? sees cs
    else if k = .genericType then baseOfPartWithin? sees cs
    else some (.node k f s cs)

def baseOfFirstWithin? (sees : Kind → Bool) : List Tree → Option Tree
  | [] => none
  | t :: ts => if sees t.kind then baseWithin? sees t else baseOfFirstWithin? sees ts

def baseOfPartWithin? (sees : Kind → Bool) : List Tree → Option Tree
  | [] => none
  | t :: ts => if t.field = some .type then baseWithin? sees t else baseOfPartWithin? sees ts
end

mutual
theorem baseWithin?_isNamed : (t : Tree) → t.baseWithin? Kind.isNamed = t.baseType?
  | .node k f s cs => by
    rw [baseWithin?, baseOfFirstWithin?_isNamed cs, baseOfPartWithin?_isNamed cs]
    split
    · next hk => rcases hk with rfl | rfl <;> rfl
    · next hk =>
      obtain ⟨hpointer, hparens⟩ := not_or.mp hk
      split
      · next hgeneric =>
        subst hgeneric
        rfl
      · next hgeneric => rw [baseType?] <;> assumption

theorem baseOfFirstWithin?_isNamed :
    (ts : List Tree) → baseOfFirstWithin? Kind.isNamed ts = baseOfFirst? ts
  | [] => rfl
  | t :: ts => by
    rw [baseOfFirstWithin?, baseOfFirst?, baseWithin?_isNamed t, baseOfFirstWithin?_isNamed ts]

theorem baseOfPartWithin?_isNamed :
    (ts : List Tree) → baseOfPartWithin? Kind.isNamed ts = baseOfPart? ts
  | [] => rfl
  | t :: ts => by
    rw [baseOfPartWithin?, baseOfPart?, baseWithin?_isNamed t, baseOfPartWithin?_isNamed ts]
end

theorem baseOfFirstWithin?_eq (sees : Kind → Bool) (ts : List Tree) :
    baseOfFirstWithin? sees ts = (ts.find? fun c => sees c.kind).bind (baseWithin? sees) := by
  induction ts with
  | nil => rfl
  | cons t ts ih =>
    rw [baseOfFirstWithin?, ih, List.find?_cons]
    cases sees t.kind <;> rfl

theorem baseOfPartWithin?_eq (sees : Kind → Bool) (ts : List Tree) :
    baseOfPartWithin? sees ts = (ts.find? (·.field = some .type)).bind (baseWithin? sees) := by
  induction ts with
  | nil => rfl
  | cons t ts ih =>
    rw [baseOfPartWithin?, ih, List.find?_cons]
    by_cases hf : t.field = some .type
    · simp [hf]
    · simp [hf]

theorem baseWithin?_eq (sees : Kind → Bool) (t : Tree) : t.baseWithin? sees =
    if t.kind = .pointerType ∨ t.kind = .parenthesizedType then
      (t.children.find? fun c => sees c.kind).bind (baseWithin? sees)
    else if t.kind = .genericType then (t.part? .type).bind (baseWithin? sees)
    else some t := by
  cases t
  rw [baseWithin?, baseOfFirstWithin?_eq, baseOfPartWithin?_eq]
  rfl

theorem baseType?_bare (h : t.Laid C) :
    t.bare.baseType? = (t.baseWithin? Kind.isMeant).map bare := by
  rw [← baseWithin?_isNamed]
  induction t using Tree.by_children with
  | h t ih =>
    have hstep : ∀ o : Option Tree, (∀ c ∈ o, c ∈ t.children) →
        (o.map bare).bind (baseWithin? Kind.isNamed) =
          (o.bind (baseWithin? Kind.isMeant)).map bare := by
      intro o ho
      cases o with
      | none => rfl
      | some c => exact ih c (ho c rfl) (h.row.mem (ho c rfl)).2.2.1
    rw [baseWithin?_eq, baseWithin?_eq, kind_bare, children_bare, ← bareAll_eq,
      find?_named_bareAll, part?_bare h.silent]
    split
    · exact hstep _ fun c hc => List.mem_of_find?_eq_some hc
    · split
      · exact hstep _ fun c hc => (mem_of_part? hc).1
      · rfl

theorem baseWithin?_isMeant (h : ∀ u ∈ t.walk, u.Clear) :
    t.baseWithin? Kind.isMeant = t.baseWithin? Kind.isNamed := by
  induction t using Tree.by_children with
  | h t ih =>
    have hstep : ∀ o : Option Tree, (∀ c ∈ o, c ∈ t.children) →
        o.bind (baseWithin? Kind.isMeant) = o.bind (baseWithin? Kind.isNamed) := by
      intro o ho
      cases o with
      | none => rfl
      | some c => exact ih c (ho c rfl) fun u hu => h u (child_mem_walk (ho c rfl) hu)
    rw [baseWithin?_eq, baseWithin?_eq]
    split
    · next hk =>
      have hw : t.isWrapper = true := by rcases hk with hk | hk <;> rw [isWrapper, hk]
      rw [find?_isMeant (head_of_clear (h t t.self_mem_walk) hw)]
      exact hstep _ fun c hc => List.mem_of_find?_eq_some hc
    · split
      · exact hstep _ fun c hc => (mem_of_part? hc).1
      · rfl

/-- The name of the type a method belongs to, by the children that are seen. -/
def receiverWithin (sees : Kind → Bool) (source : ByteArray) (method : Tree) : String :=
  text? source (((method.part? .receiver).bind fun r =>
    r.named.find? (·.kind = .parameterDeclaration)).bind fun parameter =>
      (parameter.part? .type).bind (baseWithin? sees))

theorem receiverWithin_isNamed (source : ByteArray) (method : Tree) :
    method.receiverWithin Kind.isNamed source = method.receiverName source := by
  rw [receiverWithin, receiverName, funext baseWithin?_isNamed]
  split
  · next hp => rw [hp, Option.bind_some]
  · next hp => rw [hp]; rfl

theorem receiverName_bare (source : ByteArray) (h : t.Laid C) :
    t.bare.receiverName source = t.receiverWithin Kind.isMeant source := by
  rw [← receiverWithin_isNamed, receiverWithin, receiverWithin, part?_bare h.silent, funext baseWithin?_isNamed]
  cases hr : t.part? .receiver with
  | none => rfl
  | some r =>
    have hlaid := (h.part? hr).1
    have hfind : r.bare.named.find? (·.kind = .parameterDeclaration) =
        (r.named.find? (·.kind = .parameterDeclaration)).map bare :=
      named_find?_bare (fun t => by rw [kind_bare]) fun c hc => by rw [of_decide_eq_true hc]; rfl
    rw [Option.map_some, Option.bind_some, Option.bind_some, hfind]
    cases hp : r.named.find? (·.kind = .parameterDeclaration) with
    | none => rfl
    | some p =>
      have hmem := (List.mem_filter.mp (List.mem_of_find?_eq_some hp)).1
      have hlaid := (hlaid.row.mem hmem).2.2.1
      rw [Option.map_some, Option.bind_some, Option.bind_some, part?_bare hlaid.silent]
      cases ht : p.part? .type with
      | none => rfl
      | some type =>
        rw [Option.map_some, Option.bind_some, Option.bind_some, baseType?_bare (hlaid.part? ht).1,
          text?_bare]

theorem receiverWithin_isMeant (source : ByteArray) (h : ∀ u ∈ t.walk, u.Clear) :
    t.receiverWithin Kind.isMeant source = t.receiverWithin Kind.isNamed source := by
  rw [receiverWithin, receiverWithin]
  congr 1
  cases hr : t.part? .receiver with
  | none => rfl
  | some r =>
    rw [Option.bind_some]
    cases hp : r.named.find? (·.kind = .parameterDeclaration) with
    | none => rfl
    | some p =>
      rw [Option.bind_some, Option.bind_some]
      cases ht : p.part? .type with
      | none => rfl
      | some type =>
        have hp : p ∈ r.walk := child_walk (List.mem_filter.mp (List.mem_of_find?_eq_some hp)).1
        have hwalk := walk_trans t (part_walk hr) (walk_trans r hp (part_walk ht))
        exact baseWithin?_isMeant fun u hu => h u (walk_trans t hwalk hu)

end Syntax.Tree

/-- A file without its comments. -/
def SourceFile.bare (f : SourceFile) : SourceFile :=
  { f with tree := f.tree.bare }

namespace Symbol

variable {C : Ground} {f : SourceFile} {package : String} {t name : Tree}

theorem ofNodes_bare (declaration : Tree) (kind : SymbolKind) (signature receiver : Option String) :
    ofNodes f.bare package name.bare declaration.bare kind signature receiver =
      ofNodes f package name declaration kind signature receiver := by
  have htext : f.bare.text name.bare = f.text name := Tree.text_bare f.content name
  rw [ofNodes, ofNodes, htext, Tree.start_bare, Tree.stop_bare]
  rfl

theorem signatureOf_bare (source : ByteArray) (name : String) (h : t.Laid C) :
    signatureOf source name t.bare = signatureOf source name t := by
  have hnames : ∀ l : Tree, l.Laid C →
      ((l.bare.named.filter Tree.isParameter).flatMap fun p => (p.parts .name).map (·.text source)) =
        (l.named.filter Tree.isParameter).flatMap fun p => (p.parts .name).map (·.text source) := by
    intro l hl
    rw [Tree.named_filter_bare (fun t => by rw [Tree.isParameter, Tree.isParameter, Tree.kind_bare])
      fun c hc => by rw [Tree.isParameter, of_decide_eq_true hc]; rfl, List.flatMap_map]
    refine List.flatMap_congr fun p hp => ?_
    have hp := (List.mem_filter.mp (List.mem_filter.mp hp).1).1
    rw [Tree.parts_bare (hl.row.mem hp).2.2.1.silent, List.map_map]
    exact List.map_congr_left fun u _ => Tree.text_bare source u
  rw [signatureOf, signatureOf, Tree.part?_bare h.silent]
  cases hl : t.part? .parameters with
  | none => rfl
  | some l =>
    dsimp only [Option.map_some, Option.getD_some]
    rw [hnames l (h.part? hl).1]

/-- The receiver of a function, by the children that are seen. -/
def receiverWithin? (sees : Kind → Bool) (source : ByteArray) (t : Tree) : Option String :=
  if t.kind = .methodDeclaration ∧ t.receiverWithin sees source ≠ "" then
    some (t.receiverWithin sees source)
  else none

/-- The symbol of a function without comments differs in its receiver alone. -/
theorem ofFunction?_bare (h : t.Laid C) : ofFunction? f.bare package t.bare =
    (ofFunction? f package t).map fun s =>
      { s with receiver := receiverWithin? Kind.isMeant f.content t } := by
  rw [ofFunction?, ofFunction?, Tree.part?_bare h.silent, Option.map_map, Option.map_map]
  congr 1
  funext name
  have htext : f.bare.text name.bare = f.text name := Tree.text_bare f.content name
  have hsignature : signatureOf f.bare.content (f.text name) t.bare =
      signatureOf f.content (f.text name) t := signatureOf_bare f.content _ h
  have hreceiver : t.bare.receiverName f.bare.content = t.receiverWithin Kind.isMeant f.content :=
    Tree.receiverName_bare f.content h
  simp only [Function.comp_apply, htext, hsignature, hreceiver, Tree.kind_bare, ofNodes_bare]
  by_cases hk : t.kind = .methodDeclaration
  · by_cases hr : t.receiverWithin Kind.isMeant f.content = ""
    · simp [receiverWithin?, hk, hr, ofNodes]
    · simp [receiverWithin?, hk, hr, ofNodes]
  · simp [receiverWithin?, hk, ofNodes]

theorem receiver_ofFunction? {s : Symbol} (h : ofFunction? f package t = some s) :
    s.receiver = receiverWithin? Kind.isNamed f.content t := by
  obtain ⟨name, -, rfl⟩ := Option.map_eq_some_iff.mp h
  rw [receiverWithin?, Tree.receiverWithin_isNamed]
  by_cases hk : t.kind = .methodDeclaration
  · by_cases hr : t.receiverName f.content = ""
    · simp [hk, hr, ofNodes]
    · simp [hk, hr, ofNodes]
  · simp [hk, ofNodes]

theorem ofFunction?_bare_of_same (h : t.Laid C) (hreceiver : receiverWithin? Kind.isMeant f.content t =
      receiverWithin? Kind.isNamed f.content t) :
    ofFunction? f.bare package t.bare = ofFunction? f package t := by
  rw [ofFunction?_bare h, hreceiver]
  cases hs : ofFunction? f package t with
  | none => rfl
  | some s => rw [Option.map_some, ← receiver_ofFunction? hs]

theorem receiverWithin?_isMeant (source : ByteArray) (hclear : ∀ u ∈ t.walk, u.Clear) :
    receiverWithin? Kind.isMeant source t = receiverWithin? Kind.isNamed source t := by
  rw [receiverWithin?, receiverWithin?, Tree.receiverWithin_isMeant source hclear]

end Symbol

namespace SymbolTable

variable {C : Ground} {f : SourceFile} {package : String} {t spec type : Tree}

theorem interfaceMethods_bare (receiver : String) (h : type.Laid C) :
    interfaceMethods f.bare package receiver type.bare = interfaceMethods f package receiver type := by
  rw [interfaceMethods, interfaceMethods, Tree.named_filter_bare (fun t => by rw [Tree.kind_bare])
    fun c hc => by rw [of_decide_eq_true hc]; rfl, List.filterMap_map]
  refine List.filterMap_congr fun e he => ?_
  have hl := (h.row.mem (List.mem_filter.mp (List.mem_filter.mp he).1).1).2.2.1
  rw [Function.comp_apply, Tree.part?_bare hl.silent, Option.map_map]
  congr 1
  funext name
  have htext : f.bare.text name.bare = f.text name := Tree.text_bare f.content name
  rw [Function.comp_apply, Symbol.ofNodes_bare, htext]
  exact congrArg (fun s => Symbol.ofNodes f package name e .method (some s) (some receiver))
    (Symbol.signatureOf_bare f.content _ hl)

theorem addType_bare (table : SymbolTable) (h : spec.Laid C) :
    addType f.bare package table spec.bare = addType f package table spec := by
  have htype : (spec.bare.part? .type).filter (·.kind = .interfaceType) =
      ((spec.part? .type).filter (·.kind = .interfaceType)).map Tree.bare := by
    rw [Tree.part?_bare h.silent, Option.filter_map]
    congr 2
    funext t
    rw [Function.comp_apply, Tree.kind_bare]
  rw [addType, addType, Tree.part?_bare h.silent, htype]
  cases spec.part? .name with
  | none => rfl
  | some name =>
    simp only [Option.map_some, Option.isSome_map, Symbol.ofNodes_bare, Option.map_map]
    cases hfound : (spec.part? .type).filter (·.kind = .interfaceType) with
    | none => rfl
    | some type =>
      have hlaid := (h.part? (Option.filter_eq_some_iff.mp hfound).1).1
      simp only [Option.map_some, Function.comp_apply, interfaceMethods_bare _ hlaid]

theorem valueSymbols_bare (kind : SymbolKind) (h : spec.Laid C) :
    valueSymbols f.bare package kind spec.bare = valueSymbols f package kind spec := by
  rw [valueSymbols, valueSymbols, Tree.parts_bare h.silent, List.map_map]
  exact List.map_congr_left fun name _ => Symbol.ofNodes_bare spec kind none none

theorem specs_valueSymbols_bare {k : Kind} (hk : k ≠ .comment) (kind : SymbolKind) (h : t.Laid C) :
    (t.bare.specs k).flatMap (valueSymbols f.bare package kind) =
      (t.specs k).flatMap (valueSymbols f package kind) := by
  rw [Tree.specs_bare hk, List.flatMap_map]
  refine List.flatMap_congr fun spec hspec => valueSymbols_bare (C := C) kind ?_
  exact (Tree.walk_within t h spec (Naming.spec_mem_walk hspec spec.self_mem_walk)).2.2

theorem addFunction_bare (table : SymbolTable)
    (h : Symbol.ofFunction? f.bare package t.bare = Symbol.ofFunction? f package t) :
    table.addFunction f.bare package t.bare = table.addFunction f package t := by
  rw [addFunction, addFunction, h, Tree.kind_bare]

theorem addDeclaration_bare (table : SymbolTable) (h : t.Laid C)
    (hsame : t.kind.isFunction = true →
      Symbol.ofFunction? f.bare package t.bare = Symbol.ofFunction? f package t) :
    addDeclaration f.bare package table t.bare = addDeclaration f package table t := by
  rw [addDeclaration, addDeclaration, Tree.kind_bare]
  split
  · next hk => exact addFunction_bare table (hsame (by rw [hk]; rfl))
  · next hk => exact addFunction_bare table (hsame (by rw [hk]; rfl))
  · rw [Tree.typeSpecs_bare, List.foldl_map]
    refine List.foldl_ext _ _ _ fun table spec hspec => addType_bare (C := C) table ?_
    exact (h.row.mem (List.mem_filter.mp (List.mem_filter.mp hspec).1).1).2.2.1
  · rw [specs_valueSymbols_bare (k := .varSpec) (by decide) _ h]
  · rw [specs_valueSymbols_bare (k := .constSpec) (by decide) _ h]
  · rfl

/-- A table without its methods. -/
def apartFromMethods (table : SymbolTable) : SymbolTable :=
  { table with methods := [] }

theorem apart_eq_iff {table table' : SymbolTable} :
    table.apartFromMethods = table'.apartFromMethods ↔ table.functions = table'.functions ∧
      table.types = table'.types ∧ table.vars = table'.vars ∧ table.constants = table'.constants := by
  simp [apartFromMethods]

theorem apart_addMethods (table : SymbolTable) (receiver : String) (ms : List Symbol) :
    (ms.foldl (fun table m => table.addMethod receiver m) table).apartFromMethods =
      table.apartFromMethods := by
  induction ms generalizing table with
  | nil => rfl
  | cons m ms ih => exact ih (table.addMethod receiver m)

theorem apart_addMethodDeclaration (table : SymbolTable) (hk : t.kind = .methodDeclaration) :
    (table.addFunction f package t).apartFromMethods = table.apartFromMethods := by
  rw [addFunction]
  split
  · rfl
  · rw [if_pos hk]
    split <;> rfl

section

variable {table table' : SymbolTable} (h : table.apartFromMethods = table'.apartFromMethods)
include h

theorem apart_addFunction : (table.addFunction f package t).apartFromMethods =
    (table'.addFunction f package t).apartFromMethods := by
  by_cases hk : t.kind = .methodDeclaration
  · rw [apart_addMethodDeclaration table hk, apart_addMethodDeclaration table' hk, h]
  · obtain ⟨hfunctions, hrest⟩ := apart_eq_iff.mp h
    rw [addFunction, addFunction]
    split
    · exact h
    · rw [if_neg hk, if_neg hk, hfunctions]
      exact apart_eq_iff.mpr ⟨rfl, hrest⟩

theorem apart_addType : (addType f package table spec).apartFromMethods =
    (addType f package table' spec).apartFromMethods := by
  obtain ⟨hfunctions, htypes, hrest⟩ := apart_eq_iff.mp h
  rw [addType, addType, htypes]
  split
  · exact h
  · dsimp only
    generalize Symbol.ofNodes f package _ spec _ none none = s
    split
    · exact h
    · rw [apart_addMethods, apart_addMethods]
      exact apart_eq_iff.mpr ⟨hfunctions, rfl, hrest⟩

theorem apart_foldl {α : Type} {step step' : SymbolTable → α → SymbolTable} {l : List α}
    (hstep : ∀ {table table' : SymbolTable}, table.apartFromMethods = table'.apartFromMethods →
      ∀ a ∈ l, (step table a).apartFromMethods = (step' table' a).apartFromMethods) :
    (l.foldl step table).apartFromMethods = (l.foldl step' table').apartFromMethods := by
  induction l generalizing table table' with
  | nil => exact h
  | cons a l ih =>
    refine ih (hstep h a List.mem_cons_self) fun h b hb => hstep h b (List.mem_cons_of_mem a hb)

theorem apart_addDeclaration : (addDeclaration f package table t).apartFromMethods =
    (addDeclaration f package table' t).apartFromMethods := by
  obtain ⟨hfunctions, htypes, hvars, hconstants⟩ := apart_eq_iff.mp h
  rw [addDeclaration, addDeclaration, hvars, hconstants]
  split
  · exact apart_addFunction h
  · exact apart_addFunction h
  · exact apart_foldl h fun h spec _ => apart_addType h
  · exact apart_eq_iff.mpr ⟨hfunctions, htypes, rfl, rfl⟩
  · exact apart_eq_iff.mpr ⟨hfunctions, htypes, rfl, rfl⟩
  · exact h

end

theorem foldl_dropComments {step : SymbolTable → Tree → SymbolTable}
    (h : ∀ table, ∀ c : Tree, c.isComment = true → step table c = table) (table : SymbolTable)
    (ts : List Tree) : (Tree.dropComments ts).foldl step table = ts.foldl step table := by
  induction ts generalizing table with
  | nil => rfl
  | cons c ts ih =>
    rw [Tree.dropComments, List.filter_cons, List.foldl_cons]
    cases hc : c.isComment with
    | false => exact ih (step table c)
    | true =>
      rw [h table c hc]
      exact ih table

theorem addFile_bare (table : SymbolTable) : addFile package table f.bare =
    f.tree.named.foldl (fun table t => addDeclaration f.bare package table t.bare) table := by
  rw [addFile, SourceFile.bare, Tree.named_bare, List.foldl_map]
  refine foldl_dropComments (fun table c hc => ?_) table _
  have hk : c.kind = .comment := of_decide_eq_true hc
  rw [addDeclaration, Tree.kind_bare, hk]

section

variable (hf : parse? f.content = some f.tree)
include hf

theorem laid_of_named (ht : t ∈ f.tree.named) :
    t.Laid { word := Lexer.Spelled f.content, sign := Lexer.Called f.content } :=
  ((parse?_spelled hf).row.mem (List.mem_filter.mp ht).1).2.2.1

/-- Functions, types, variables and constants are the same without comments. -/
theorem apart_addFile_bare (table : SymbolTable) :
    (addFile package table f.bare).apartFromMethods = (addFile package table f).apartFromMethods := by
  rw [addFile_bare, addFile]
  refine apart_foldl rfl fun {table table'} h t ht => ?_
  by_cases hk : t.kind = .methodDeclaration
  · have hadd : ∀ (f : SourceFile) (t : Tree) (table : SymbolTable), t.kind = .methodDeclaration →
        (addDeclaration f package table t).apartFromMethods = table.apartFromMethods := by
      intro f t table hk
      rw [addDeclaration, hk]
      exact apart_addMethodDeclaration table hk
    rw [hadd f.bare t.bare table (by rw [Tree.kind_bare, hk]), hadd f t table' hk, h]
  · have hreceiver : Symbol.receiverWithin? Kind.isMeant f.content t =
        Symbol.receiverWithin? Kind.isNamed f.content t := by
      simp [Symbol.receiverWithin?, hk]
    have hl := laid_of_named hf ht
    rw [addDeclaration_bare table hl fun _ => Symbol.ofFunction?_bare_of_same hl hreceiver]
    exact apart_addDeclaration h

/-- The whole table is the same if no receiver is read otherwise past comments. -/
theorem addFile_bare_of_same (table : SymbolTable) (hreceiver : ∀ t ∈ f.functions,
      Symbol.receiverWithin? Kind.isMeant f.content t =
        Symbol.receiverWithin? Kind.isNamed f.content t) :
    addFile package table f.bare = addFile package table f := by
  rw [addFile_bare, addFile]
  refine List.foldl_ext _ _ _ fun table t ht => ?_
  have hl := laid_of_named hf ht
  exact addDeclaration_bare table hl fun hk =>
    Symbol.ofFunction?_bare_of_same hl (hreceiver t (List.mem_filter.mpr ⟨ht, hk⟩))

end

end SymbolTable

end GoAtlas
