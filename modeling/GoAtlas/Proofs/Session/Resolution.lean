import GoAtlas.Proofs.Session.Definitions
import GoAtlas.Proofs.Symbol.Filing
import GoAtlas.Proofs.Symbol.Spelling

namespace GoAtlas

open Syntax Check

namespace Text

theorem cutAt?_dot_eq_none {cs : List Char} (h : '.' ∉ cs) : cutAt? ['.'] cs = none := by
  induction cs with
  | nil => rfl
  | cons c cs ih =>
    have hc : ('.' == c) = false := beq_eq_false_iff_ne.mpr (List.ne_of_not_mem_cons h)
    have hcs := List.not_mem_of_not_mem_cons h
    simp [cutAt?, List.isPrefixOf, hc, ih hcs]

theorem cutAt?_dot {before : List Char} (h : '.' ∉ before) (after : List Char) :
    cutAt? ['.'] (before ++ '.' :: after) = some (before, after) := by
  induction before with
  | nil => simp [cutAt?, List.isPrefixOf]
  | cons c before ih =>
    have hc : ('.' == c) = false := beq_eq_false_iff_ne.mpr (List.ne_of_not_mem_cons h)
    have hbefore := List.not_mem_of_not_mem_cons h
    simp [cutAt?, List.isPrefixOf, hc, ih hbefore]

theorem cut?_dot_eq_none {s : String} (h : '.' ∉ s.toList) : cut? "." s = none := by
  rw [cut?, show ".".toList = ['.'] from rfl, cutAt?_dot_eq_none h]
  rfl

theorem cut?_dot {before : String} (h : '.' ∉ before.toList) (after : String) :
    cut? "." (before ++ "." ++ after) = some (before, after) := by
  have hlist : (before ++ "." ++ after).toList = before.toList ++ '.' :: after.toList := by simp
  rw [cut?, hlist, show ".".toList = ['.'] from rfl, cutAt?_dot h]
  simp

theorem cut?_dot_of_mem {s : String} (h : '.' ∈ s.toList) :
    ∃ before after, cut? "." s = some (before, after) ∧ '.' ∉ before.toList := by
  obtain ⟨before, after, hlist, hfresh⟩ := List.eq_append_cons_of_mem h
  refine ⟨String.ofList before, String.ofList after, ?_, by simpa using hfresh⟩
  rw [cut?, hlist, show ".".toList = ['.'] from rfl, cutAt?_dot hfresh]
  rfl

end Text

/-- The kinds of objects in the order in which they are looked through for a name. -/
def Check.ObjectKind.searched : List ObjectKind :=
  [.func, .type, .var, .const]

/-- The place of a kind in the order in which kinds are looked through; methods and fields are not
found by their names alone and come last. -/
def SymbolKind.rank (k : SymbolKind) : Nat :=
  (k.object?.map ObjectKind.searched.idxOf).getD ObjectKind.searched.length

theorem Symbol.declared_tests (p : Package) :
    Symbol.declared p.key p.testFiles ⊆ Symbol.declared p.key (p.allFiles true) := by
  intro s hs
  rw [Package.allFiles, if_pos rfl, Symbol.declared, List.flatMap_append]
  exact List.mem_append_right _ hs

namespace SymbolTable

variable {table : SymbolTable} {name : String} {s t : Symbol} {k : ObjectKind}

theorem find?_eq (table : SymbolTable) (name : String) :
    table.find? name = ObjectKind.searched.findSome? fun k => (table.bucket k).lookup name :=
  rfl

theorem searched_of_object? {kind : SymbolKind} (h : kind.object? = some k) :
    k ∈ ObjectKind.searched := by
  cases kind <;> cases h <;> decide

theorem rank_of_object? {kind : SymbolKind} (h : kind.object? = some k) :
    kind.rank = ObjectKind.searched.idxOf k := by
  rw [SymbolKind.rank, h]
  rfl

theorem rank_le (kind : SymbolKind) : kind.rank ≤ ObjectKind.searched.length := by
  cases kind <;> decide

theorem mem_symbols_of_lookup (hk : k ∈ ObjectKind.searched)
    (h : (table.bucket k).lookup name = some s) : s ∈ table.symbols := by
  have hs : s ∈ (table.bucket k).map (·.2) := List.mem_map.mpr ⟨_, Dict.mem_of_lookup h, rfl⟩
  simp only [ObjectKind.searched, List.mem_cons, List.not_mem_nil, or_false] at hk
  simp only [symbols, List.mem_append]
  rcases hk with rfl | rfl | rfl | rfl
  · exact .inl (.inl (.inl (.inl hs)))
  · exact .inl (.inl (.inl (.inr hs)))
  · exact .inl (.inl (.inr hs))
  · exact .inl (.inr hs)

theorem Filed.cases_of_mem (h : table.Filed) (hs : s ∈ table.symbols) :
    (∃ k, s.kind.object? = some k ∧ s.name ≠ "_" ∧ (table.bucket k).lookup s.name = some s) ∨
      ∃ receiver ms, s.kind = .method ∧ s.receiver = some receiver ∧
        table.methods.lookup receiver = some ms ∧ s ∈ ms := by
  have hbucket : ∀ k, s ∈ (table.bucket k).map (·.2) →
      ∃ k, s.kind.object? = some k ∧ s.name ≠ "_" ∧ (table.bucket k).lookup s.name = some s := by
    intro k hs
    obtain ⟨e, he, rfl⟩ := List.mem_map.mp hs
    obtain ⟨hname, hblank, hk⟩ := h.named k e he
    exact ⟨k, hk, hname ▸ hblank, hname ▸ Dict.lookup_of_mem (h.names k) he⟩
  simp only [symbols, List.mem_append] at hs
  rcases hs with (((hs | hs) | hs) | hs) | hs
  · exact .inl (hbucket .func hs)
  · exact .inl (hbucket .type hs)
  · exact .inl (hbucket .var hs)
  · exact .inl (hbucket .const hs)
  · obtain ⟨e, he, hs⟩ := List.mem_flatMap.mp hs
    obtain ⟨hmethod, hreceiver⟩ := h.received e he s hs
    exact .inr ⟨e.1, e.2, hmethod, hreceiver, Dict.lookup_of_mem h.receivers he, hs⟩

theorem Filed.lookup_self (h : table.Filed) (hs : s ∈ table.symbols) (hkind : s.kind ≠ .method) :
    ∃ k, s.kind.object? = some k ∧ s.name ≠ "_" ∧ (table.bucket k).lookup s.name = some s := by
  obtain hs | ⟨_, _, hmethod, _⟩ := h.cases_of_mem hs
  · exact hs
  · exact (hkind hmethod).elim

theorem Filed.named_of_lookup (h : table.Filed) (hs : (table.bucket k).lookup name = some s) :
    s.name = name ∧ name ≠ "_" ∧ s.kind.object? = some k := by
  obtain ⟨hname, hblank, hk⟩ := h.named k _ (Dict.mem_of_lookup hs)
  exact ⟨hname.symm, hblank, hk⟩

theorem Filed.eq_of_rank (h : table.Filed) (hs : s ∈ table.symbols) (hskind : s.kind ≠ .method)
    (ht : t ∈ table.symbols) (htkind : t.kind ≠ .method) (hname : s.name = t.name)
    (hrank : s.kind.rank = t.kind.rank) : s = t := by
  obtain ⟨k, hk, -, hs⟩ := h.lookup_self hs hskind
  obtain ⟨k', hk', -, ht⟩ := h.lookup_self ht htkind
  rw [rank_of_object? hk, rank_of_object? hk'] at hrank
  obtain rfl := (List.idxOf_inj (searched_of_object? hk)).mp hrank
  rw [hname, ht] at hs
  exact (Option.some.inj hs).symm

theorem Filed.exists_find? (h : table.Filed) (hs : s ∈ table.symbols) (hkind : s.kind ≠ .method) :
    ∃ t, table.find? s.name = some t := by
  obtain ⟨k, hk, -, hlookup⟩ := h.lookup_self hs hkind
  rw [← Option.isSome_iff_exists, find?_eq, List.findSome?_isSome_iff]
  exact ⟨k, searched_of_object? hk, by rw [hlookup]; rfl⟩

/-- A name leads to the symbol of it whose kind is looked through first. -/
theorem Filed.find?_eq_some_iff (h : table.Filed) :
    table.find? name = some s ↔ s ∈ table.symbols ∧ s.kind ≠ .method ∧ s.name = name ∧
      ∀ t ∈ table.symbols, t.name = name → s.kind.rank ≤ t.kind.rank := by
  have hfound : ∀ {s}, table.find? name = some s → s ∈ table.symbols ∧ s.kind ≠ .method ∧
      s.name = name ∧ ∀ t ∈ table.symbols, t.name = name → s.kind.rank ≤ t.kind.rank := by
    intro s hs
    rw [find?_eq, List.findSome?_eq_some_iff] at hs
    obtain ⟨earlier, k, later, hsearched, hs, hnone⟩ := hs
    obtain ⟨hname, -, hk⟩ := h.named_of_lookup hs
    have hmem := mem_symbols_of_lookup (searched_of_object? hk) hs
    have hmethod : s.kind ≠ .method := fun he => by simp [he, SymbolKind.object?] at hk
    refine ⟨hmem, hmethod, hname, fun t ht htname => ?_⟩
    have hfresh : ∀ {k' t}, (table.bucket k').lookup name = some t → k' ∉ earlier := by
      intro k' t ht hmem
      rw [hnone k' hmem] at ht
      cases ht
    have hrank : s.kind.rank = earlier.length := by
      rw [rank_of_object? hk, hsearched, List.idxOf_append_of_notMem (hfresh hs),
        List.idxOf_cons_self, Nat.add_zero]
    rw [hrank]
    by_cases htmethod : t.kind = .method
    · rw [htmethod, ← hrank]
      exact rank_le s.kind
    · obtain ⟨k', hk', -, ht⟩ := h.lookup_self ht htmethod
      rw [rank_of_object? hk', hsearched, List.idxOf_append_of_notMem (hfresh (htname ▸ ht))]
      exact Nat.le_add_right _ _
  refine ⟨hfound, fun ⟨hs, hmethod, hname, hleast⟩ => ?_⟩
  obtain ⟨t, ht⟩ := h.exists_find? hs hmethod
  rw [hname] at ht
  obtain ⟨htmem, htmethod, htname, htleast⟩ := hfound ht
  have hrank := Nat.le_antisymm (hleast t htmem htname) (htleast s hs hname)
  rw [ht, h.eq_of_rank hs hmethod htmem htmethod (hname.trans htname.symm) hrank]

theorem rank_find?_le {p : Package} {tests : Bool}
    (hs : s ∈ Symbol.declared p.key (p.allFiles tests)) (hblank : s.name ≠ "_")
    (ht : (ofPackage p tests).find? s.name = some t) : t.kind.rank ≤ s.kind.rank := by
  obtain ⟨-, -, -, hleast⟩ := (filed_ofPackage p tests).find?_eq_some_iff.mp ht
  cases hk : s.kind.object? with
  | none =>
    rw [show s.kind.rank = ObjectKind.searched.length by rw [SymbolKind.rank, hk]; rfl]
    exact rank_le t.kind
  | some k =>
    have hnamed : ((Symbol.declared p.key (p.allFiles tests)).find? (·.isNamed k s.name)).isSome := by
      rw [List.find?_isSome]
      exact ⟨s, hs, by simp [Symbol.isNamed, hk]⟩
    rw [← lookup_ofPackage p tests k hblank] at hnamed
    obtain ⟨first, hfirst⟩ := Option.isSome_iff_exists.mp hnamed
    obtain ⟨hname, -, hk'⟩ := (filed_ofPackage p tests).named_of_lookup hfirst
    have hmem := mem_symbols_of_lookup (searched_of_object? hk) hfirst
    rw [rank_of_object? hk, ← rank_of_object? hk']
    exact hleast first hmem hname

end SymbolTable

namespace Session

variable {p : Package} {name : String} {s t : Symbol}

theorem ok_of_toOption {e : Except Failure Symbol} (h : e.toOption = some s) : e = .ok s := by
  cases e with
  | error failure => cases h
  | ok found => exact congrArg Except.ok (Option.some.inj h)

theorem resolve_buildTable (p : Package) (tests : Bool) (name : String) (u : Session) :
    (resolve p name (buildTable p tests u).2).1 =
      resolveIn p (SymbolTable.ofPackage p tests) name := by
  have hlookup : (buildTable p tests u).2.tables.lookup p.path =
      some (SymbolTable.ofPackage p tests) := by
    simp [buildTable, Dict.lookup_put]
  have htable : (table p (buildTable p tests u).2).1 = SymbolTable.ofPackage p tests := by
    unfold table tableWith
    rw [hlookup]
  rw [← htable]
  rfl

/-- A name without a dot that leads to anything but a method is looked up in the places of the kinds. -/
theorem resolveIn_eq_ok_iff {table : SymbolTable} (h : table.Filed) (hname : '.' ∉ name.toList)
    (hkind : s.kind ≠ .method) : resolveIn p table name = .ok s ↔ table.find? name = some s := by
  unfold resolveIn
  rw [Text.cut?_dot_eq_none hname]
  dsimp only
  constructor
  · intro hs
    split at hs
    · next hfound =>
      rw [hfound, Except.ok.inj hs]
    · next found _ hmethods =>
      have hfound := List.mem_singleton_self found
      rw [← hmethods, SymbolTable.methodsNamed, List.mem_filter, List.mem_flatMap] at hfound
      obtain ⟨⟨e, he, hfound⟩, -⟩ := hfound
      rw [← Except.ok.inj hs] at hkind
      exact (hkind (h.received e he found hfound).1).elim
    · cases hs
    · cases hs
  · intro hs
    rw [hs]

def reusedMain : ByteArray :=
  "package p\n\nvar x = 1\n\nfunc (r q.T) f() \x7b\x7d\n".toUTF8

def reusedTest : ByteArray :=
  "package p_test\n\nfunc x() \x7b\x7d\n".toUTF8

/-- The package with its trees. -/
def reused (main test : Tree) : Package :=
  Load.pairedPackage reusedMain reusedTest main test

/-- A session in which nothing has been asked yet. -/
def askReused (main test : Tree) : Session :=
  { workspace := Load.pairedWorkspace reusedMain reusedTest main test }

theorem parsed_reused : ∃ main ∈ parse? reusedMain, ∃ test ∈ parse? reusedTest,
    let p := reused main test
    (∃ s ∈ (resolveIn p (SymbolTable.ofPackage p false) "x").toOption, s.kind = .variable) ∧
    (Symbol.declared p.key p.testFiles).map (fun s => (s.name, s.kind, s.file)) =
      [("x", .function, "/ws/main_test.go")] ∧
    (SymbolTable.ofPackage p true).symbols.map (fun s => (s.name, s.kind, s.receiver)) =
      [("x", .function, none), ("x", .variable, none), ("f", .method, some "q.T")] := by
  decide +kernel

/-- The symbol a name leads to with tests is the one it leads to without, unless the test files
declare another one of that name whose kind is looked through earlier; that one is answered then. -/
theorem resolve_tests (p : Package) (name : String) (hname : '.' ∉ name.toList) (u v : Session)
    (hs : (resolve p name (buildTable p false u).2).1 = .ok s) (hkind : s.kind ≠ .method) :
    ∃ t, (resolve p name (buildTable p true v).2).1 = .ok t ∧ t.kind ≠ .method ∧ t.name = name ∧
      (t = s ∨ t ∈ Symbol.declared p.key p.testFiles ∧ t.kind.rank < s.kind.rank) ∧
      (t = s ↔ ∀ t' ∈ Symbol.declared p.key p.testFiles,
        t'.name = name → s.kind.rank ≤ t'.kind.rank) := by
  have hold := SymbolTable.filed_ofPackage p false
  have hnew := SymbolTable.filed_ofPackage p true
  rw [resolve_buildTable, resolveIn_eq_ok_iff hold hname hkind, hold.find?_eq_some_iff] at hs
  obtain ⟨hs, -, hsname, hleast⟩ := hs
  have hsnew := (SymbolTable.enters_tests p).extends.subset hold hs
  obtain ⟨k, -, hblank, -⟩ := hold.lookup_self hs hkind
  obtain ⟨t, ht⟩ := hnew.exists_find? hsnew hkind
  rw [hsname] at ht hblank
  obtain ⟨htmem, htkind, htname, htleast⟩ := hnew.find?_eq_some_iff.mp ht
  have hrank := htleast s hsnew hsname
  have hother : t = s ∨ t ∈ Symbol.declared p.key p.testFiles ∧ t.kind.rank < s.kind.rank := by
    rcases hrank.lt_or_eq with hlt | heq
    · refine .inr ⟨(SymbolTable.mem_or_declared_tests htmem).resolve_left fun htold => ?_, hlt⟩
      have hle := hleast t htold htname
      omega
    · exact .inl (hnew.eq_of_rank htmem htkind hsnew hkind (htname.trans hsname.symm) heq)
  refine ⟨t, ?_, htkind, htname, hother, ?_, ?_⟩
  · rw [resolve_buildTable, resolveIn_eq_ok_iff hnew hname htkind, ht]
  · rintro rfl t' ht' rfl
    exact SymbolTable.rank_find?_le (Symbol.declared_tests p ht') hblank ht
  · intro hnone
    rcases hother with he | ⟨hdeclared, hlt⟩
    · exact he
    · have hle := hnone t hdeclared htname
      omega

/-- A variable is not found any more once the tests are included, as a function of a test file has its
name. -/
theorem resolve_tests_reused : ∃ main test s t,
    parse? reusedMain = some main ∧ parse? reusedTest = some test ∧
    (resolve (reused main test) "x" (buildTable (reused main test) false (askReused main test)).2).1
      = .ok s ∧ s.kind = .variable ∧
    (resolve (reused main test) "x" (buildTable (reused main test) true (askReused main test)).2).1
      = .ok t ∧ t.kind = .function ∧ t.file = "/ws/main_test.go" := by
  obtain ⟨main, hmain, test, htest, ⟨s, hs, hkind⟩, hdeclared, -⟩ := parsed_reused
  have hs : (resolve (reused main test) "x"
      (buildTable (reused main test) false (askReused main test)).2).1 = .ok s := by
    rw [resolve_buildTable]
    exact ok_of_toOption hs
  obtain ⟨t, ht, -, -, hother, hsame⟩ := resolve_tests (reused main test) "x" (by decide)
    (askReused main test) (askReused main test) hs (by simp [hkind])
  have hdeclares : ∀ t' ∈ Symbol.declared (reused main test).key (reused main test).testFiles,
      t'.name = "x" ∧ t'.kind = .function ∧ t'.file = "/ws/main_test.go" := by
    intro t' ht'
    have hmem := List.mem_map_of_mem (f := fun s => (s.name, s.kind, s.file)) ht'
    rw [hdeclared, List.mem_singleton] at hmem
    simpa using hmem
  obtain ⟨t', ht', -⟩ := List.mem_map.mp (hdeclared ▸ List.mem_singleton_self _)
  have hne : t ≠ s := by
    intro he
    have hle := hsame.mp he t' ht' (hdeclares t' ht').1
    rw [hkind, (hdeclares t' ht').2.1] at hle
    revert hle
    decide
  obtain ⟨-, hfunction, hfile⟩ := hdeclares t (hother.resolve_left hne).1
  exact ⟨main, test, s, t, hmain, htest, hs, hkind, ht, hfunction, hfile⟩

theorem resolveIn_of_cut? {table : SymbolTable} {receiver method : String}
    (hcut : Text.cut? "." name = some (receiver, method)) : resolveIn p table name = .ok s ↔
      ((table.methods.lookup receiver).getD []).find? (·.name == method) = some s := by
  unfold resolveIn
  rw [hcut]
  dsimp only
  split
  · next found hfound => rw [hfound, Except.ok.injEq, Option.some.injEq]
  · next hnone =>
    rw [hnone]
    exact ⟨nofun, nofun⟩

theorem resolveIn_qualified {table : SymbolTable} (h : table.Filed) {receiver : String}
    {ms : List Symbol} (hms : table.methods.lookup receiver = some ms) (hs : s ∈ ms) :
    (∃ m, resolveIn p table (receiver ++ "." ++ s.name) = .ok m ∧ m.kind = .method ∧
      m.receiver = some receiver ∧ m.name = s.name) ↔ '.' ∉ receiver.toList := by
  constructor
  · rintro ⟨m, hm, -, hreceiver, -⟩ hdot
    obtain ⟨before, after, hcut, hfresh⟩ :=
      Text.cut?_dot_of_mem (s := receiver ++ "." ++ s.name) (by simp)
    have hmem := List.mem_of_find?_eq_some ((resolveIn_of_cut? hcut).mp hm)
    cases hlookup : table.methods.lookup before with
    | none => simp [hlookup] at hmem
    | some found =>
      rw [hlookup] at hmem
      have hbefore := (h.received _ (Dict.mem_of_lookup hlookup) m hmem).2
      obtain rfl : receiver = before := Option.some.inj (hreceiver.symm.trans hbefore)
      exact hfresh hdot
  · intro hfresh
    have hfound : (ms.find? (·.name == s.name)).isSome := by
      rw [List.find?_isSome]
      exact ⟨s, hs, beq_self_eq_true s.name⟩
    obtain ⟨m, hm⟩ := Option.isSome_iff_exists.mp hfound
    obtain ⟨hkind, hreceiver⟩ :=
      h.received _ (Dict.mem_of_lookup hms) m (List.mem_of_find?_eq_some hm)
    refine ⟨m, ?_, hkind, hreceiver, by simpa using List.find?_some hm⟩
    rw [resolveIn_of_cut? (Text.cut?_dot hfresh s.name), hms]
    exact hm

/-- Names lead back to what they are the names of. A symbol other than a method is answered for its name
unless another one bears it whose kind is looked through earlier; a method with the receiver and the name
of a method is answered for the two unless the receiver has a dot. -/
theorem resolve_roundTrip (p : Package) (tests : Bool)
    (hfiles : ∀ f ∈ p.allFiles tests, parse? f.content = some f.tree) (u : Session)
    (hs : s ∈ (SymbolTable.ofPackage p tests).symbols) :
    let symbols := (SymbolTable.ofPackage p tests).symbols
    let ask := fun name => (resolve p name (buildTable p tests u).2).1
    (s.kind ≠ .method →
      (∃ t ∈ symbols, ask s.name = .ok t ∧ t.kind ≠ .method ∧ t.name = s.name ∧
        t.kind.rank ≤ s.kind.rank) ∧
      (ask s.name = .ok s ↔ ∀ t ∈ symbols, t.name = s.name → s.kind.rank ≤ t.kind.rank)) ∧
    (s.kind = .method → ∃ receiver, s.receiver = some receiver ∧
      s.qualifiedName = receiver ++ "." ++ s.name ∧
      ((∃ m, ask s.qualifiedName = .ok m ∧ m.kind = .method ∧ m.receiver = some receiver ∧
        m.name = s.name) ↔ '.' ∉ receiver.toList)) := by
  intro symbols ask
  have hfiled := SymbolTable.filed_ofPackage p tests
  have hdeclared := SymbolTable.declared_of_mem hs
  have hask : ∀ name, ask name = resolveIn p (SymbolTable.ofPackage p tests) name :=
    fun name => resolve_buildTable p tests name u
  refine ⟨fun hkind => ?_, fun hkind => ?_⟩
  · have hdot := (Symbol.name_of_declared hfiles hdeclared).2
    refine ⟨?_, ?_⟩
    · obtain ⟨t, ht⟩ := hfiled.exists_find? hs hkind
      obtain ⟨htmem, htkind, htname, htleast⟩ := hfiled.find?_eq_some_iff.mp ht
      refine ⟨t, htmem, ?_, htkind, htname, htleast s hs rfl⟩
      rw [hask, resolveIn_eq_ok_iff hfiled hdot htkind, ht]
    · rw [hask, resolveIn_eq_ok_iff hfiled hdot hkind, hfiled.find?_eq_some_iff]
      exact ⟨fun h => h.2.2.2, fun h => ⟨hs, hkind, rfl, h⟩⟩
  · obtain ⟨k, hk, -⟩ | ⟨receiver, ms, -, hreceiver, hms, hmem⟩ := hfiled.cases_of_mem hs
    · simp [hkind, SymbolKind.object?] at hk
    · have hne := Symbol.receiver_of_declared hfiles hdeclared hreceiver
      have hqualified : s.qualifiedName = receiver ++ "." ++ s.name := by
        simp only [Symbol.qualifiedName, hreceiver, if_neg hne]
      refine ⟨receiver, hreceiver, hqualified, ?_⟩
      rw [hqualified, hask]
      exact resolveIn_qualified hfiled hms hmem

/-- The variable of which the name is used again does not come back with the tests, nor does the method
of a type of another package. -/
theorem resolve_roundTrip_reused : ∃ main test s m,
    parse? reusedMain = some main ∧ parse? reusedTest = some test ∧
    let p := reused main test
    let asked := (buildTable p true (askReused main test)).2
    s ∈ (SymbolTable.ofPackage p true).symbols ∧ s.name = "x" ∧ s.kind = .variable ∧
    (resolve p s.name asked).1 ≠ .ok s ∧
    m ∈ (SymbolTable.ofPackage p true).symbols ∧ m.qualifiedName = "q.T.f" ∧ m.kind = .method ∧
    ¬∃ found, (resolve p m.qualifiedName asked).1 = .ok found ∧ found.kind = .method ∧
      found.receiver = some "q.T" ∧ found.name = m.name := by
  obtain ⟨main, hmain, test, htest, -, -, heval⟩ := parsed_reused
  have hfind : ∀ e ∈ [("x", SymbolKind.function, none), ("x", .variable, none),
      ("f", .method, some "q.T")], ∃ s ∈ (SymbolTable.ofPackage (reused main test) true).symbols,
        (s.name, s.kind, s.receiver) = e := by
    intro e he
    rw [← heval] at he
    exact List.mem_map.mp he
  obtain ⟨t, ht, htparts⟩ := hfind _ (List.mem_cons_self)
  obtain ⟨s, hs, hsparts⟩ := hfind ("x", .variable, none) (by simp)
  obtain ⟨m, hm, hmparts⟩ := hfind ("f", .method, some "q.T") (by simp)
  simp only [Prod.mk.injEq] at htparts hsparts hmparts
  obtain ⟨htname, htkind, -⟩ := htparts
  obtain ⟨hsname, hskind, -⟩ := hsparts
  obtain ⟨hmname, hmkind, hmreceiver⟩ := hmparts
  have hfiles : ∀ f ∈ (reused main test).allFiles true, parse? f.content = some f.tree := by
    intro f hf
    simp only [Package.allFiles, if_true, reused, Load.pairedPackage, Load.solePackage,
      List.cons_append, List.nil_append, List.mem_cons, List.not_mem_nil, or_false] at hf
    rcases hf with rfl | rfl
    · exact hmain
    · exact htest
  have hvariable := (resolve_roundTrip (reused main test) true hfiles (askReused main test) hs).1
    (by simp [hskind])
  obtain ⟨receiver, hreceiver, hqualified, hmethod⟩ :=
    (resolve_roundTrip (reused main test) true hfiles (askReused main test) hm).2 hmkind
  obtain rfl : "q.T" = receiver := Option.some.inj (hmreceiver.symm.trans hreceiver)
  refine ⟨main, test, s, m, hmain, htest, hs, hsname, hskind, fun hok => ?_, hm, ?_, hmkind,
    fun hfound => ?_⟩
  · have hle := hvariable.2.mp hok t ht (htname.trans hsname.symm)
    rw [hskind, htkind] at hle
    revert hle
    decide
  · rw [hqualified, hmname]
    decide
  · exact hmethod.mp hfound (by decide)

end Session

end GoAtlas
