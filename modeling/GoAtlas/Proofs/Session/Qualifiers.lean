import GoAtlas.Proofs.Check.Imported
import GoAtlas.Proofs.Session.Resolution
import GoAtlas.Proofs.Session.RoundTrip
import GoAtlas.Proofs.Symbol.PackageNames

namespace GoAtlas

open Syntax Check Reference

namespace Reference

variable {root k : Tree} {p gp : Option Tree} {s : Site} {size : Nat}

mutual
theorem parent_mem : (t : Tree) → ∀ p gp, ∀ s ∈ sites p gp t,
    s.parent = p ∨ ∃ q ∈ t.walk, s.parent = some q
  | .node k f sp cs, p, gp, s, hs => by
    rcases List.mem_cons.mp hs with rfl | hs
    · exact .inl rfl
    · obtain hp | ⟨q, hq, hp⟩ := parentOf_mem cs _ _ s hs
      · exact .inr ⟨_, Tree.self_mem_walk _, hp⟩
      · exact .inr ⟨q, List.mem_cons_of_mem _ hq, hp⟩

theorem parentOf_mem : (ts : List Tree) → ∀ p gp, ∀ s ∈ sitesOf p gp ts,
    s.parent = p ∨ ∃ q ∈ Tree.walkAll ts, s.parent = some q
  | [], _, _, _, hs => by cases hs
  | t :: ts, p, gp, s, hs => by
    rcases List.mem_append.mp hs with hs | hs
    · obtain hp | ⟨q, hq, hp⟩ := parent_mem t p gp s hs
      · exact .inl hp
      · exact .inr ⟨q, List.mem_append_left _ hq, hp⟩
    · obtain hp | ⟨q, hq, hp⟩ := parentOf_mem ts p gp s hs
      · exact .inl hp
      · exact .inr ⟨q, List.mem_append_right _ hq, hp⟩
end

namespace Site

/-- The name an identifier is chosen from: that of a package in a type, or the operand of a
selector. -/
def qualifier? (s : Site) : Option Tree :=
  s.parent.bind fun parent =>
    if s.node.kind = .typeIdentifier then
      if parent.kind = .qualifiedType then parent.part? .package else none
    else if parent.kind = .selectorExpression ∧ s.node.field ≠ some .operand then
      (parent.part? .operand).filter (·.kind = .identifier)
    else none

theorem classify_of_qualifier? (source : ByteArray) (hk : s.qualifier? = some k) :
    (s.classify source).2 = some (k.text source) := by
  obtain ⟨parent, hparent, hk⟩ := Option.bind_eq_some_iff.mp hk
  unfold classify
  simp only [hparent]
  by_cases htype : s.node.kind = .typeIdentifier
  · simp only [htype, if_true] at hk ⊢
    split at hk
    · next hq =>
      rw [if_pos hq, hk]
      rfl
    · cases hk
  · simp only [htype, if_false] at hk ⊢
    split at hk
    · next hselector =>
      rw [if_pos hselector.1, if_neg hselector.2, qualifierOf, hk]
      rfl
    · cases hk

theorem mem_of_qualifier? (hr : Parsed size root)
    (hs : s ∈ sitesOf (some root) none root.children) (hk : s.qualifier? = some k) :
    k ∈ Tree.walkAll root.children ∧ k.kind.isIdentifier := by
  obtain ⟨parent, hparent, hk⟩ := Option.bind_eq_some_iff.mp hk
  have hpart : ∃ part, parent.part? part = some k ∧
      (parent.kind = .qualifiedType ∧ part = .package ∨
        parent.kind = .selectorExpression ∧ k.kind = .identifier) := by
    split at hk
    · split at hk
      · next hq => exact ⟨.package, hk, .inl ⟨hq, rfl⟩⟩
      · cases hk
    · split at hk
      · next hselector =>
        obtain ⟨hpart, hkind⟩ := Option.filter_eq_some_iff.mp hk
        exact ⟨.operand, hpart, .inr ⟨hselector.1, of_decide_eq_true hkind⟩⟩
      · cases hk
  obtain ⟨part, hpart, hkind⟩ := hpart
  obtain ⟨hchild, hfield⟩ := mem_of_part? hpart
  obtain hroot | ⟨q, hq, he⟩ := parentOf_mem root.children (some root) none s hs
  · -- the root is neither a type nor an expression
    obtain rfl := Option.some.inj (hparent.symm.trans hroot)
    rw [hr.kind] at hkind
    rcases hkind with ⟨hkind, -⟩ | ⟨hkind, -⟩ <;> cases hkind
  · obtain rfl := Option.some.inj (hparent.symm.trans he)
    have hlaid := (Tree.walkAll_within _ _ _ _ hr.row parent hq).2.2
    obtain ⟨t, ht, hwalk⟩ := Tree.exists_of_mem_walkAll hq
    have hmem := Tree.walk_trans t hwalk (Tree.child_mem_walk hchild k.self_mem_walk)
    refine ⟨Tree.mem_walkAll ht hmem, ?_⟩
    rcases hkind with ⟨hkind, rfl⟩ | ⟨-, hkind⟩
    · have hadmits := (hlaid.row.mem hchild).2.2.2
      rw [hkind, hfield] at hadmits
      rw [Kind.eq_of_admits hadmits rfl]
      rfl
    · rw [hkind]
      rfl

end Site

end Reference

theorem SourceFile.text_of_isIdentifier {f : SourceFile} {t : Tree}
    (hf : parse? f.content = some f.tree) (ht : t ∈ Tree.walkAll f.tree.children)
    (hk : t.kind.isIdentifier) : f.text t ≠ "" ∧ '.' ∉ (f.text t).toList := by
  obtain ⟨-, hstop, hlaid⟩ := Tree.walkAll_within _ _ _ _ (parse?_spelled hf).row t ht
  exact ⟨hlaid.text_ne_empty (Kind.isMark_of_isIdentifier hk) hstop,
    Text.not_mem_dot_of_isWord (hlaid.word hk)⟩

theorem SymbolKind.ne_method_of_object? {kind : SymbolKind} {k : ObjectKind}
    (h : kind.object? = some k) : kind ≠ .method := by
  rintro rfl
  cases h

namespace Load

def renamedOuter : ByteArray :=
  "package a\n\nimport \"m/b\"\n\nvar X = c.Y\n".toUTF8

def renamedInner : ByteArray :=
  "package c\n\nvar Y = 1\n".toUTF8

end Load

namespace Session

variable {ws : Workspace} {p target : Package} {f : SourceFile} {s : Session}

theorem packageOfSite_of_qualifier? {site : Site} {k : Tree} (hk : site.qualifier? = some k)
    (hne : f.text k ≠ "") :
    packageOfSite ws p f site = (importedPackage? ws f (f.text k)).getD p := by
  unfold packageOfSite
  rw [Site.classify_of_qualifier? f.content hk]
  exact if_neg hne

/-- A qualifier that denotes an import stands for the package the import leads to, if imports go by
the names their paths suggest. -/
theorem packageOfSite_eq {c : Checks} (hws : ws.Loaded) (hp : p ∈ ws.packages) (hf : f ∈ p.files)
    (hended : Checks.Ended ws c p) {info : TypeInfo} (hinfo : c.info? p = some info) {site : Site}
    (hsite : site ∈ sitesOf (some f.tree) none f.tree.children) {k : Tree}
    (hk : site.qualifier? = some k) {m : Object}
    (hm : info.uses.lookup ⟨f.path, k.start⟩ = some m) (himport : m.IsImport)
    (htarget : ws.packageForImport? m.package = some target) (hsuggests : ws.Suggests f)
    (hblank : f.text k ≠ "_") : packageOfSite ws p f site = target := by
  have hfws := Workspace.files_subset hp hf
  have hparse := (hws.registered f hfws).parsed
  have hr := parse?_parsed hparse
  obtain ⟨hmem, hident⟩ := Site.mem_of_qualifier? hr hsite hk
  obtain ⟨hne, hdots⟩ := SourceFile.text_of_isIdentifier hparse hmem hident
  have hdot : f.text k ≠ "." := fun he => hdots (by rw [he]; decide)
  have hname : m.name = f.text k := by
    obtain ⟨-, ⟨g, hg, hpath, t, ht, hti, hstart, htext⟩, -⟩ :=
      (hended.recorded hws hp hinfo).1.used _ m hm
    obtain rfl := (Checks.apart_files hws hp).eq hg hf hpath
    obtain rfl := hr.row.mark_eq ht hmem (Kind.isMark_of_isIdentifier hti)
      (Kind.isMark_of_isIdentifier hident) hstart
    exact htext.symm
  obtain ⟨l, answers, hresolves, hfound⟩ := hended.imported hws hp hinfo hf hm himport
  rw [hname] at hfound
  obtain ⟨i, hi, hpath⟩ :=
    Option.map_eq_some_iff.mp (hresolves.find?_localName hsuggests hblank hdot hfound)
  have hpackage : importedPackage? ws f (f.text k) = some target := by
    rw [importedPackage?, hi, Option.bind_some, hpath, htarget]
  rw [packageOfSite_of_qualifier? hk hne, hpackage, Option.getD_some]

theorem query_get_bind {β : Type} (k : Session → Query β) (s : Session) :
    (get >>= k : Query β) s = k s s :=
  rfl

theorem definition_plain (hws : ws.Loaded) (hs : s.Valid ws) (hp : p ∈ ws.packages)
    (hf : f ∈ p.files) (real : String) {offset : Int} {site : Site}
    (hsite : site ∈ Site.covering f.tree offset) :
    (definition false f.path real offset s).1 =
      resolveIn (packageOfSite ws p f site) (s.tableOf (packageOfSite ws p f site))
        (f.text site.node) := by
  have hfws := Workspace.files_subset hp hf
  have hfile : (ws.file? f.path).or (ws.file? real) = some f := by
    rw [file?_eq hws hfws, Option.some_or]
  have hidentifier := identifierAt?_eq (hws.parsed f hfws).choose_spec hsite
  have hpackage := hws.packageOfFile? hp (List.mem_append_left p.testFiles hf)
  have hdefinition : definition false f.path real offset s =
      resolve (packageOfSite ws p f site) (f.text site.node) s := by
    unfold definition
    rw [query_get_bind]
    simp only [hs.workspace, hfile, hpackage, hidentifier]
    rfl
  rw [hdefinition]
  exact resolve_spec hws.distinct (packageOfSite_mem hp f site) _ s

theorem naming_of_bound {name : String} {o : Object}
    (ho : (Declared.ofFiles target.key target.files).names.lookup name = some o) :
    ∃ g ∈ target.files, ∃ n ∈ Naming.ofFile g, g.text n.name = name ∧
      n.kind.object? = some o.kind ∧ o.spot = some ⟨g.path, n.name.start⟩ ∧
      (name ≠ "_" → ((SymbolTable.ofPackage target false).bucket o.kind).lookup name =
        some (n.symbol g target.key)) := by
  obtain ⟨x, hx, hspot⟩ := Naming.first_of_lookup ho
  obtain ⟨g, hg, hmem⟩ := List.mem_flatMap.mp (List.mem_of_find?_eq_some hx)
  obtain ⟨n, hn, rfl⟩ := List.mem_map.mp hmem
  have hnamed := List.find?_some hx
  obtain ⟨hk, hname⟩ := Bool.and_eq_true_iff.mp hnamed
  refine ⟨g, hg, n, hn, beq_iff_eq.mp hname, of_decide_eq_true hk, hspot, fun hblank => ?_⟩
  rw [SymbolTable.lookup_bucket hblank, hx]
  rfl

theorem Valid.mem_tableOf {symbol : Symbol} (hs : s.Valid ws) (hp : p ∈ ws.packages)
    (hsymbol : symbol ∈ (SymbolTable.ofPackage p false).symbols) :
    symbol ∈ (s.tableOf p).symbols := by
  obtain ⟨tests, htable⟩ := hs.tableOf hp
  rw [htable]
  cases tests with
  | false => exact hsymbol
  | true =>
    have hfiled := SymbolTable.filed_ofPackage p false
    exact (SymbolTable.enters_tests p).extends.subset hfiled hsymbol

/-- Where the name of a symbol is looked up, the symbol is found if the package is its own and no
symbol of the same name is looked through earlier. -/
theorem Valid.resolveIn_own_iff {named : Package} {symbol : Symbol} (hws : ws.Loaded)
    (hs : s.Valid ws) (htarget : target ∈ ws.packages) (hnamed : named ∈ ws.packages)
    (hsymbol : symbol ∈ (s.tableOf target).symbols) (hkind : symbol.kind ≠ .method)
    (hdot : '.' ∉ symbol.name.toList) :
    resolveIn named (s.tableOf named) symbol.name = .ok symbol ↔ named = target ∧
      ∀ other ∈ (s.tableOf target).symbols, other.name = symbol.name →
        symbol.kind.rank ≤ other.kind.rank := by
  obtain ⟨tests, htable⟩ := hs.tableOf htarget
  have hfiled : (s.tableOf target).Filed := htable ▸ SymbolTable.filed_ofPackage target tests
  have hown : resolveIn target (s.tableOf target) symbol.name = .ok symbol ↔
      ∀ other ∈ (s.tableOf target).symbols, other.name = symbol.name →
        symbol.kind.rank ≤ other.kind.rank := by
    rw [resolveIn_eq_ok_iff hfiled hdot hkind, hfiled.find?_eq_some_iff]
    exact ⟨fun h => h.2.2.2, fun h => ⟨hsymbol, hkind, rfl, h⟩⟩
  constructor
  · intro hok
    -- a symbol is listed by the table of its own package only
    obtain ⟨f, hf, n, -, hn⟩ := hs.declared hnamed (mem_of_resolveIn hok)
    obtain ⟨g, hg, m, -, hm⟩ := hs.declared htarget hsymbol
    have hpath : f.path = g.path := congrArg Symbol.file (hn.trans hm.symm)
    obtain rfl := hws.package_eq hnamed htarget hf hg hpath
    exact ⟨rfl, hown.mp hok⟩
  · rintro ⟨rfl, hfirst⟩
    exact hown.mpr hfirst

theorem Valid.declaring?_blank {o : Object} (hws : ws.Loaded) (hs : s.Valid ws)
    (htarget : target ∈ ws.packages)
    (hbound : (Declared.ofFiles target.key target.files).names.lookup "_" = some o) :
    declaring? ws s o ws.packages = none := by
  obtain ⟨g, hg, n, hn, hname, hkind, hspot, -⟩ := naming_of_bound hbound
  have hgws := Workspace.files_subset htarget hg
  cases hd : declaring? ws s o ws.packages with
  | none => rfl
  | some symbol =>
    obtain ⟨q, hq, hmem, hdeclared⟩ := mem_of_declaring? hd
    obtain ⟨tests, htable⟩ := hs.tableOf hq
    obtain ⟨f, hf, m, hm, rfl⟩ := hs.declared hq hmem
    have hfws := Workspace.mem_files hq hf
    obtain ⟨size, hr⟩ := hws.parsed f hfws
    rw [(Naming.names (Naming.stands_ofFile hr hm)).isDeclaredBy_iff hws hfws, hspot] at hdeclared
    obtain ⟨hpath, hstart⟩ := Spot.mk.inj (Option.some.inj hdeclared)
    obtain rfl := hws.file_eq hfws hgws hpath.symm
    obtain rfl := Naming.eq_of_start hr hm hn hstart.symm
    -- a symbol that is found by its kind and its name does not have the blank one
    have hmethod : (m.symbol f q.key).kind ≠ .method := SymbolKind.ne_method_of_object? hkind
    rw [htable] at hmem
    obtain ⟨-, -, hblank, -⟩ := (SymbolTable.filed_ofPackage q tests).lookup_self hmem hmethod
    exact (hblank hname).elim

section

variable {real : String} {offset : Int} {site : Site} {info : TypeInfo} {o : Object}

/-- Where a name denotes what a package binds it to, it is looked up by the object or by the name with
the same result if it is looked up in that package and no symbol of the name stands in the way. -/
theorem Valid.definition_bound (hws : ws.Loaded) (hs : s.Valid ws) (hp : p ∈ ws.packages)
    (hf : f ∈ p.files) (hsite : site ∈ Site.covering f.tree offset)
    (hi : (definition true f.path real offset s).2.checks.info? p = some info)
    (ho : info.uses.lookup ⟨f.path, site.node.start⟩ = some o) (htarget : target ∈ ws.packages)
    (hbound : (Declared.ofFiles target.key target.files).names.lookup (f.text site.node) = some o) :
    (f.text site.node = "_" →
      (definition false f.path real offset s).1 = (definition true f.path real offset s).1) ∧
    (f.text site.node ≠ "_" → ∃ symbol ∈ (s.tableOf target).symbols,
      (definition true f.path real offset s).1 = .ok symbol ∧ symbol.Declares ws o ∧
      symbol.name = f.text site.node ∧
      ((definition false f.path real offset s).1 = .ok symbol ↔
        packageOfSite ws p f site = target ∧ ∀ other ∈ (s.tableOf target).symbols,
          other.name = symbol.name → symbol.kind.rank ≤ other.kind.rank)) := by
  obtain ⟨hleads, htyped⟩ := definition_spec hws hs hp hf hsite hi ho
  have hplain := definition_plain hws hs hp hf real hsite
  rw [htyped, hplain]
  constructor
  · intro hblank
    rw [hblank] at hbound
    rw [hs.declaring?_blank hws htarget hbound]
  · intro hblank
    obtain ⟨g, hg, n, hn, hname, hkind, hspot, hlookup⟩ := naming_of_bound hbound
    have hgws := Workspace.files_subset htarget hg
    have hparse := (hws.registered g hgws).parsed
    have hstands := Naming.stands_ofFile (parse?_parsed hparse) hn
    have hdeclares : (n.symbol g target.key).Declares ws o :=
      ⟨g, hgws, n.name, Naming.names hstands, hspot⟩
    have hspelled : o.Spelled ws.filesOf :=
      ((hleads.valid.ended p hp (Checks.begun_of_info hi)).founded hws hp hi _
        (Dict.mem_of_lookup ho)).1
    have hsymbol := hs.mem_tableOf htarget
      (SymbolTable.mem_symbols_of_lookup (SymbolTable.searched_of_object? hkind) (hlookup hblank))
    have hmethod : (n.symbol g target.key).kind ≠ .method := SymbolKind.ne_method_of_object? hkind
    have hdot : '.' ∉ (n.symbol g target.key).name.toList := (Naming.spelled_ofFile hparse hn).2
    have hname : (n.symbol g target.key).name = f.text site.node := hname
    refine ⟨n.symbol g target.key, hsymbol, ?_, hdeclares, hname, ?_⟩
    · rw [declaring?_eq hws hs htarget hsymbol hspelled hdeclares]
    · rw [← hname]
      exact hs.resolveIn_own_iff hws htarget (packageOfSite_mem hp f site) hsymbol hmethod hdot

end

/-- A name chosen from a package, where the name of the package denotes one of its imports and the name
chosen denotes what the package binds it to. By types it leads to the symbol declared there, and by name
to the same one exactly if the qualifier stands for the package and no symbol of the same name is looked
through earlier. The qualifier does so if the imports of the file go by the names their paths suggest;
the blank name is looked up by name either way. -/
theorem definition_qualified {store : Files.Store} {root : String} {respectIgnore : Bool}
    {log : List LogRecord} (hstore : store.Proper)
    (hload : Load.workspace store root respectIgnore = (.ok ws, log)) (qs : List (Question ws))
    (hp : p ∈ ws.packages) (hf : f ∈ p.files) {real : String} {offset : Int} {site : Site}
    (hsite : site ∈ Site.covering f.tree offset) {k : Tree} (hk : site.qualifier? = some k)
    {info : TypeInfo}
    (hi : (definition true f.path real offset (askAll { workspace := ws } qs)).2.checks.info? p =
      some info)
    {m o : Object} (hm : info.uses.lookup ⟨f.path, k.start⟩ = some m) (himport : m.IsImport)
    (htarget : ws.packageForImport? m.package = some target)
    (ho : info.uses.lookup ⟨f.path, site.node.start⟩ = some o)
    (hbound : (Declared.ofFiles target.key target.files).names.lookup (f.text site.node) = some o) :
    let before := askAll { workspace := ws } qs
    let typed := (definition true f.path real offset before).1
    let plain := (definition false f.path real offset before).1
    let table := before.tableOf target
    (f.text site.node = "_" → plain = typed) ∧
    (f.text site.node ≠ "_" → ∃ symbol ∈ table.symbols, typed = .ok symbol ∧
      symbol.Declares ws o ∧ symbol.name = f.text site.node ∧
      (plain = .ok symbol ↔ packageOfSite ws p f site = target ∧
        ∀ other ∈ table.symbols, other.name = symbol.name →
          symbol.kind.rank ≤ other.kind.rank)) ∧
    (ws.Suggests f → f.text k ≠ "_" → packageOfSite ws p f site = target) := by
  intro before typed plain table
  have hws := Load.loaded hstore hload
  have hvalid : before.Valid ws := ((valid_fresh ws).askAll hws.distinct qs).valid
  have htargetmem := Workspace.mem_of_packageForImport htarget
  obtain ⟨hblank, hfound⟩ := hvalid.definition_bound hws hp hf hsite hi ho htargetmem hbound
  have hleads := (definition_spec hws hvalid hp hf hsite hi ho).1
  have hended := hleads.valid.ended p hp (Checks.begun_of_info hi)
  refine ⟨hblank, hfound, fun hsuggests hq => ?_⟩
  exact packageOfSite_eq hws hp hf hended hi (Site.mem_covering.mp hsite).1 hk hm himport htarget
    hsuggests hq

/-- A package that is imported by its directory and goes by the name it declares: the variable chosen
from it is found by types, and not found by name. -/
theorem definition_qualified_renamed : ∃ ws log symbol,
    Load.workspace (Load.nested Load.renamedOuter Load.renamedInner) "/ws" true = (.ok ws, log) ∧
    (definition true "/ws/a.go" "/ws/a.go" 35 { workspace := ws }).1 = .ok symbol ∧
    symbol.name = "Y" ∧
    ∀ found, (definition false "/ws/a.go" "/ws/a.go" 35 { workspace := ws }).1 ≠ .ok found := by
  have hstore := (Load.sound_nested Load.renamedOuter Load.renamedInner).proper
  obtain ⟨t, ht, u, hu, ⟨site, hsite, hstart, ⟨k, hk, hkstart⟩, htext⟩,
      ⟨info, hi, hqualifier, o, ho, hbound⟩, hplain⟩ :
      ∃ t ∈ parse? Load.renamedOuter, ∃ u ∈ parse? Load.renamedInner,
        (∃ site ∈ Site.covering t 35, site.node.start = 35 ∧
          (∃ k ∈ site.qualifier?, k.start = 33) ∧ site.node.text Load.renamedOuter = "Y") ∧
        let ws := Load.nestedWorkspace Load.renamedOuter Load.renamedInner t u
        let p := Load.nestedOuter Load.renamedOuter t
        let target := Load.nestedInner Load.renamedOuter Load.renamedInner u
        let answer := definition true "/ws/a.go" "/ws/a.go" 35 { workspace := ws }
        (∃ info ∈ answer.2.checks.info? p, info.uses.lookup ⟨"/ws/a.go", 33⟩ =
            some { name := "c", kind := .package, package := "m/b" } ∧
          ∃ o ∈ info.uses.lookup ⟨"/ws/a.go", 35⟩,
            (Declared.ofFiles target.key target.files).names.lookup "Y" = some o) ∧
          (definition false "/ws/a.go" "/ws/a.go" 35 { workspace := ws }).1.toOption.isSome =
            false := by
    decide +kernel
  obtain ⟨log, hload⟩ := (Load.nested_nested Load.renamedOuter Load.renamedInner).workspace ht hu
  have htext : (Load.soleFile "/ws/a.go" Load.renamedOuter t {}).text site.node = "Y" := htext
  have hkeyed := (Load.loaded hstore hload).keyed rfl (by decide)
  have hf := List.mem_singleton_self (Load.soleFile "/ws/a.go" Load.renamedOuter t {})
  rw [← Load.files_nestedOuter] at hf
  have hfound := (definition_qualified hstore hload [] List.mem_cons_self hf hsite hk hi
    (hkstart ▸ hqualifier) ⟨rfl, rfl⟩ (hkeyed _ (List.mem_cons_of_mem _ List.mem_cons_self))
    (hstart ▸ ho) (htext ▸ hbound)).2.1
  obtain ⟨symbol, -, hok, -, hname, -⟩ := hfound (by rw [htext]; decide)
  refine ⟨_, log, symbol, hload, hok, hname.trans htext, fun found hfound => ?_⟩
  rw [hfound] at hplain
  cases hplain

end Session

end GoAtlas
