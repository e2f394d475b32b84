import GoAtlas.Proofs.Check.Effects
import GoAtlas.Proofs.Check.TopLevel
import GoAtlas.Symbol.Table

namespace GoAtlas

open Syntax Check Reference

/-- A name with the node that declares it and what it is the name of. -/
structure Naming where
  name : Tree
  holder : Tree
  kind : SymbolKind
  signature : Option String
  receiver : Option String

namespace Naming

def symbol (f : SourceFile) (package : String) (n : Naming) : Symbol :=
  .ofNodes f package n.name n.holder n.kind n.signature n.receiver

def ofFunction (source : ByteArray) (t : Tree) : List Naming :=
  (t.part? .name).toList.map fun name =>
    let signature := some (Symbol.signatureOf source (name.text source) t)
    if t.kind = .methodDeclaration then
      let receiver := t.receiverName source
      ⟨name, t, .method, signature, if receiver = "" then none else some receiver⟩
    else ⟨name, t, .function, signature, none⟩

def ofInterface (source : ByteArray) (receiver : String) (type : Tree) : List Naming :=
  (type.named.filter (·.kind = .methodElem)).flatMap fun e =>
    (e.part? .name).toList.map fun name =>
      ⟨name, e, .method, some (Symbol.signatureOf source (name.text source) e), some receiver⟩

def ofType (source : ByteArray) (spec : Tree) : List Naming :=
  (spec.part? .name).toList.flatMap fun name =>
    let type? := (spec.part? .type).filter (·.kind = .interfaceType)
    ⟨name, spec, if type?.isSome then .interface else .type, none, none⟩ ::
      type?.toList.flatMap (ofInterface source (name.text source))

def ofValue (kind : SymbolKind) (spec : Tree) : List Naming :=
  (spec.parts .name).map fun name => ⟨name, spec, kind, none, none⟩

def ofDeclaration (source : ByteArray) (t : Tree) : List Naming :=
  match t.kind with
  | .functionDeclaration | .methodDeclaration => ofFunction source t
  | .typeDeclaration => t.typeSpecs.flatMap (ofType source)
  | .varDeclaration => (t.specs .varSpec).flatMap (ofValue .variable)
  | .constDeclaration => (t.specs .constSpec).flatMap (ofValue .constant)
  | _ => []

def ofFile (f : SourceFile) : List Naming :=
  f.tree.named.flatMap (ofDeclaration f.content)

/-- A naming stands at a site that declares, and its name is an identifier unless it is a comma
between the names of a constant. -/
structure Stands (root : Tree) (n : Naming) : Prop where
  top : TopName root n.name ∨ n.name.kind = .fieldIdentifier
  site : ∃ s ∈ sitesOf (some root) none root.children, s.node = n.name ∧ s.isDeclaration
  kind : n.name.kind.isIdentifier ∨ n.name.kind = .token "," ∧ n.kind = .constant

variable {source : ByteArray} {root q d t spec type : Tree} {size : Nat} {n : Naming}
  {receiver : String}

theorem Stands.mem (h : n.Stands root) : n.name ∈ Tree.walkAll root.children := by
  obtain ⟨s, hs, he, -⟩ := h.site
  rw [← he]
  exact mem_walkAll_of_mem_sitesOf hs

theorem Stands.mark (h : n.Stands root) : n.name.kind.isMark := by
  rcases h.kind with hi | ⟨hk, -⟩
  · exact Kind.isMark_of_isIdentifier hi
  · rw [hk]
    rfl

theorem stands_of_declares (hr : Parsed size root) (h : Declares root q d)
    (hn : n.name ∈ d.parts .name) (hk : d.kind = .constSpec → n.kind = .constant) :
    n.Stands root := by
  have htop : TopName root n.name := ⟨q, d, h, hn⟩
  obtain ⟨hmem, hf⟩ := List.mem_filter.mp hn
  have hadmits := ((h.laid hr).row.mem hmem).2.2.2
  rw [of_decide_eq_true hf] at hadmits
  exact ⟨.inl htop, htop.site,
    (TopName.isIdentifier_or_comma h hadmits).imp_right (.imp_right hk)⟩

theorem mem_ofFunction (hn : n ∈ ofFunction source t) : t.part? .name = some n.name := by
  obtain ⟨name, hname, he⟩ := List.mem_map.mp hn
  have hname : t.part? .name = some name := by simpa using hname
  split at he
  · rw [← he, hname]
  · rw [← he, hname]

theorem mem_ofInterface (hn : n ∈ ofInterface source receiver type) :
    n.kind = .method ∧ ∃ e ∈ type.children, e.kind = .methodElem ∧ e.part? .name = some n.name := by
  obtain ⟨e, he, hn⟩ := List.mem_flatMap.mp hn
  obtain ⟨he, hk⟩ := List.mem_filter.mp he
  obtain ⟨name, hname, rfl⟩ := List.mem_map.mp hn
  exact ⟨rfl, e, TopName.mem_of_named he, of_decide_eq_true hk, by simpa using hname⟩

theorem mem_ofType (hn : n ∈ ofType source spec) :
    ∃ name, spec.part? .name = some name ∧ (n.name = name ∧ n.kind ≠ .method ∨
      ∃ type, spec.part? .type = some type ∧ n ∈ ofInterface source (name.text source) type) := by
  obtain ⟨name, hname, hn⟩ := List.mem_flatMap.mp hn
  refine ⟨name, by simpa using hname, ?_⟩
  rcases List.mem_cons.mp hn with rfl | hn
  · left
    refine ⟨rfl, ?_⟩
    dsimp only
    split <;> simp
  · right
    obtain ⟨type, htype, hn⟩ := List.mem_flatMap.mp hn
    have htype := Option.mem_toList.mp htype
    exact ⟨type, (Option.filter_eq_some_iff.mp htype).1, hn⟩

theorem mem_ofValue {kind : SymbolKind} (hn : n ∈ ofValue kind spec) :
    n.name ∈ spec.parts .name ∧ n.kind = kind := by
  obtain ⟨name, hname, rfl⟩ := List.mem_map.mp hn
  exact ⟨hname, rfl⟩

theorem name_kind_ofInterface (hl : type.Laid {}) (hn : n ∈ ofInterface source receiver type) :
    n.name.kind = .fieldIdentifier := by
  obtain ⟨-, e, he, hk, hname⟩ := mem_ofInterface hn
  obtain ⟨hname, hf⟩ := mem_of_part? hname
  have hadmits := ((hl.row.mem he).2.2.1.row.mem hname).2.2.2
  rw [hk, hf] at hadmits
  exact Kind.eq_of_admits hadmits rfl

theorem stands_ofInterface (hr : Parsed size root) (h : Declares root q spec)
    (ht : type ∈ spec.children) (hn : n ∈ ofInterface source receiver type) : n.Stands root := by
  have hkind := name_kind_ofInterface ((h.laid hr).row.mem ht).2.2.1 hn
  obtain ⟨-, e, he, hk, hname⟩ := mem_ofInterface hn
  obtain ⟨hname, hf⟩ := mem_of_part? hname
  obtain ⟨gq, hsites⟩ := h.sites_subset
  have hmem : (⟨n.name, some e, some type⟩ : Site) ∈ sites (some q) gq spec :=
    sites_child_subset ht (sites_child_subset he (sites_child_subset hname
      (self_mem_sites n.name (some e) (some type))))
  have hdeclares : Site.declaresName e.kind := by
    rw [hk]
    rfl
  refine ⟨.inr hkind, ⟨_, hsites hmem, rfl, isDeclaration_name hdeclares hf⟩, .inl ?_⟩
  rw [hkind]
  rfl

theorem stands_ofType (hr : Parsed size root) (h : Declares root q spec)
    (hk : spec.kind ≠ .constSpec) (hn : n ∈ ofType source spec) : n.Stands root := by
  obtain ⟨name, hname, ⟨rfl, -⟩ | ⟨type, htype, hn⟩⟩ := mem_ofType hn
  · exact stands_of_declares hr h (TopName.mem_parts_of_part? hname) fun he => (hk he).elim
  · exact stands_ofInterface hr h (mem_of_part? htype).1 hn

theorem stands_ofDeclaration (hr : Parsed size root) (ht : t ∈ root.named)
    (hn : n ∈ ofDeclaration source t) : n.Stands root := by
  have hfunction : ∀ {t : Tree}, t ∈ root.named → t.kind.isFunction →
      n ∈ ofFunction source t → n.Stands root := by
    intro t ht hf hn
    apply stands_of_declares hr (.function (TopName.mem_of_named ht) hf)
      (TopName.mem_parts_of_part? (mem_ofFunction hn))
    intro hk
    simp [hk, Kind.isFunction] at hf
  unfold ofDeclaration at hn
  split at hn
  · next hk => exact hfunction ht (by rw [hk]; rfl) hn
  · next hk => exact hfunction ht (by rw [hk]; rfl) hn
  · next hk =>
    obtain ⟨spec, hs, hn⟩ := List.mem_flatMap.mp hn
    obtain ⟨hs, hspec⟩ := List.mem_filter.mp hs
    apply stands_ofType hr (.type (TopName.mem_of_named ht) hk (TopName.mem_of_named hs) hspec) _ hn
    intro he
    simp [Tree.isTypeSpec, he] at hspec
  · next hk =>
    obtain ⟨spec, hs, hn⟩ := List.mem_flatMap.mp hn
    obtain ⟨q, h⟩ := TopName.varSpec hr ht hk hs
    apply stands_of_declares hr h (mem_ofValue hn).1
    intro he
    have hkind := (TopName.mem_specs hs).1
    rw [he] at hkind
    cases hkind
  · next hk =>
    obtain ⟨spec, hs, hn⟩ := List.mem_flatMap.mp hn
    obtain ⟨q, h⟩ := TopName.constSpec hr ht hk hs
    exact stands_of_declares hr h (mem_ofValue hn).1 fun _ => (mem_ofValue hn).2
  · cases hn

theorem stands_ofFile {f : SourceFile} (hr : Parsed size f.tree) (hn : n ∈ ofFile f) :
    n.Stands f.tree := by
  obtain ⟨t, ht, hn⟩ := List.mem_flatMap.mp hn
  exact stands_ofDeclaration hr ht hn

theorem name_mem_ofInterface (hn : n ∈ ofInterface source receiver type) : n.name ∈ type.walk := by
  obtain ⟨-, e, he, -, hname⟩ := mem_ofInterface hn
  exact Tree.child_mem_walk he (Tree.child_mem_walk (mem_of_part? hname).1 n.name.self_mem_walk)

theorem name_mem_ofType (hn : n ∈ ofType source spec) : n.name ∈ spec.walk := by
  obtain ⟨name, hname, ⟨rfl, -⟩ | ⟨type, htype, hn⟩⟩ := mem_ofType hn
  · exact Tree.child_mem_walk (mem_of_part? hname).1 n.name.self_mem_walk
  · exact Tree.child_mem_walk (mem_of_part? htype).1 (name_mem_ofInterface hn)

theorem name_mem_ofValue {kind : SymbolKind} (hn : n ∈ ofValue kind spec) :
    n.name ∈ spec.walk :=
  Tree.child_mem_walk (List.mem_filter.mp (mem_ofValue hn).1).1 n.name.self_mem_walk

theorem spec_mem_walk {kind : Kind} (hs : spec ∈ t.specs kind) {u : Tree} (hu : u ∈ spec.walk) :
    u ∈ t.walk := by
  obtain ⟨-, hs | ⟨l, hl, -, hs⟩⟩ := TopName.mem_specs hs
  · exact Tree.child_mem_walk hs hu
  · exact Tree.child_mem_walk hl (Tree.child_mem_walk hs hu)

theorem name_mem_ofDeclaration (hn : n ∈ ofDeclaration source t) : n.name ∈ t.walk := by
  unfold ofDeclaration at hn
  split at hn
  · exact Tree.child_mem_walk (mem_of_part? (mem_ofFunction hn)).1 n.name.self_mem_walk
  · exact Tree.child_mem_walk (mem_of_part? (mem_ofFunction hn)).1 n.name.self_mem_walk
  · obtain ⟨spec, hs, hn⟩ := List.mem_flatMap.mp hn
    have hs := TopName.mem_of_named (List.mem_filter.mp hs).1
    exact Tree.child_mem_walk hs (name_mem_ofType hn)
  · obtain ⟨spec, hs, hn⟩ := List.mem_flatMap.mp hn
    exact spec_mem_walk hs (name_mem_ofValue hn)
  · obtain ⟨spec, hs, hn⟩ := List.mem_flatMap.mp hn
    exact spec_mem_walk hs (name_mem_ofValue hn)
  · cases hn

theorem specs_ordered (hl : t.Laid {}) (kind : Kind) :
    (t.specs kind).Pairwise fun u v => u.stop ≤ v.start := by
  have hnamed : ∀ {c : Tree}, c.Laid {} → c.named.Pairwise fun u v => u.stop ≤ v.start :=
    fun hc => (Row.ordered hc.row).sublist List.filter_sublist
  have hlaid : ∀ c ∈ t.named, c.Laid {} := fun c hc => (hl.row.mem (TopName.mem_of_named hc)).2.2.1
  apply List.pairwise_flatMap.mpr
  constructor
  · intro c hc
    split
    · exact List.pairwise_singleton _ _
    split
    · exact (hnamed (hlaid c hc)).sublist List.filter_sublist
    · exact .nil
  · have hwithin : ∀ c ∈ t.named, ∀ d ∈ (if c.kind = kind then [c]
        else if c.kind = .varSpecList || c.kind = .importSpecList then
          c.named.filter (·.kind = kind) else []), c.start ≤ d.start ∧ d.stop ≤ c.stop := by
      intro c hc d hd
      split at hd
      · obtain rfl := List.mem_singleton.mp hd
        exact ⟨Nat.le_refl _, Nat.le_refl _⟩
      split at hd
      · have hrow := (hlaid c hc).row.mem (TopName.mem_of_named (List.mem_filter.mp hd).1)
        exact ⟨hrow.1, hrow.2.1⟩
      · cases hd
    apply (hnamed hl).imp_of_mem
    intro c c' hc hc' hle d hd d' hd'
    exact ((hwithin c hc d hd).2.trans hle).trans (hwithin c' hc' d' hd').1

section

variable {R : Nat → Nat → Prop} (hR : ∀ {a b}, a < b → R a b)
include hR

theorem flatMap_starts {l : List Tree} {g : Tree → List Naming}
    (hord : l.Pairwise fun u v => u.stop ≤ v.start) (hl : ∀ u ∈ l, u.Laid {})
    (hg : ∀ u ∈ l, ∀ n ∈ g u, n.name ∈ u.walk ∧ n.name.kind.isMark)
    (hin : ∀ u ∈ l, (g u).Pairwise fun m n => R m.name.start n.name.start) :
    (l.flatMap g).Pairwise fun m n => R m.name.start n.name.start := by
  have h := starts_pairwise hR (g := fun u => (g u).map (·.name)) hord hl
    (by
      intro u hu v hv
      obtain ⟨n, hn, rfl⟩ := List.mem_map.mp hv
      exact hg u hu n hn)
    fun u hu => List.pairwise_map.mpr (hin u hu)
  rw [← List.map_flatMap, List.pairwise_map] at h
  exact h

omit hR in
theorem ofFunction_starts (keep : Naming → Bool) :
    ((ofFunction source t).filter keep).Pairwise fun m n => R m.name.start n.name.start := by
  apply List.Pairwise.sublist List.filter_sublist
  unfold ofFunction
  cases t.part? .name with
  | none => exact .nil
  | some name => exact List.pairwise_singleton _ _

theorem ofValues_starts (hr : Parsed size root) (keep : Naming → Bool) {kind : SymbolKind}
    {specs : List Tree} (hord : specs.Pairwise fun u v => u.stop ≤ v.start)
    (hspecs : ∀ spec ∈ specs, ∃ q, Declares root q spec) :
    (specs.flatMap fun spec => (ofValue kind spec).filter keep).Pairwise
      fun m n => R m.name.start n.name.start := by
  have hmark : ∀ spec ∈ specs, ∀ name ∈ spec.parts .name, name.kind.isMark := by
    intro spec hs name hname
    obtain ⟨q, h⟩ := hspecs spec hs
    exact (TopName.mark hr ⟨q, spec, h, hname⟩).2
  have hlaid : ∀ spec ∈ specs, spec.Laid {} := by
    intro spec hs
    obtain ⟨q, h⟩ := hspecs spec hs
    exact h.laid hr
  apply flatMap_starts hR hord hlaid
  · intro spec hs n hn
    have hn := (List.mem_filter.mp hn).1
    exact ⟨name_mem_ofValue hn, hmark spec hs _ (mem_ofValue hn).1⟩
  · intro spec hs
    apply List.Pairwise.sublist List.filter_sublist
    apply List.pairwise_map.mpr
    exact (names_lt (hlaid spec hs) (hmark spec hs)).imp hR

section

variable (hr : Parsed size root) (keep : Naming → Bool)
  (htype : ∀ q spec, Declares root q spec →
    ((ofType source spec).filter keep).Pairwise fun m n => R m.name.start n.name.start)
include hr htype

theorem ofTypes_starts (ht : t ∈ root.named) (hk : t.kind = .typeDeclaration) :
    (t.typeSpecs.flatMap fun spec => (ofType source spec).filter keep).Pairwise
      fun m n => R m.name.start n.name.start := by
  have hlaid : t.Laid {} := (hr.row.mem (TopName.mem_of_named ht)).2.2.1
  have hdeclares : ∀ spec ∈ t.typeSpecs, Declares root t spec ∧ spec.kind ≠ .constSpec := by
    intro spec hs
    obtain ⟨hs, hspec⟩ := List.mem_filter.mp hs
    refine ⟨.type (TopName.mem_of_named ht) hk (TopName.mem_of_named hs) hspec, ?_⟩
    intro he
    simp [Tree.isTypeSpec, he] at hspec
  have hsub : t.typeSpecs.Sublist t.children := List.filter_sublist.trans List.filter_sublist
  apply flatMap_starts hR ((Row.ordered hlaid.row).sublist hsub)
    fun spec hs => (hdeclares spec hs).1.laid hr
  · intro spec hs n hn
    obtain ⟨h, hne⟩ := hdeclares spec hs
    have hn := (List.mem_filter.mp hn).1
    exact ⟨name_mem_ofType hn, (stands_ofType hr h hne hn).mark⟩
  · intro spec hs
    exact htype t spec (hdeclares spec hs).1

theorem ofDeclaration_starts (ht : t ∈ root.named) :
    ((ofDeclaration source t).filter keep).Pairwise fun m n => R m.name.start n.name.start := by
  have hlaid : t.Laid {} := (hr.row.mem (TopName.mem_of_named ht)).2.2.1
  unfold ofDeclaration
  split
  · exact ofFunction_starts keep
  · exact ofFunction_starts keep
  · next hk =>
    rw [List.filter_flatMap]
    exact ofTypes_starts hR hr keep htype ht hk
  · next hk =>
    rw [List.filter_flatMap]
    exact ofValues_starts hR hr keep (specs_ordered hlaid .varSpec)
      fun spec hs => TopName.varSpec hr ht hk hs
  · next hk =>
    rw [List.filter_flatMap]
    exact ofValues_starts hR hr keep (specs_ordered hlaid .constSpec)
      fun spec hs => TopName.constSpec hr ht hk hs
  · exact .nil

end

theorem ofFile_starts {f : SourceFile} (hr : Parsed size f.tree) (keep : Naming → Bool)
    (htype : ∀ q spec, Declares f.tree q spec →
      ((ofType f.content spec).filter keep).Pairwise fun m n => R m.name.start n.name.start) :
    ((ofFile f).filter keep).Pairwise fun m n => R m.name.start n.name.start := by
  rw [ofFile, List.filter_flatMap]
  apply flatMap_starts hR ((Row.ordered hr.row).sublist List.filter_sublist)
  · intro t ht
    exact (hr.row.mem (TopName.mem_of_named ht)).2.2.1
  · intro t ht n hn
    have hn := (List.mem_filter.mp hn).1
    exact ⟨name_mem_ofDeclaration hn, (stands_ofDeclaration hr ht hn).mark⟩
  · intro t ht
    exact ofDeclaration_starts hR hr keep htype ht

end

theorem ofInterface_starts_ne (hl : type.Laid {}) :
    (ofInterface source receiver type).Pairwise fun m n => m.name.start ≠ n.name.start := by
  have hsub : (type.named.filter (·.kind = .methodElem)).Sublist type.children :=
    List.filter_sublist.trans List.filter_sublist
  apply flatMap_starts Nat.ne_of_lt ((Row.ordered hl.row).sublist hsub)
    fun e he => (hl.row.mem (hsub.subset he)).2.2.1
  · intro e he n hn
    have hkind := name_kind_ofInterface hl (List.mem_flatMap.mpr ⟨e, he, hn⟩)
    obtain ⟨name, hname, rfl⟩ := List.mem_map.mp hn
    have hname : e.part? .name = some name := by simpa using hname
    refine ⟨Tree.child_mem_walk (mem_of_part? hname).1 name.self_mem_walk, ?_⟩
    rw [hkind]
    rfl
  · intro e he
    cases e.part? .name with
    | none => exact .nil
    | some name => exact List.pairwise_singleton _ _

theorem ofType_starts_ne (hr : Parsed size root) (h : Declares root q spec) :
    (ofType source spec).Pairwise fun m n => m.name.start ≠ n.name.start := by
  have hl := h.laid hr
  cases hname : spec.part? .name with
  | none => simp [ofType, hname]
  | some name =>
    cases htype : (spec.part? .type).filter (·.kind = .interfaceType) with
    | none => simp [ofType, hname, htype]
    | some type =>
      have he : ofType source spec = ⟨name, spec, .interface, none, none⟩ ::
          ofInterface source (name.text source) type := by
        simp [ofType, hname, htype]
      obtain ⟨htype, -⟩ := Option.filter_eq_some_iff.mp htype
      obtain ⟨hmem, hfield⟩ := mem_of_part? htype
      have hlt := (hl.row.mem hmem).2.2.1
      rw [he]
      apply List.pairwise_cons.mpr
      refine ⟨?_, ofInterface_starts_ne hlt⟩
      intro n hn hstart
      -- a byte at which both start lies in the name and in the type
      have hlaid := (Tree.walk_within type hlt n.name (name_mem_ofInterface hn)).2.2
      have hmark : n.name.kind.isMark := (stands_ofInterface hr h hmem hn).mark
      have hcovers := hlt.covers (name_mem_ofInterface hn) (covers_start hlaid hmark)
      obtain ⟨hnmem, hnfield⟩ := mem_of_part? hname
      have hnmark := (TopName.mark hr ⟨q, spec, h, TopName.mem_parts_of_part? hname⟩).2
      have hncovers := covers_start (hl.row.mem hnmem).2.2.1 hnmark
      rw [← hstart] at hcovers
      have heq := hl.row.covers_eq hmem hnmem hcovers hncovers
      rw [heq, hnfield] at hfield
      cases hfield

theorem starts_ne {f : SourceFile} (hr : Parsed size f.tree) :
    (ofFile f).Pairwise fun m n => m.name.start ≠ n.name.start := by
  have h := ofFile_starts Nat.ne_of_lt hr (fun _ => true) fun q spec h => by
    rw [List.filter_true]
    exact ofType_starts_ne hr h
  rwa [List.filter_true] at h

/-- Without the methods it lists, a type has its own name only. -/
theorem filter_ofType (source : ByteArray) (spec : Tree) :
    (ofType source spec).filter (·.kind ≠ .method) = (spec.part? .name).toList.map fun name =>
      ⟨name, spec, if ((spec.part? .type).filter (·.kind = .interfaceType)).isSome then .interface
        else .type, none, none⟩ := by
  have hmethods : ∀ {receiver : String} {type : Tree},
      (ofInterface source receiver type).filter (·.kind ≠ .method) = [] := by
    intro receiver type
    apply List.filter_eq_nil_iff.mpr
    intro n hn
    simp [(mem_ofInterface hn).1]
  cases hname : spec.part? .name with
  | none => simp [ofType, hname]
  | some name =>
    cases htype : (spec.part? .type).filter (·.kind = .interfaceType) with
    | none => simp [ofType, hname, htype]
    | some type => simpa [ofType, hname, htype] using hmethods

/-- Names other than those of methods start in the order in which they are read. -/
theorem starts_lt {f : SourceFile} (hr : Parsed size f.tree) :
    ((ofFile f).filter (·.kind ≠ .method)).Pairwise fun m n => m.name.start < n.name.start := by
  apply ofFile_starts id hr
  intro q spec h
  rw [filter_ofType]
  cases spec.part? .name with
  | none => exact .nil
  | some name => exact List.pairwise_singleton _ _

end Naming

end GoAtlas
