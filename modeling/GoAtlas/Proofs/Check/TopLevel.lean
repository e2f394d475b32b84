import GoAtlas.Proofs.Check.Placement

namespace GoAtlas.Check

open Syntax Reference

variable {P : Action → Prop} {source : ByteArray} {root q d t c : Tree} {size : Nat}

/-- A node `d` below `q` declares names at the top level. -/
inductive Declares (root : Tree) : Tree → Tree → Prop
  | function {d : Tree} : d ∈ root.children → d.kind.isFunction → Declares root root d
  | type {t d : Tree} : t ∈ root.children → t.kind = .typeDeclaration → d ∈ t.children →
      d.isTypeSpec → Declares root t d
  | var {t d : Tree} : t ∈ root.children → t.kind = .varDeclaration → d ∈ t.children →
      d.kind = .varSpec → Declares root t d
  | listed {t l d : Tree} : t ∈ root.children → t.kind = .varDeclaration → l ∈ t.children →
      l.kind = .varSpecList → d ∈ l.children → d.kind = .varSpec → Declares root l d
  | const {t d : Tree} : t ∈ root.children → t.kind = .constDeclaration → d ∈ t.children →
      d.kind = .constSpec → Declares root t d

namespace Declares

theorem laid (hr : Parsed size root) (h : Declares root q d) : d.Laid {} := by
  cases h with
  | function hd => exact (hr.row.mem hd).2.2.1
  | type ht _ hd => exact ((hr.row.mem ht).2.2.1.row.mem hd).2.2.1
  | var ht _ hd => exact ((hr.row.mem ht).2.2.1.row.mem hd).2.2.1
  | listed ht _ hl _ hd => exact (((hr.row.mem ht).2.2.1.row.mem hl).2.2.1.row.mem hd).2.2.1
  | const ht _ hd => exact ((hr.row.mem ht).2.2.1.row.mem hd).2.2.1

theorem declaresName (h : Declares root q d) : Site.declaresName d.kind := by
  cases h with
  | function _ hf =>
    unfold Kind.isFunction at hf
    split at hf
    · next hk => rw [hk]; rfl
    · next hk => rw [hk]; rfl
    · cases hf
  | type _ _ _ hs =>
    rcases Bool.or_eq_true_iff.mp hs with hk | hk <;> rw [of_decide_eq_true hk] <;> rfl
  | var _ _ _ hk => rw [hk]; rfl
  | listed _ _ _ _ _ hk => rw [hk]; rfl
  | const _ _ _ hk => rw [hk]; rfl

/-- The sites of a declaration are sites of the file. -/
theorem sites_subset (h : Declares root q d) :
    ∃ gq, sites (some q) gq d ⊆ sitesOf (some root) none root.children := by
  cases h with
  | function hd => exact ⟨none, sites_subset_sitesOf hd⟩
  | type ht _ hd => exact ⟨_, List.Subset.trans (sites_child_subset hd) (sites_subset_sitesOf ht)⟩
  | var ht _ hd => exact ⟨_, List.Subset.trans (sites_child_subset hd) (sites_subset_sitesOf ht)⟩
  | listed ht _ hl _ hd =>
    exact ⟨_, List.Subset.trans (sites_child_subset hd)
      (List.Subset.trans (sites_child_subset hl) (sites_subset_sitesOf ht))⟩
  | const ht _ hd => exact ⟨_, List.Subset.trans (sites_child_subset hd) (sites_subset_sitesOf ht)⟩

end Declares

/-- The way from a node at the top level to a declaration that covers a byte. -/
inductive Way (t : Tree) (n : Nat) : Tree → Prop
  | self : t.kind.isFunction → Way t n t
  | child {d : Tree} : t.kind.isFunction = false → d ∈ t.children → d.kind ≠ .varSpecList → Way t n d
  | listed {l d : Tree} : t.kind.isFunction = false → l ∈ t.children → l.kind = .varSpecList →
      l.Covers n → d ∈ l.children → Way t n d

theorem Way.eq (hl : t.Laid {}) {d d' : Tree} {n : Nat} (h : Way t n d) (h' : Way t n d')
    (hd : d.Covers n) (hd' : d'.Covers n) : d = d' := by
  cases h with
  | self hf =>
    cases h' with
    | self => rfl
    | child hf' => simp [hf] at hf'
    | listed hf' => simp [hf] at hf'
  | child hf hc hk =>
    cases h' with
    | self hf' => simp [hf] at hf'
    | child _ hc' _ => exact hl.row.covers_eq hc hc' hd hd'
    | listed _ hl' hk' hcov => exact (hk (hl.row.covers_eq hc hl' hd hcov ▸ hk')).elim
  | listed hf hc hk hcov hm =>
    cases h' with
    | self hf' => simp [hf] at hf'
    | child _ hc' hk' => exact (hk' (hl.row.covers_eq hc hc' hcov hd' ▸ hk)).elim
    | listed _ hc' _ hcov' hm' =>
      obtain rfl := hl.row.covers_eq hc hc' hcov hcov'
      exact (hl.row.mem hc).2.2.1.row.covers_eq hm hm' hd hd'

namespace Declares

variable (hr : Parsed size root)
include hr

theorem way (h : Declares root q d) {n : Nat} (hn : d.Covers n) :
    ∃ t ∈ root.children, t.Covers n ∧ Way t n d := by
  have hcovers : ∀ {t c : Tree}, t.Laid {} → c ∈ t.children → c.Covers n → t.Covers n :=
    fun hl hc => hl.covers (Tree.child_mem_walk hc (Tree.self_mem_walk _))
  cases h with
  | function hd hf => exact ⟨d, hd, hn, .self hf⟩
  | type ht hk hd hs =>
    refine ⟨_, ht, hcovers (hr.row.mem ht).2.2.1 hd hn, .child (by rw [hk]; rfl) hd fun he => ?_⟩
    simp [Tree.isTypeSpec, he] at hs
  | var ht hk hd hs =>
    exact ⟨_, ht, hcovers (hr.row.mem ht).2.2.1 hd hn, .child (by rw [hk]; rfl) hd (by simp [hs])⟩
  | listed ht hk hl hkl hd =>
    have hlaid := (hr.row.mem ht).2.2.1
    have hcov := hcovers (hlaid.row.mem hl).2.2.1 hd hn
    exact ⟨_, ht, hcovers hlaid hl hcov, .listed (by rw [hk]; rfl) hl hkl hcov hd⟩
  | const ht hk hd hs =>
    exact ⟨_, ht, hcovers (hr.row.mem ht).2.2.1 hd hn, .child (by rw [hk]; rfl) hd (by simp [hs])⟩

/-- A byte lies in one declaration at most. -/
theorem covers_eq {q' d' : Tree} (h : Declares root q d) (h' : Declares root q' d') {n : Nat}
    (hn : d.Covers n) (hn' : d'.Covers n) : d = d' := by
  obtain ⟨t, ht, htn, hw⟩ := h.way hr hn
  obtain ⟨t', ht', htn', hw'⟩ := h'.way hr hn'
  obtain rfl := hr.row.covers_eq ht ht' htn htn'
  exact hw.eq (hr.row.mem ht).2.2.1 hw' hn hn'

/-- What reaches over a byte of a declaration is the file, a group of declarations, or stands in the
declaration. -/
theorem above (h : Declares root q d) {n : Nat} (hd : d.Covers n) (hc : c ∈ root.walk)
    (hn : c.Covers n) :
    c = root ∨ Kind.among [.typeDeclaration, .varDeclaration, .constDeclaration, .varSpecList] c.kind
      ∨ c ∈ d.walk := by
  have hchild : ∀ {t u : Tree}, t.Laid {} → u ∈ t.children → u.Covers n → t.Covers n :=
    fun hl hu => hl.covers (Tree.child_mem_walk hu (Tree.self_mem_walk _))
  -- the group that is a child of the file, with what stands in it
  have hgroup : ∀ {t u : Tree}, t ∈ root.children → u ∈ t.children → u.Covers n →
      c = root ∨ c = t ∨ c ∈ u.walk := by
    intro t u ht hu hun
    have hl := (hr.row.mem ht).2.2.1
    rcases hr.row.below ht (hchild hl hu hun) hc hn with rfl | hct
    · exact .inl rfl
    · exact .inr (hl.row.below hu hun hct hn)
  cases h with
  | function hd' =>
    rcases hr.row.below hd' hd hc hn with he | hcd
    · exact .inl he
    · exact .inr (.inr hcd)
  | type ht hk hd' =>
    rcases hgroup ht hd' hd with he | rfl | hcd
    · exact .inl he
    · exact .inr (.inl (by rw [hk]; rfl))
    · exact .inr (.inr hcd)
  | var ht hk hd' =>
    rcases hgroup ht hd' hd with he | rfl | hcd
    · exact .inl he
    · exact .inr (.inl (by rw [hk]; rfl))
    · exact .inr (.inr hcd)
  | const ht hk hd' =>
    rcases hgroup ht hd' hd with he | rfl | hcd
    · exact .inl he
    · exact .inr (.inl (by rw [hk]; rfl))
    · exact .inr (.inr hcd)
  | listed ht hk hl hkl hd' =>
    have hlaid := ((hr.row.mem ht).2.2.1.row.mem hl).2.2.1
    rcases hgroup ht hl (hchild hlaid hd' hd) with he | rfl | hcl
    · exact .inl he
    · exact .inr (.inl (by rw [hk]; rfl))
    · rcases hlaid.row.below hd' hd hcl hn with rfl | hcd
      · exact .inr (.inl (by rw [hkl]; rfl))
      · exact .inr (.inr hcd)

/-- Nothing inside another part of a declaration starts where a name at the top level does. -/
theorem start_ne {q' d' name u : Tree} (h : Declares root q d) (hc : c ∈ d.children)
    (hf : c.field ≠ some .name) (hu : u ∈ c.walk) (hm : u.kind.isMark) (h' : Declares root q' d')
    (hname : name ∈ d'.parts .name) (hm' : name.kind.isMark) : u.start ≠ name.start := by
  intro he
  obtain ⟨hname, hfield⟩ := List.mem_filter.mp hname
  have hfield : name.field = some .name := by simpa using hfield
  have hld := h.laid hr
  have hld' := h'.laid hr
  have hlc := (hld.row.mem hc).2.2.1
  have hlu := (Tree.walk_within c hlc u hu).2.2
  have hln := (hld'.row.mem hname).2.2.1
  have hun : u.Covers u.start := ⟨Nat.le_refl _, (hlu.mark hm).2.1⟩
  have hcn : c.Covers u.start := hlc.covers hu hun
  have hnn : name.Covers u.start := he ▸ ⟨Nat.le_refl _, (hln.mark hm').2.1⟩
  have hdn := hld.covers (Tree.child_mem_walk hc c.self_mem_walk) hcn
  have hdn' := hld'.covers (Tree.child_mem_walk hname name.self_mem_walk) hnn
  obtain rfl := h.covers_eq hr h' hdn hdn'
  exact hf (hld.row.covers_eq hc hname hcn hnn ▸ hfield)

end Declares

theorem Parted.spec {S : List Site} (h : Parted P source S q d)
    (hk : d.kind = .varSpec ∨ d.kind = .constSpec) :
    EachOf P (bindings source .valueUses d) := by
  have hvalues := h.values (by rcases hk with hk | hk <;> rw [hk] <;> rfl)
  obtain ⟨k, f, s, cs⟩ := d
  rcases hk with rfl | rfl
  · exact hvalues
  · exact hvalues

theorem not_admits_list (f : Option Field) :
    Kind.admits .varSpecList f .varSpecList = false ∧
      Kind.admits .constDeclaration f .varSpecList = false := by
  cases f <;> exact ⟨rfl, rfl⟩

theorem ofSpecs_each {kind : Kind} {ts : List Tree}
    (h : ∀ c ∈ ts, c.kind = kind ∨ c.kind = .varSpecList →
      EachOf P (bindings source .valueUses c)) :
    EachOf P (bindingsOf source (Role.ofSpecs kind .valueUses) ts) := by
  refine bindingsOf_each fun c hc role hrole => ?_
  simp only [Role.ofSpecs, Option.ite_none_right_eq_some, Option.some.injEq, Bool.or_eq_true,
    decide_eq_true_eq] at hrole
  obtain ⟨hk, rfl⟩ := hrole
  exact h c hc hk

theorem fileBindings_each (hr : Parsed size root)
    (h : ∀ q d, Declares root q d → Parted P source [] q d) :
    EachOf P (fileBindings source root) := by
  refine .flatMap fun t ht => ?_
  have ht : t ∈ root.children := (List.mem_filter.mp ht).1
  have hl := (hr.row.mem ht).2.2.1
  by_cases hf : t.kind.isFunction
  · refine (h root t (.function ht hf)).function ?_ (by simp [Role.settle, hf])
    unfold Kind.isFunction at hf
    split at hf
    · next hk => rw [hk]; rfl
    · next hk => rw [hk]; rfl
    · cases hf
  · have hsettle : Role.settle t .topLevel = .topLevel := by simp [Role.settle, hf]
    obtain ⟨k, f, s, cs⟩ := t
    unfold bindings
    simp only [hsettle]
    split
    · refine bindingsOf_each fun c hc role hrole => ?_
      simp only [Role.ofNamedIf, Option.ite_none_right_eq_some, Option.some.injEq,
        Bool.and_eq_true] at hrole
      obtain ⟨⟨_, hs⟩, rfl⟩ := hrole
      exact (h _ c (.type ht rfl hc hs)).typeSpec hs
    · refine ofSpecs_each fun c hc hk => ?_
      rcases hk with hk | hk
      · exact (h _ c (.var ht rfl hc hk)).spec (.inl hk)
      · have hlc := (hl.row.mem hc).2.2.1
        have hnested : EachOf P (bindingsOf source (Role.ofSpecs .varSpec .valueUses) c.children) := by
          refine ofSpecs_each fun d hd hkd => ?_
          rcases hkd with hkd | hkd
          · exact (h _ d (.listed ht rfl hc hk hd hkd)).spec (.inl hkd)
          · have ha := (hlc.row.mem hd).2.2.2
            rw [hk, hkd, (not_admits_list _).1] at ha
            cases ha
        obtain ⟨k', f', s', cs'⟩ := c
        cases hk
        exact hnested
    · refine ofSpecs_each fun c hc hk => ?_
      rcases hk with hk | hk
      · exact (h _ c (.const ht rfl hc hk)).spec (.inr hk)
      · have ha := (hl.row.mem hc).2.2.2
        rw [hk] at ha
        exact (Bool.false_ne_true ((not_admits_list _).2.symm.trans ha)).elim
    · trivial

def Action.Inside (source : ByteArray) (root : Tree) (a : Action) : Prop :=
  ∃ q d c, Declares root q d ∧ c ∈ d.children ∧ c.field ≠ some .name ∧
    a.Placed source (sites (some d) (some q) c)

theorem Given.mono {S S' : List Site} {n : Ident} {type : Option String}
    (h : Given source S n type) (hs : S ⊆ S') : Given source S' n type := by
  obtain ⟨s, hm, hs'⟩ := h
  exact ⟨s, hs hm, hs'⟩

theorem Role.Apt.mono {S S' : List Site} {role : Role} {gp : Option Tree}
    (h : role.Apt source S q gp t) (hs : S ⊆ S') : role.Apt source S' q gp t := by
  cases role with
  | clause aliases => exact ⟨h.1, fun a ha => (h.2 a ha).mono hs⟩
  | _ => exact h

mutual
theorem Binding.Each.imp {Q : Action → Prop} (hPQ : ∀ a, P a → Q a) :
    (b : Binding) → b.Each P → b.Each Q
  | .act a, h => hPQ a h
  | .scope body, h => EachOf.imp hPQ body h

theorem EachOf.imp {Q : Action → Prop} (hPQ : ∀ a, P a → Q a) :
    (bs : List Binding) → EachOf P bs → EachOf Q bs
  | [], _ => trivial
  | b :: bs, h => ⟨Binding.Each.imp hPQ b h.1, EachOf.imp hPQ bs h.2⟩
end

theorem fileBindings_inside (source : ByteArray) (hr : Parsed size root) :
    EachOf (·.Inside source root) (fileBindings source root) := by
  refine fileBindings_each hr fun q d hd => ⟨hd.laid hr, fun c hc hf role ha => ?_⟩
  have hlc := ((hd.laid hr).row.mem hc).2.2.1
  refine EachOf.imp (fun a hp => ?_) _ (bindings_placed _ c d (some q) role (List.Subset.refl _) hlc
    (ha.mono (List.nil_subset _)))
  exact ⟨q, d, c, hd, hc, hf, hp⟩

/-- A node names a declaration at the top level. -/
def TopName (root n : Tree) : Prop :=
  ∃ q d, Declares root q d ∧ n ∈ d.parts .name

namespace TopName

variable {n : Tree}

theorem mem_of_named (h : c ∈ t.named) : c ∈ t.children :=
  (List.mem_filter.mp h).1

theorem mem_parts_of_part? {f : Field} (h : t.part? f = some c) : c ∈ t.parts f := by
  obtain ⟨hc, hf⟩ := mem_of_part? h
  exact List.mem_filter.mpr ⟨hc, by simp [hf]⟩

theorem mem_specs {kind : Kind} (h : d ∈ t.specs kind) :
    d.kind = kind ∧ (d ∈ t.children ∨
      ∃ l ∈ t.children, (l.kind = .varSpecList ∨ l.kind = .importSpecList) ∧ d ∈ l.children) := by
  obtain ⟨c, hc, hd⟩ := List.mem_flatMap.mp h
  have hc := mem_of_named hc
  split at hd
  · next hk =>
    obtain rfl := List.mem_singleton.mp hd
    exact ⟨hk, .inl hc⟩
  split at hd
  · next hl =>
    obtain ⟨hd, hk⟩ := List.mem_filter.mp hd
    exact ⟨by simpa using hk, .inr ⟨c, hc, by simpa using hl, mem_of_named hd⟩⟩
  · cases hd

/-- Names are identifiers, but for the commas between the names of a constant, which stand in the
same part. -/
theorem isIdentifier_or_comma {k : Kind} (h : Declares root q d)
    (ha : d.kind.admits (some .name) k) :
    k.isIdentifier ∨ k = .token "," ∧ d.kind = .constSpec := by
  have hvalue (hs : d.kind.isValueSpec) :
      k.isIdentifier ∨ k = .token "," ∧ d.kind = .constSpec := by
    rcases Kind.identifier_or_comma hs ha with rfl | hc
    · exact .inl rfl
    · exact .inr hc
  cases h with
  | function _ hf =>
    unfold Kind.isFunction at hf
    split at hf
    · next hk => exact .inl (Kind.eq_of_admits (hk ▸ ha) rfl ▸ rfl)
    · next hk => exact .inl (Kind.eq_of_admits (hk ▸ ha) rfl ▸ rfl)
    · cases hf
  | type _ _ _ hs =>
    rcases Bool.or_eq_true_iff.mp hs with hk | hk <;> replace hk := of_decide_eq_true hk
    · exact .inl (Kind.eq_of_admits (hk ▸ ha) rfl ▸ rfl)
    · exact .inl (Kind.eq_of_admits (hk ▸ ha) rfl ▸ rfl)
  | var _ _ _ hk => exact hvalue (by rw [hk]; rfl)
  | listed _ _ _ _ _ hk => exact hvalue (by rw [hk]; rfl)
  | const _ _ _ hk => exact hvalue (by rw [hk]; rfl)

variable (hr : Parsed size root)
include hr

theorem varSpec (ht : t ∈ root.named) (hk : t.kind = .varDeclaration)
    (hd : d ∈ t.specs .varSpec) : ∃ q, Declares root q d := by
  have ht := mem_of_named ht
  have hl := (hr.row.mem ht).2.2.1
  obtain ⟨hkd, hd | ⟨l, hm, hkl | hkl, hd⟩⟩ := mem_specs hd
  · exact ⟨t, .var ht hk hd hkd⟩
  · exact ⟨l, .listed ht hk hm hkl hd hkd⟩
  · have ha := (hl.row.mem hm).2.2.2
    rw [hk, hkl] at ha
    exact (Bool.false_ne_true ((by cases l.field <;> rfl : _ = false).symm.trans ha)).elim

theorem constSpec (ht : t ∈ root.named) (hk : t.kind = .constDeclaration)
    (hd : d ∈ t.specs .constSpec) : ∃ q, Declares root q d := by
  have ht := mem_of_named ht
  have hl := (hr.row.mem ht).2.2.1
  obtain ⟨hkd, hd | ⟨l, hm, hkl, hd⟩⟩ := mem_specs hd
  · exact ⟨t, .const ht hk hd hkd⟩
  · have ha := (hl.row.mem hm).2.2.2
    rw [hk] at ha
    rcases hkl with hkl | hkl <;> rw [hkl] at ha <;>
      exact (Bool.false_ne_true ((by cases l.field <;> rfl : _ = false).symm.trans ha)).elim

theorem mark (h : TopName root n) : n ∈ Tree.walkAll root.children ∧ n.kind.isMark := by
  obtain ⟨q, d, hd, hn⟩ := h
  obtain ⟨hn, hf⟩ := List.mem_filter.mp hn
  have hf : n.field = some .name := by simpa using hf
  have hadmits := ((hd.laid hr).row.mem hn).2.2.2
  rw [hf] at hadmits
  obtain ⟨gq, hsites⟩ := hd.sites_subset
  refine ⟨?_, ?_⟩
  · exact mem_walkAll_of_mem_sitesOf
      (hsites (sites_child_subset hn (self_mem_sites n (some d) (some q))))
  · rcases isIdentifier_or_comma hd hadmits with hi | ⟨hk, -⟩
    · exact Kind.isMark_of_isIdentifier hi
    · rw [hk]
      rfl

omit hr in
/-- The names of declarations at the top level stand at sites that declare. -/
theorem site (h : TopName root n) :
    ∃ s ∈ sitesOf (some root) none root.children, s.node = n ∧ s.isDeclaration := by
  obtain ⟨q, d, hd, hn⟩ := h
  obtain ⟨hn, hf⟩ := List.mem_filter.mp hn
  have hf : n.field = some .name := by simpa using hf
  obtain ⟨gq, hsites⟩ := hd.sites_subset
  have hmem := hsites (sites_child_subset hn (self_mem_sites n (some d) (some q)))
  exact ⟨_, hmem, rfl, isDeclaration_name hd.declaresName hf⟩

/-- A use never starts where a name at the top level does. -/
theorem start_ne {u : Ident} (h : TopName root n)
    (hu : Used source (sitesOf (some root) none root.children) u) : u.start ≠ n.start := by
  intro he
  obtain ⟨s, hs, hi, hdecl, rfl⟩ := hu
  obtain ⟨hmem, hm⟩ := h.mark hr
  obtain ⟨s', hs', hnode, hdecl'⟩ := h.site
  have hn : s.node = n := hr.row.mark_eq (mem_walkAll_of_mem_sitesOf hs) hmem
    (Kind.isMark_of_isIdentifier hi) hm he
  have hi' : s'.isIdentifier := by
    rw [Site.isIdentifier, hnode, ← hn]
    exact hi
  obtain rfl := Site.eq_of_start hr hs hi hs' hi' (by rw [hn, hnode])
  simp [hdecl] at hdecl'

end TopName

def TopTyped (source : ByteArray) (root n : Tree) (type : Option String) : Prop :=
  ∃ q d, Declares root q d ∧ n ∈ d.parts .name ∧
    (d.kind.isValueSpec → (Ident.of source n, type) ∈ specNames source d)

theorem mem_specNames {spec : Tree} {x : Ident × Option String} (h : x ∈ specNames source spec) :
    ∃ t ∈ spec.parts .name, x.1 = Ident.of source t := by
  obtain ⟨⟨t, i⟩, ht, rfl⟩ := List.mem_map.mp h
  exact ⟨t, (List.mem_zipIdx' ht).2 ▸ List.getElem_mem _, rfl⟩

namespace TopTyped

open TopName

variable {n : Tree} {type : Option String}

theorem top (h : TopTyped source root n type) : TopName root n := by
  obtain ⟨q, d, hd, hn, -⟩ := h
  exact ⟨q, d, hd, hn⟩

theorem function (ht : t ∈ root.named) (hk : t.kind.isFunction) (hn : t.part? .name = some n) :
    TopTyped source root n type := by
  refine ⟨root, t, .function (mem_of_named ht) hk, mem_parts_of_part? hn, fun hs => ?_⟩
  rcases Kind.isValueSpec_iff.mp hs with hs | hs <;> rw [hs] at hk <;> cases hk

theorem typeSpec (ht : t ∈ root.named) (hk : t.kind = .typeDeclaration) (hd : d ∈ t.typeSpecs)
    (hn : d.part? .name = some n) : TopTyped source root n type := by
  obtain ⟨hd, hspec⟩ := List.mem_filter.mp hd
  refine ⟨t, d, .type (mem_of_named ht) hk (mem_of_named hd) hspec, mem_parts_of_part? hn,
    fun hs => ?_⟩
  rcases Kind.isValueSpec_iff.mp hs with hs | hs <;> simp [Tree.isTypeSpec, hs] at hspec

theorem valueSpec (h : Declares root q d) {x : Ident × Option String}
    (hx : x ∈ specNames source d) :
    ∃ n ∈ d.parts .name, x.1 = Ident.of source n ∧ TopTyped source root n x.2 := by
  obtain ⟨n, hn, he⟩ := mem_specNames hx
  exact ⟨n, hn, he, q, d, h, hn, fun _ => he ▸ hx⟩

end TopTyped

end GoAtlas.Check
