import GoAtlas.Proofs.Check.Recording
import GoAtlas.Proofs.Check.Requests

namespace GoAtlas.Check

open Syntax Reference

def Apart (own : List SourceFile) : Prop :=
  (own.map (·.path)).Nodup

variable {own : List SourceFile} {package : String} {abroad : Object → Prop}
  {f g : SourceFile} {o o' : Object} {t n : Tree} {size : Nat}

theorem Apart.eq (h : Apart own) (hf : f ∈ own) (hg : g ∈ own) (he : f.path = g.path) : f = g :=
  List.inj_on_of_nodup_map h hf hg he

structure Object.Own (package : String) (defs : Dict Spot Object) (o : Object) : Prop where
  package : o.package = package
  defined : ∀ spot, o.spot = some spot → Defines defs spot o

theorem Object.Own.mono {defs defs' : Dict Spot Object} (h : o.Own package defs)
    (he : Extends defs defs') : o.Own package defs' :=
  ⟨h.package, fun spot hspot => he spot o (h.defined spot hspot)⟩

namespace Declared

def Top (own : List SourceFile) (spot : Spot) (o : Object) : Prop :=
  ∃ f ∈ own, f.path = spot.file ∧ ∃ t ∈ f.tree.children, ∃ n ∈ t.walk, TopName f.tree n ∧
    n.start = spot.offset ∧ f.text n = o.name ∧ topKind t.kind = o.kind

theorem Top.eq {spot : Spot} (hown : Apart own) (hr : ∀ f ∈ own, ∃ size, Parsed size f.tree)
    (h : Top own spot o) (h' : Top own spot o') : o.name = o'.name ∧ o.kind = o'.kind := by
  obtain ⟨f, hf, hpath, t, ht, n, hn, htop, hstart, hname, hkind⟩ := h
  obtain ⟨g, hg, hpath', u, hu, m, hm, htop', hstart', hname', hkind'⟩ := h'
  obtain rfl := hown.eq hf hg (hpath.trans hpath'.symm)
  obtain ⟨size, hparsed⟩ := hr f hf
  obtain ⟨hnmem, hnmark⟩ := htop.mark hparsed
  obtain ⟨hmmem, hmmark⟩ := htop'.mark hparsed
  obtain rfl := hparsed.row.mark_eq hnmem hmmem hnmark hmmark (hstart.trans hstart'.symm)
  -- the declaration is the child of the root that covers its name
  have hlt := (hparsed.row.mem ht).2.2.1
  have hlu := (hparsed.row.mem hu).2.2.1
  have hcovers : n.Covers n.start :=
    ⟨Nat.le_refl _, ((Tree.walk_within t hlt n hn).2.2.mark hnmark).2.1⟩
  obtain rfl := hparsed.row.covers_eq ht hu (hlt.covers hn hcovers) (hlu.covers hm hcovers)
  exact ⟨hname.symm.trans hname', hkind.symm.trans hkind'⟩

structure Kept (own : List SourceFile) (package : String) (d : Declared) : Prop where
  names : Frame.Binds (Object.Own package d.defs) d.names
  defs : ∀ spot o, d.defs.lookup spot = some o → o.spot = some spot ∧ Top own spot o

variable {d : Declared}

theorem kept_empty (own : List SourceFile) (package : String) : Kept own package {} :=
  ⟨nofun, nofun⟩

section

variable (hown : Apart own) (hr : ∀ f ∈ own, ∃ size, Parsed size f.tree) (hf : f ∈ own)
include hown hr hf

theorem Kept.add (h : d.Kept own package) (ht : t ∈ f.tree.named) (hn : n ∈ t.walk)
    (htop : TopName f.tree n) (type : Option String) (bound : Bool) :
    (d.add (objectAt package f.path (Ident.of f.content n) (topKind t.kind) type) bound).Kept
      own package := by
  let o := objectAt package f.path (Ident.of f.content n) (topKind t.kind) type
  let spot : Spot := ⟨f.path, n.start⟩
  have ho : Top own spot o := ⟨f, hf, rfl, t, TopName.mem_of_named ht, n, hn, htop, rfl, rfl, rfl⟩
  have hgrown : Extends d.defs (d.defs.put spot o) := by
    apply extends_put
    intro o' ho'
    exact ho.eq hown hr (h.defs spot o' ho').2
  have hnames : Frame.Binds (Object.Own package (d.defs.put spot o)) d.names :=
    h.names.imp fun _ ho' => ho'.mono hgrown
  have hobject : o.Own package (d.defs.put spot o) := by
    refine ⟨rfl, ?_⟩
    intro place hplace
    obtain rfl := Option.some.inj hplace
    exact defines_put _ _ _
  constructor
  · have hadd : Frame.Binds (Object.Own package (d.defs.put spot o))
        (if bound then d.names.addNew o.name o else d.names) := by
      split
      · exact hnames.addNew hobject
      · exact hnames
    exact hadd
  · intro place o' ho'
    have ho' : (d.defs.put spot o).lookup place = some o' := ho'
    obtain ⟨rfl, rfl⟩ | ho' := Dict.cases_of_lookup_put ho'
    · exact ⟨rfl, ho⟩
    · exact h.defs place o' ho'

theorem Kept.addNames (h : d.Kept own package) : (d.addNames package f).Kept own package := by
  obtain ⟨size, hparsed⟩ := hr f hf
  apply List.foldlRecOn (motive := Kept own package) _ _ h
  rintro d hd ⟨o, bound⟩ hx
  obtain ⟨t, ht, hx⟩ := List.mem_flatMap.mp hx
  obtain ⟨n, hn, htop, he⟩ := objects_top hparsed ht hx
  dsimp only at he ⊢
  rw [he]
  exact hd.add hown hr hf ht hn htop.top _ _

end

/-- A method that joins those of a type changes nothing else about it. -/
theorem withMethod_eq (name : String) (o : Object) :
    ∃ methods, withMethod name o = { o with methods } := by
  unfold withMethod
  split
  · exact ⟨o.methods, rfl⟩
  · exact ⟨_, rfl⟩

theorem withMethod_own {defs : Dict Spot Object} (name : String) (h : o.Own package defs) :
    (withMethod name o).Own package defs := by
  obtain ⟨methods, he⟩ := withMethod_eq name o
  rw [he]
  exact ⟨h.package, h.defined⟩

theorem extends_withMethod (name : String) (defs : Dict Spot Object) (spot : Spot) :
    Extends defs (defs.adjust spot (withMethod name)) := by
  apply extends_adjust
  · exact withMethod_name name
  · intro o
    obtain ⟨methods, he⟩ := withMethod_eq name o
    rw [he]

theorem Kept.withMethod (h : d.Kept own package) (name receiver : String) (place : Option Spot) :
    Kept own package
      { names := d.names.adjust receiver (Declared.withMethod name)
        defs :=
          match place with
          | some spot => d.defs.adjust spot (Declared.withMethod name)
          | none => d.defs } := by
  have hnames : ∀ {defs}, Extends d.defs defs →
      Frame.Binds (Object.Own package defs) (d.names.adjust receiver (Declared.withMethod name)) := by
    intro defs hgrown
    apply (h.names.imp fun _ ho => ho.mono hgrown).adjust (withMethod_name name)
    intro o ho
    exact withMethod_own name ho
  cases place with
  | none => exact ⟨hnames (.refl _), h.defs⟩
  | some spot =>
    refine ⟨hnames (extends_withMethod name _ spot), ?_⟩
    intro place o ho
    rw [Dict.lookup_adjust] at ho
    split at ho
    · obtain ⟨o', ho', rfl⟩ := Option.map_eq_some_iff.mp ho
      obtain ⟨methods, he⟩ := withMethod_eq name o'
      rw [he]
      exact h.defs place o' ho'
    · exact h.defs place o ho

theorem Kept.addMethod (hown : Apart own) (hr : ∀ f ∈ own, ∃ size, Parsed size f.tree)
    (hf : f ∈ own) (h : d.Kept own package) (ht : t ∈ f.tree.named)
    (hk : t.kind = .methodDeclaration) : (d.addMethod package f t).Kept own package := by
  unfold Declared.addMethod
  split
  · exact h
  · next n hn =>
    have htop : TopTyped f.content f.tree n none := .function ht (by rw [hk]; rfl) hn
    have hwalk : n ∈ t.walk := Tree.child_mem_walk (mem_of_part? hn).1 n.self_mem_walk
    have hadd := h.add hown hr hf ht hwalk htop.top (some (signature f.content t)) false
    rw [hk] at hadd
    dsimp only
    split
    · next r hlookup =>
      split
      · exact hadd.withMethod _ _ r.spot
      · exact hadd
    · exact hadd

theorem kept_ofFiles (hown : Apart own) (hr : ∀ f ∈ own, ∃ size, Parsed size f.tree) :
    (ofFiles package own).Kept own package := by
  apply List.foldlRecOn (motive := Kept own package)
  · apply List.foldlRecOn (motive := Kept own package) _ _ (kept_empty own package)
    intro d hd f hf
    exact hd.addNames hown hr hf
  · intro d hd f hf
    apply List.foldlRecOn (motive := Kept own package) _ _ hd
    intro d hd t ht
    obtain ⟨ht, hk⟩ := List.mem_filter.mp ht
    exact hd.addMethod hown hr hf ht (of_decide_eq_true hk)

end Declared

/-- Nothing inside a file stands where it declares a name at the top level. -/
theorem Effect.Stands.start_ne {x : Effect} (h : x.Stands f) (hr : Parsed size f.tree)
    (htop : TopName f.tree n) : x.start ≠ n.start := by
  have hwithin : ∀ {m : Ident}, m.Within f → m.start ≠ n.start := by
    rintro m ⟨q, d, c, hd, hc, hfield, s, hs, hm, -, -, rfl⟩
    obtain ⟨-, hmark⟩ := htop.mark hr
    obtain ⟨q', d', hd', hn⟩ := htop
    exact hd.start_ne hr hc hfield (mem_walk_of_mem_sites hs) hm hd' hn hmark
  cases x with
  | use m => exact htop.start_ne hr h
  | declare m kind => exact hwithin h
  | either m => exact hwithin h.1

def deedsOf (fs : List SourceFile) : List Deed :=
  fs.flatMap fun f => (effectsOf (fileBindings f.content f.tree)).map (Deed.mk f)

theorem mem_deedsOf {fs : List SourceFile} {x : Deed} (h : x ∈ deedsOf fs) :
    x.file ∈ fs ∧ x.effect ∈ effectsOf (fileBindings x.file.content x.file.tree) := by
  obtain ⟨f, hf, hx⟩ := List.mem_flatMap.mp h
  obtain ⟨e, he, rfl⟩ := List.mem_map.mp hx
  exact ⟨hf, he⟩

theorem deedsOf_agree (hown : Apart own) (hr : ∀ f ∈ own, ∃ size, Parsed size f.tree) :
    (deedsOf own).Pairwise Deed.Agree := by
  apply List.pairwise_flatMap.mpr
  constructor
  · intro f hf
    obtain ⟨size, hparsed⟩ := hr f hf
    apply List.pairwise_map.mpr
    apply (fileBindings_agree f.content hparsed).imp
    intro x y hxy he
    exact hxy (congrArg Spot.offset he)
  · apply (List.pairwise_map.mp hown).imp
    intro f g hne x hx y hy he
    obtain ⟨_, _, rfl⟩ := List.mem_map.mp hx
    obtain ⟨_, _, rfl⟩ := List.mem_map.mp hy
    exact (hne (congrArg Spot.file he)).elim

theorem deedsOf_stands (hr : ∀ f ∈ own, ∃ size, Parsed size f.tree) {x : Deed}
    (hx : x ∈ deedsOf own) : x.file ∈ own ∧ x.effect.Stands x.file := by
  obtain ⟨hf, he⟩ := mem_deedsOf hx
  obtain ⟨size, hparsed⟩ := hr x.file hf
  refine ⟨hf, ?_⟩
  exact EachOf.effects (fun _ ha => ha.stands) _ (fileBindings_inside x.file.content hparsed) _ he

theorem recorded_ofFiles (hown : Apart own) (hr : ∀ f ∈ own, ∃ size, Parsed size f.tree) :
    Recorded own package abroad (deedsOf own) (Declared.ofFiles package own).defs [] where
  agree := deedsOf_agree hown hr
  stands x hx := deedsOf_stands hr hx
  unused _ _ := rfl
  fresh x hx o ho := by
    obtain ⟨hf, hstands⟩ := deedsOf_stands hr hx
    obtain ⟨-, g, hg, hpath, t, -, n, -, htop, hstart, -⟩ :=
      (Declared.kept_ofFiles hown hr).defs x.spot o ho
    obtain rfl := hown.eq hg hf hpath
    obtain ⟨size, hparsed⟩ := hr x.file hf
    exact (hstands.start_ne hparsed htop hstart.symm).elim
  defined spot o ho := by
    obtain ⟨hspot, f, hf, hpath, _, _, n, _, htop, hstart, _⟩ :=
      (Declared.kept_ofFiles hown hr).defs spot o ho
    exact ⟨hspot, f, hf, hpath, .inl ⟨n, htop, hstart⟩⟩
  used := nofun

theorem Object.Own.known {defs : Dict Spot Object} (h : o.Own package defs) :
    o.Known package abroad defs :=
  fun spot hspot => .inr ⟨h.package, h.defined spot hspot⟩

theorem bindFile_advances {names : Frame} {l : Linked} {s : State} {rest : List Deed}
    (hl : l.surroundings.Sees package abroad f)
    (hnames : Frame.Binds (Object.Own package s.info.defs) names)
    (hs : Recorded own package abroad
      ((effectsOf (fileBindings f.content f.tree)).map (Deed.mk f) ++ rest) s.info.defs s.info.uses) :
    State.Advances own package abroad rest s (bindFile names s f l) := by
  have hstart : State.Records own package abroad
      ((effectsOf (fileBindings f.content f.tree)).map (Deed.mk f) ++ rest)
      { s with scope := [l.frame, names, universeFrame] } := by
    refine ⟨hs, ?_⟩
    apply l.scope_binds fun _ => Object.known_of_spot
    exact hnames.imp fun _ ho => ho.known
  have hrun := State.records_followAll hl _ _ rest hstart
  exact ⟨hrun.records, hrun.grown⟩

theorem bindFiles_advances {names : Frame} {defs : Dict Spot Object}
    {linked : List (SourceFile × Linked)} (hnames : Frame.Binds (Object.Own package defs) names)
    (hl : ∀ fl ∈ linked, fl.2.surroundings.Sees package abroad fl.1) (s : State)
    (hgrown : Extends defs s.info.defs)
    (hs : Recorded own package abroad (deedsOf (linked.map (·.1))) s.info.defs s.info.uses) :
    let final := linked.foldl (fun s (f, l) => bindFile names s f l) s
    Recorded own package abroad [] final.info.defs final.info.uses ∧
      Extends defs final.info.defs := by
  induction linked generalizing s with
  | nil => exact ⟨hs, hgrown⟩
  | cons fl linked ih =>
    have hfirst := bindFile_advances (hl fl List.mem_cons_self)
      (hnames.imp fun _ ho => ho.mono hgrown) hs
    apply ih (fun gl hgl => hl gl (List.mem_cons_of_mem fl hgl))
    · exact hgrown.trans hfirst.grown
    · exact hfirst.records.info

theorem Outcome.recorded {linked : List (SourceFile × Linked)} (hown : Apart own)
    (hr : ∀ f ∈ own, ∃ size, Parsed size f.tree) (hfiles : linked.map (·.1) = own)
    (hl : ∀ fl ∈ linked, fl.2.surroundings.Sees package abroad fl.1) :
    let info := (ofLinked package own linked).info
    Recorded own package abroad [] info.defs info.uses ∧
      Extends (Declared.ofFiles package own).defs info.defs := by
  apply bindFiles_advances (Declared.kept_ofFiles hown hr).names hl _ (.refl _)
  rw [hfiles]
  exact recorded_ofFiles hown hr

namespace Checks

variable {ws : Workspace} {c : Checks} {p : Package} {i : TypeInfo}

def Exported (ws : Workspace) (c : Checks) (o : Object) : Prop :=
  ∃ q ∈ ws.packages, c.Begun q ∧ o.Own q.key (Declared.ofFiles q.key q.files).defs

theorem apart_files (hws : ws.Loaded) (hp : p ∈ ws.packages) : Apart p.files := by
  have hall := (List.nodup_flatMap.mp (List.map_flatMap ▸ hws.paths)).1 p hp
  rw [Package.allFiles, if_pos rfl, List.map_append] at hall
  exact (List.nodup_append.mp hall).1

theorem Answer.binds (hws : ws.Loaded) {path : String} {h : Handle} (ha : Answer ws c path h) :
    Frame.Binds (Exported ws c) h.names := by
  cases ha with
  | outside => exact nofun
  | @inside q _ hq hb =>
    have hkept : (Declared.ofFiles q.key q.files).Kept q.files q.key :=
      Declared.kept_ofFiles (apart_files hws hq)
        fun f hf => hws.parsed f (Workspace.files_subset hq hf)
    exact hkept.names.imp fun o ho => ⟨q, hq, hb, ho⟩

/-- What the check of a package has recorded when it has come to its end. -/
theorem Ended.recorded (hws : ws.Loaded) (hp : p ∈ ws.packages) (h : Ended ws c p)
    (hi : c.info? p = some i) :
    Recorded p.files p.key (Exported ws c) [] i.defs i.uses ∧
      Extends (Declared.ofFiles p.key p.files).defs i.defs := by
  obtain ⟨linked, hl, hinfo, _⟩ := h
  obtain rfl := Option.some.inj (hi.symm.trans hinfo)
  apply Outcome.recorded (apart_files hws hp)
    (fun f hf => hws.parsed f (Workspace.files_subset hp hf)) hl.files
  intro fl hfl
  obtain ⟨answers, hr⟩ := hl.resolves fl hfl
  obtain ⟨hfile, hpackage, himports, hdots⟩ :=
    Linked.ofAnswers_handles (Q := fun h => Frame.Binds (Exported ws c) h.names) p.key fl.1
      fun a ha => (hr.answered a ha).binds hws
  rw [hr.linked]
  exact ⟨hfile, hpackage, himports, hdots⟩

/-- How definitions and uses of a package fit together. -/
structure Integral (ws : Workspace) (c : Checks) (p : Package) (i : TypeInfo) : Prop where
  apart : ∀ spot, (i.defs.lookup spot).isSome → i.uses.lookup spot = none
  defined : ∀ spot o, i.defs.lookup spot = some o → o.spot = some spot
  spelled : ∀ spot o, i.uses.lookup spot = some o → Occurs p.files spot o.name
  declared : ∀ spot o place, i.uses.lookup spot = some o → o.spot = some place →
    ∃ q ∈ ws.packages, q.key = o.package ∧ ∃ j, c.info? q = some j ∧ Defines j.defs place o

theorem integral_of_ended (hws : ws.Loaded)
    (hended : ∀ q ∈ ws.packages, c.Begun q → Ended ws c q) (hp : p ∈ ws.packages)
    (hi : c.info? p = some i) : Integral ws c p i := by
  obtain ⟨hrec, -⟩ := (hended p hp (begun_of_info hi)).recorded hws hp hi
  constructor
  · intro spot hspot
    cases hu : i.uses.lookup spot with
    | none => rfl
    | some o =>
      rw [(hrec.used spot o hu).1] at hspot
      cases hspot
  · intro spot o ho
    exact (hrec.defined spot o ho).1
  · intro spot o ho
    exact (hrec.used spot o ho).2.1
  · intro spot o place ho hplace
    rcases (hrec.used spot o ho).2.2 place hplace with ⟨q, hq, hb, hown⟩ | ⟨hkey, hdefines⟩
    · obtain ⟨j, hj⟩ := Option.isSome_iff_exists.mp hb
      obtain ⟨-, hgrown⟩ := (hended q hq hb).recorded hws hq hj
      exact ⟨q, hq, hown.package.symm, j, hj, hgrown place o (hown.defined place hplace)⟩
    · exact ⟨p, hp, hkey.symm, i, hi, hdefines⟩

/-- Whatever has been asked for, the definitions and uses of every package with information fit
together, and with those of the packages it imports. -/
theorem integral_performAll {s : Files.Store} {root : String} {respectIgnore : Bool}
    {log : List LogRecord} (hs : s.Proper)
    (hws : Load.workspace s root respectIgnore = (.ok ws, log)) (rs : List (Request ws))
    (hp : p ∈ ws.packages) (hi : (performAll ws {} rs).info? p = some i) :
    Integral ws (performAll ws {} rs) p i := by
  have hloaded := Load.loaded hs hws
  obtain ⟨-, hG⟩ := performAll_sound hloaded.distinct (sound_empty ws) rs
  apply integral_of_ended hloaded _ hp hi
  intro q hq hb
  exact hG.ended q hq (by simp [Begun, info?]) hb

/-- Two packages that use each other's variables. -/
theorem integral_ring : ∃ ws log, Load.workspace Load.ring "/ws" true = (.ok ws, log) ∧
    ws.packages.map (·.path) = ["/ws", "/ws/b"] ∧
    ∀ p, (hp : p ∈ ws.packages) → ∃ i, (performAll ws {} [.check p hp]).info? p = some i ∧
      Integral ws (performAll ws {} [.check p hp]) p i := by
  obtain ⟨ws, log, hws, -, hpaths⟩ := Load.workspace_ring
  have hloaded := Load.loaded Load.proper_ring hws
  refine ⟨ws, log, hws, hpaths, ?_⟩
  intro p hp
  obtain ⟨hsound, -⟩ := performAll_sound hloaded.distinct (sound_empty ws) []
  obtain ⟨i, hi⟩ := Option.isSome_iff_exists.mp (ensures_ensure hloaded.distinct p hp _ hsound).2.2
  exact ⟨i, hi, integral_performAll Load.proper_ring hws [.check p hp] hp hi⟩

end Checks

end GoAtlas.Check
