import Mathlib.Logic.Relation
import GoAtlas.Proofs.Check.Requests

namespace GoAtlas

open Relation

/-- A check of the first package follows an import that leads to the second. -/
def Workspace.Imports (ws : Workspace) (p q : Package) : Prop :=
  ∃ f ∈ p.files, ∃ i ∈ f.imports, Check.Linked.isFollowed i ∧ ws.packageForImport? i.path = some q

/-- No package imports itself, directly or through others. -/
def Workspace.Acyclic (ws : Workspace) : Prop :=
  ∀ p ∈ ws.packages, ¬TransGen ws.Imports p p

namespace Check

variable {ws : Workspace} {p q : Package}

def answerBy (ws : Workspace) (errors : Package → List Failure) (path : String) : Handle :=
  match ws.packageForImport? path with
  | none => Handle.outside path (Name.ofImportPath path)
  | some q => Checks.handleOf q (errors q).isEmpty

def linksBy (answer : String → Handle) (p : Package) : List (SourceFile × Linked) :=
  p.files.map fun f =>
    (f, Linked.ofAnswers p.key f
      ((f.imports.filter Linked.isFollowed).map fun i => (i, answer i.path)))

theorem linksBy_congr {answer answer' : String → Handle}
    (h : ∀ f ∈ p.files, ∀ i ∈ f.imports, Linked.isFollowed i → answer i.path = answer' i.path) :
    linksBy answer p = linksBy answer' p := by
  apply List.map_congr_left
  intro f hf
  congr 2
  apply List.map_congr_left
  intro i hi
  obtain ⟨hi, hfollowed⟩ := List.mem_filter.mp hi
  rw [h f hf i hi hfollowed]

theorem eq_map_fst {α β : Type} {l : List (α × β)} {g : α → β} (h : ∀ x ∈ l, x.2 = g x.1) :
    l = (l.map (·.1)).map fun a => (a, g a) := by
  induction l with
  | nil => rfl
  | cons x l ih =>
    rw [List.map_cons, List.map_cons, ← ih fun y hy => h y (List.mem_cons_of_mem x hy),
      ← h x List.mem_cons_self]

/-- The errors of a package, as they follow from the errors of the packages it imports. -/
inductive Verdict (ws : Workspace) : Package → List Failure → Prop
  | check {p : Package} (errors : Package → List Failure) :
      (∀ q, ws.Imports p q → Verdict ws q (errors q)) →
      Verdict ws p (Outcome.ofLinked p.key p.files (linksBy (answerBy ws errors) p)).errors

theorem Verdict.unique {es es' : List Failure} (h : Verdict ws p es) (h' : Verdict ws p es') :
    es = es' := by
  induction h generalizing es' with
  | check errors h ih =>
    obtain ⟨errors', h'⟩ := h'
    rw [linksBy_congr]
    intro f hf i hi hfollowed
    rw [answerBy, answerBy]
    cases hq : ws.packageForImport? i.path with
    | none => rfl
    | some q =>
      have himports : ws.Imports _ q := ⟨f, hf, i, hi, hfollowed, hq⟩
      simp only [ih q himports (h' q himports)]

theorem exists_errors (ws : Workspace) :
    ∃ errors : Package → List Failure, ∀ q es, Verdict ws q es → errors q = es := by
  classical
  refine ⟨fun q => if h : ∃ es, Verdict ws q es then h.choose else [], fun q es h => ?_⟩
  have hex : ∃ es, Verdict ws q es := ⟨es, h⟩
  simp only [dif_pos hex]
  exact hex.choose_spec.unique h

def Justified (ws : Workspace) (path : String) (h : Handle) : Prop :=
  (ws.packageForImport? path = none → h = Handle.outside path (Name.ofImportPath path)) ∧
    ∀ q, ws.packageForImport? path = some q →
      ∃ es, Verdict ws q es ∧ h = Checks.handleOf q es.isEmpty

/-- Where the answers to its imports are justified, the errors of a package are its verdict. -/
theorem Verdict.ofLinked {linked : List (SourceFile × Linked)} (hfiles : linked.map (·.1) = p.files)
    (hresolves : ∀ fl ∈ linked, ∃ answers,
      Linked.Resolves (fun path h => Justified ws path h) p.key fl.1 fl.2 answers) :
    Verdict ws p (Outcome.ofLinked p.key p.files linked).errors := by
  obtain ⟨errors, herrors⟩ := exists_errors ws
  have hanswer : ∀ path h, Justified ws path h → h = answerBy ws errors path := by
    rintro path h ⟨houtside, hinside⟩
    rw [answerBy]
    cases hq : ws.packageForImport? path with
    | none => exact houtside hq
    | some q =>
      obtain ⟨es, hes, rfl⟩ := hinside q hq
      simp only [herrors q es hes]
  have hlinks : linked = linksBy (answerBy ws errors) p := by
    rw [linksBy, ← hfiles]
    apply eq_map_fst
    intro fl hfl
    obtain ⟨answers, himports, hanswered, hlinked⟩ := hresolves fl hfl
    rw [hlinked, ← himports]
    congr 1
    apply eq_map_fst
    exact fun a ha => hanswer _ _ (hanswered a ha)
  rw [hlinks]
  apply Verdict.check errors
  rintro q ⟨f, hf, i, hi, hfollowed, hq⟩
  -- a link of that file answers the import, and its answer is justified
  obtain ⟨fl, hfl, rfl⟩ := List.mem_map.mp (hfiles ▸ hf)
  obtain ⟨answers, himports, hanswered, -⟩ := hresolves fl hfl
  have hmem : i ∈ answers.map (·.1) := by
    rw [himports]
    exact List.mem_filter.mpr ⟨hi, hfollowed⟩
  obtain ⟨a, ha, rfl⟩ := List.mem_map.mp hmem
  obtain ⟨es, hes, -⟩ := (hanswered a ha).2 q hq
  rw [herrors q es hes]
  exact hes

namespace Checks

variable {c d : Checks} {path : String} {h : Handle}

def Underway (c : Checks) (p : Package) : Prop :=
  c.Begun p ∧ ∀ es, .ended p.path es ∉ c.history

def Judged (ws : Workspace) (c : Checks) : Prop :=
  ∀ p ∈ ws.packages, ∀ es, .ended p.path es ∈ c.history → Verdict ws p es

def Reaching (ws : Workspace) (c : Checks) (p : Package) : Prop :=
  ∀ q ∈ ws.packages, c.Underway q → TransGen ws.Imports q p

theorem Ended.not_underway (he : Ended ws c p) : ¬c.Underway p := by
  obtain ⟨linked, -, -, hended, -⟩ := he
  exact fun h => h.2 _ hended

theorem Grows.underway (hG : Grows ws c d) (hp : p ∈ ws.packages) (h : d.Underway p) :
    c.Underway p := by
  constructor
  · by_contra hn
    exact (hG.ended p hp hn h.1).not_underway h
  · intro es hes
    exact h.2 es (hG.history _ hes)

theorem Reaching.grows (h : Reaching ws c p) (hG : Grows ws c d) : Reaching ws d p :=
  fun q hq hu => h q hq (hG.underway hq hu)

/-- While a package is checked, all that is under check leads to what it imports. -/
theorem Reaching.start (hws : ws.Distinct) (hp : p ∈ ws.packages) (h : Reaching ws c p)
    (hpq : ws.Imports p q) : Reaching ws (c.start p) q := by
  rintro r hr ⟨hbegun, hended⟩
  rcases (begun_start_iff hws hp hr).mp hbegun with rfl | hbegun
  · exact .single hpq
  · refine .tail (h r hr ⟨hbegun, fun es hes => hended es ?_⟩) hpq
    exact (mem_history_start (by simp)).mpr hes

theorem Sound.handle_of_registered (hk : ws.Keyed) (hs : Sound ws c)
    (hq : ws.packageForImport? path = some q) (hr : c.registered? path = some h) :
    c.handles.lookup q.path = some h := by
  obtain ⟨directory, hholder, hhandle⟩ := Option.bind_eq_some_iff.mp hr
  obtain ⟨q', hq', rfl, rfl, -⟩ := hs.held path directory hholder
  obtain rfl : q' = q := Option.some.inj ((hk q' hq').symm.trans hq)
  exact hhandle

theorem follow_snd (ws : Workspace) (ensure : Package → Checks → Checks) (path : String)
    (c : Checks) : (follow ws ensure path c).2 = c ∨
      ∃ q, ws.packageForImport? path = some q ∧ (follow ws ensure path c).2 = ensure q c := by
  unfold follow
  cases hq : ws.packageForImport? path with
  | none => exact .inl rfl
  | some q =>
    by_cases ht : (c.typed? q).isSome
    · left
      simp only [ht, if_true]
      split
      · rfl
      · split <;> rfl
    · right
      refine ⟨q, rfl, ?_⟩
      simp only [ht, Bool.false_eq_true, if_false]
      split
      · rfl
      · split <;> rfl

theorem followInside_snd (ws : Workspace) (ensure : Package → Checks → Checks) (path : String)
    (c : Checks) : (followInside ws ensure path c).2 = c ∨
      ∃ q, ws.packageForImport? path = some q ∧ (followInside ws ensure path c).2 = ensure q c := by
  unfold followInside
  split
  · split
    · exact follow_snd ws ensure path c
    · exact .inl rfl
  · exact follow_snd ws ensure path c

theorem handle_of_follow {ensure : Package → Checks → Checks} (hk : ws.Keyed)
    (hd : Sound ws d) (hq : ws.packageForImport? path = some q)
    (hf : follow ws ensure path c = (.ok h, d)) : d.handles.lookup q.path = some h := by
  simp only [follow, hq] at hf
  generalize (if (c.typed? q).isSome then c else ensure q c) = e at hf
  split at hf
  · next h' ht =>
    obtain ⟨rfl, rfl⟩ : h' = h ∧ e = d := by simpa using hf
    exact (Option.filter_eq_some_iff.mp ht).1
  · split at hf
    · next h' hr =>
      obtain ⟨rfl, rfl⟩ : h' = h ∧ e = d := by simpa using hf
      exact hd.handle_of_registered hk (hk q (Workspace.mem_of_packageForImport hq)) hr
    · simp at hf

theorem handle_of_followInside {ensure : Package → Checks → Checks} (hk : ws.Keyed)
    (hd : Sound ws d) (hq : ws.packageForImport? path = some q)
    (hf : followInside ws ensure path c = (.ok h, d)) : d.handles.lookup q.path = some h := by
  unfold followInside at hf
  split at hf
  · next h' hr =>
    split at hf
    · exact handle_of_follow hk hd hq hf
    · obtain ⟨rfl, rfl⟩ : h' = h ∧ c = d := by simpa using hf
      exact hd.handle_of_registered hk hq hr
  · exact handle_of_follow hk hd hq hf

/-- What is known of the checks while `p` is under check: nothing but `p` and what leads to it is. -/
structure Judging (ws : Workspace) (depth : Nat) (p : Package) (c : Checks) : Prop where
  sound : Sound ws c
  room : unchecked ws c < depth
  judged : Judged ws c
  reaching : ∀ q, ws.Imports p q → Reaching ws c q

def Judges (ws : Workspace) (depth : Nat) : Prop :=
  ∀ p ∈ ws.packages, ∀ c, Sound ws c → unchecked ws c < depth → Judged ws c → Reaching ws c p →
    Judged ws (ensureTo ws depth p c)

theorem Judges.answering (hws : ws.Distinct) (hk : ws.Keyed) (ha : ws.Acyclic) {depth : Nat}
    (hj : Judges ws depth) (p : Package) :
    Linked.Answering (followInside ws (ensureTo ws depth))
      (fun path => ∀ q, ws.packageForImport? path = some q → ws.Imports p q) (Judging ws depth p)
      (Grows ws) (fun _ path h => Justified ws path h) (fun _ _ => True) where
  refl := .refl ws
  trans := .trans
  allowed _ h := h
  known _ _ := trivial
  answer path c hpath hc := by
    have hensures := ensures_ensureTo hws depth
    obtain ⟨h, d, hf, ⟨hsound, hroom⟩, hG, hanswer, hknown⟩ :=
      hensures.followInside (fun _ h => h.1) path c ⟨hc.sound, hc.room⟩
    have hjudged : Judged ws d := by
      have hsnd : (followInside ws (ensureTo ws depth) path c).2 = d := by rw [hf]
      rcases followInside_snd ws (ensureTo ws depth) path c with he | ⟨q, hq, he⟩
      · rw [← hsnd, he]
        exact hc.judged
      · rw [← hsnd, he]
        exact hj q (Workspace.mem_of_packageForImport hq) c hc.sound hc.room hc.judged
          (hc.reaching q (hpath q hq))
    have hreaching : ∀ q, ws.Imports p q → Reaching ws d q :=
      fun q hq => (hc.reaching q hq).grows hG
    refine ⟨h, d, hf, ⟨hsound, hroom, hjudged, hreaching⟩, hG, ⟨fun hnone => ?_, fun q hq => ?_⟩,
      trivial⟩
    · cases hanswer with
      | outside _ => rfl
      | inside complete hq' _ hway =>
        rcases hway with rfl | ⟨q₀, hq₀, -⟩
        · cases (hk _ hq').symm.trans hnone
        · cases hq₀.symm.trans hnone
    · have hqm := Workspace.mem_of_packageForImport hq
      have hbegun : d.Begun q := hknown.begun hk hq
      -- were the package under check, it would lead to itself
      have hover : ¬d.Underway q := fun hu => ha q hqm (hreaching q (hpath q hq) q hqm hu)
      obtain ⟨es, hes⟩ : ∃ es, .ended q.path es ∈ d.history := by
        by_contra hnone
        exact hover ⟨hbegun, fun es hes => hnone ⟨es, hes⟩⟩
      refine ⟨es, hjudged q hqm es hes, ?_⟩
      have hhandle := handle_of_followInside hk hsound hq hf
      exact Option.some.inj (hhandle.symm.trans (hsound.ended q hqm es hes).2)

theorem judges_ensureTo (hws : ws.Distinct) (hk : ws.Keyed) (ha : ws.Acyclic) (depth : Nat) :
    Judges ws depth := by
  induction depth with
  | zero => exact fun p hp c _ hroom => (Nat.not_lt_zero _ hroom).elim
  | succ depth ih =>
    intro p hp c hs hroom hc hreaching
    by_cases hb : c.Begun p
    · rw [ensureTo_of_begun depth hb]
      exact hc
    · have hless := unchecked_start hws hp hb
      have hstart : Judged ws (c.start p) := by
        intro q hq es hes
        exact hc q hq es ((mem_history_start (by simp)).mp hes)
      obtain ⟨linked, d, hl, hfiles, hresolves, hd, -, -⟩ :=
        (ih.answering hws hk ha p).files p.key p.files
          (fun f hf i hi hfollowed q hq => ⟨f, hf, i, hi, hfollowed, hq⟩) (c.start p)
          ⟨hs.start hws hp hb, by omega, hstart, fun q hpq => hreaching.start hws hp hpq⟩
      have hverdict := Verdict.ofLinked hfiles hresolves
      have hcheck : checkFiles (followInside ws (ensureTo ws depth)) p.key p.files (c.start p) =
          (Outcome.ofLinked p.key p.files linked, d) := by
        simp only [checkFiles, hl]
      rw [ensureTo_of_check hb hcheck]
      intro q hq es hes
      rcases mem_history_finish.mp hes with hes | hes
      · exact hd.judged q hq es hes
      · obtain ⟨hpath, rfl⟩ := Event.ended.inj hes
        rw [hws q hq p hp hpath]
        exact hverdict

theorem judged_empty (ws : Workspace) : Judged ws {} := by
  intro p hp es hes
  cases hes

theorem judged_ensure (hws : ws.Distinct) (hk : ws.Keyed) (ha : ws.Acyclic) (hs : Sound ws c)
    (hover : ∀ q ∈ ws.packages, ¬c.Underway q) (hc : Judged ws c) (hp : p ∈ ws.packages) :
    Judged ws (ensure ws p c) :=
  judges_ensureTo hws hk ha _ p hp c hs (Nat.lt_succ_of_le List.countP_le_length) hc
    fun q hq hu => (hover q hq hu).elim

theorem judged_perform (hws : ws.Distinct) (hk : ws.Keyed) (ha : ws.Acyclic) (hs : Sound ws c)
    (hover : ∀ q ∈ ws.packages, ¬c.Underway q) (hc : Judged ws c) (r : Request ws) :
    Judged ws (perform ws c r) := by
  cases r with
  | check p hp => exact judged_ensure hws hk ha hs hover hc hp
  | follow path =>
    rcases follow_snd ws (ensure ws) path c with he | ⟨q, hq, he⟩
    · rw [perform, importPath, he]
      exact hc
    · rw [perform, importPath, he]
      exact judged_ensure hws hk ha hs hover hc (Workspace.mem_of_packageForImport hq)

theorem judged_performAll (hws : ws.Distinct) (hk : ws.Keyed) (ha : ws.Acyclic) (hs : Sound ws c)
    (hover : ∀ q ∈ ws.packages, ¬c.Underway q) (hc : Judged ws c) (rs : List (Request ws)) :
    Judged ws (performAll ws c rs) := by
  induction rs generalizing c with
  | nil => exact hc
  | cons r rs ih =>
    obtain ⟨hS, hG⟩ := perform_sound hws hs r
    apply ih hS
    · exact fun q hq hu => hover q hq (hG.underway hq hu)
    · exact judged_perform hws hk ha hs hover hc r

/-- Once a package has been checked, its verdict is the one report of errors on it, and it has a
handle to go by if there are none. -/
theorem verdict_performAll (hws : ws.Distinct) (hk : ws.Keyed) (ha : ws.Acyclic)
    (rs : List (Request ws)) (hp : p ∈ ws.packages)
    (hb : ((performAll ws {} rs).info? p).isSome) :
    ∃ es, Verdict ws p es ∧ (∀ es', .ended p.path es' ∈ (performAll ws {} rs).history ↔ es' = es) ∧
      (((performAll ws {} rs).typed? p).isSome ↔ es = []) := by
  obtain ⟨hs, hG⟩ := performAll_sound hws (sound_empty ws) rs
  have hjudged : Judged ws (performAll ws {} rs) :=
    judged_performAll hws hk ha (sound_empty ws) (fun q _ hu => by simp [Underway, Begun, info?] at hu)
      (judged_empty ws) rs
  have hended : ∀ q ∈ ws.packages, (performAll ws {} rs).Begun q → Ended ws (performAll ws {} rs) q :=
    fun q hq hbq => hG.ended q hq (by simp [Begun, info?]) hbq
  obtain ⟨linked, -, -, hes, -⟩ := hended p hp hb
  have hverdict := hjudged p hp _ hes
  refine ⟨_, hverdict, fun es' => ⟨fun hes' => ?_, fun he => he ▸ hes⟩,
    (hs.settled hk hended).typed p hp _ hes⟩
  exact (hjudged p hp es' hes').unique hverdict

/-- Where no package imports itself, directly or through others, any two orders of requests in which
a package is checked report the same errors on it, and accept it both or neither. -/
theorem verdict_unique {s : Files.Store} {root : String} {respectIgnore : Bool}
    {log : List LogRecord} {m : ModuleFile} (hs : s.Proper)
    (hload : Load.workspace s root respectIgnore = (.ok ws, log)) (hm : ws.module? = some m)
    (hne : m.path ≠ "") (hacyclic : ws.Acyclic) (rs rs' : List (Request ws))
    (hp : p ∈ ws.packages) (hb : ((performAll ws {} rs).info? p).isSome)
    (hb' : ((performAll ws {} rs').info? p).isSome) :
    (((performAll ws {} rs).typed? p).isSome ↔ ((performAll ws {} rs').typed? p).isSome) ∧
    ∃ es, (∀ es', .ended p.path es' ∈ (performAll ws {} rs).history ↔ es' = es) ∧
      (∀ es', .ended p.path es' ∈ (performAll ws {} rs').history ↔ es' = es) ∧
      (((performAll ws {} rs).typed? p).isSome ↔ es = []) := by
  have hws := Load.loaded hs hload
  have hk := hws.keyed hm hne
  obtain ⟨es, hverdict, hreported, htyped⟩ :=
    verdict_performAll hws.distinct hk hacyclic rs hp hb
  obtain ⟨es', hverdict', hreported', htyped'⟩ :=
    verdict_performAll hws.distinct hk hacyclic rs' hp hb'
  obtain rfl := hverdict.unique hverdict'
  exact ⟨htyped.trans htyped'.symm, es, hreported, hreported', htyped⟩

theorem acyclic_of_directories (source target : String) (hne : source ≠ target)
    (h : ∀ p ∈ ws.packages, ∀ q, ws.Imports p q → p.path = source ∧ q.path = target) :
    ws.Acyclic := by
  intro p hp hcycle
  obtain ⟨q, hfirst, hrest⟩ := TransGen.head'_iff.mp hcycle
  obtain ⟨hsource, htarget⟩ := h p hp q hfirst
  obtain ⟨f, -, i, -, -, hq⟩ := hfirst
  rcases ReflTransGen.cases_head hrest with rfl | ⟨r, hnext, -⟩
  · exact hne (hsource.symm.trans htarget)
  · have hnext := (h q (Workspace.mem_of_packageForImport hq) r hnext).1
    exact hne (hnext.symm.trans htarget)

end Checks

end Check

namespace Load

def chainOuter : ByteArray :=
  "package a\n\nimport \"m/b\"\n\nvar X = b.Z\n".toUTF8

def chainInner : ByteArray :=
  "package b\n\nvar Y = q\n".toUTF8

/-- A module one of whose two packages imports the other. -/
def chain : Files.Store :=
  nested chainOuter chainInner

theorem proper_chain : chain.Proper :=
  (sound_nested chainOuter chainInner).proper

theorem workspace_chain : ∃ log outer inner,
    workspace chain "/ws" true = (.ok (nestedWorkspace chainOuter chainInner outer inner), log) ∧
    (outer.imports chainOuter).map (·.path) = ["m/b"] ∧ inner.imports chainInner = [] := by
  obtain ⟨outer, houter, himports⟩ : ∃ tree ∈ Syntax.parse? chainOuter,
      (tree.imports chainOuter).map (·.path) = ["m/b"] := by
    decide +kernel
  obtain ⟨inner, hinner, hnone⟩ : ∃ tree ∈ Syntax.parse? chainInner, tree.imports chainInner = [] := by
    decide +kernel
  obtain ⟨log, hload⟩ := (nested_nested chainOuter chainInner).workspace houter hinner
  exact ⟨log, outer, inner, hload, himports, hnone⟩

end Load

namespace Check.Checks

theorem acyclic_chain {outer inner : Syntax.Tree}
    (hk : (Load.nestedWorkspace Load.chainOuter Load.chainInner outer inner).Keyed)
    (houter : (outer.imports Load.chainOuter).map (·.path) = ["m/b"])
    (hinner : inner.imports Load.chainInner = []) :
    (Load.nestedWorkspace Load.chainOuter Load.chainInner outer inner).Acyclic := by
  obtain ⟨hpath, hpath'⟩ := Load.path_nested Load.chainOuter Load.chainInner outer inner
  apply acyclic_of_directories "/ws" "/ws/b" (by decide)
  rintro p hp q ⟨f, hf, i, hi, -, hq⟩
  rcases List.mem_pair.mp hp with rfl | rfl
  · rw [Load.files_nestedOuter, List.mem_singleton] at hf
    subst hf
    have hi : i.path ∈ ["m/b"] := houter ▸ List.mem_map_of_mem hi
    have hkey := hk (Load.nestedInner Load.chainOuter Load.chainInner inner)
      (List.mem_pair.mpr (.inr rfl))
    rw [List.mem_singleton.mp hi] at hq
    rw [Option.some.inj (hq.symm.trans hkey)]
    exact ⟨hpath, hpath'⟩
  · rw [Load.files_nestedInner, List.mem_singleton] at hf
    subst hf
    have hi : i ∈ inner.imports Load.chainInner := hi
    rw [hinner] at hi
    cases hi

/-- Two packages of which one imports the other: whether the imported one is asked for before does
not matter, although a member it lacks is an error only if it has no errors of its own. -/
theorem verdict_unique_chain : ∃ ws log p q, ∃ hp : p ∈ ws.packages, ∃ hq : q ∈ ws.packages,
    Load.workspace Load.chain "/ws" true = (.ok ws, log) ∧ p.path = "/ws" ∧ q.path = "/ws/b" ∧
    ∃ es, (∀ es', .ended "/ws" es' ∈ (performAll ws {} [.check p hp]).history ↔ es' = es) ∧
      ∀ es', .ended "/ws" es' ∈ (performAll ws {} [.check q hq, .check p hp]).history ↔
        es' = es := by
  obtain ⟨log, outer, inner, hload, houter, hinner⟩ := Load.workspace_chain
  obtain ⟨hpath, hpath'⟩ := Load.path_nested Load.chainOuter Load.chainInner outer inner
  generalize hname : Load.nestedWorkspace Load.chainOuter Load.chainInner outer inner = ws at hload
  have hws := Load.loaded Load.proper_chain hload
  have hm : ws.module? = some { path := "m" } := hname ▸ rfl
  have hp : Load.nestedOuter Load.chainOuter outer ∈ ws.packages := hname ▸ List.mem_cons_self
  have hq : Load.nestedInner Load.chainOuter Load.chainInner inner ∈ ws.packages :=
    hname ▸ List.mem_pair.mpr (.inr rfl)
  have hacyclic : ws.Acyclic :=
    hname ▸ acyclic_chain (hname ▸ hws.keyed hm (by decide)) houter hinner
  have hchecked : ∀ rs : List (Request ws), ((performAll ws {} (rs ++ [.check _ hp])).info?
      (Load.nestedOuter Load.chainOuter outer)).isSome := by
    intro rs
    rw [performAll_append]
    exact (ensures_ensure hws.distinct _ hp _ (performAll_sound hws.distinct (sound_empty ws) rs).1).2.2
  obtain ⟨-, es, hone, hother, -⟩ := verdict_unique Load.proper_chain hload hm (by decide) hacyclic
    [.check _ hp] [.check _ hq, .check _ hp] hp (hchecked []) (hchecked [.check _ hq])
  rw [hpath] at hone hother
  exact ⟨ws, log, _, _, hp, hq, hload, hpath, hpath', es, hone, hother⟩

end Check.Checks

end GoAtlas
