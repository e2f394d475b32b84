import GoAtlas.Check.Demand
import GoAtlas.Proofs.Check.Linking
import Mathlib.Data.List.Basic
import Mathlib.Data.List.Count

namespace GoAtlas

def Workspace.Distinct (ws : Workspace) : Prop :=
  ∀ p ∈ ws.packages, ∀ q ∈ ws.packages, p.path = q.path → p = q

theorem Workspace.mem_of_packageForImport {ws : Workspace} {path : String} {p : Package}
    (h : ws.packageForImport? path = some p) : p ∈ ws.packages := by
  obtain ⟨d, _, hd⟩ := Option.bind_eq_some_iff.mp h
  exact List.mem_of_find?_eq_some hd

namespace Check

def Event.begun? : Event → Option String
  | .begun d => some d
  | _ => none

namespace Checks

open Syntax

variable {ws : Workspace} {c d e : Checks} {path : String}

def Begun (c : Checks) (p : Package) : Prop :=
  (c.info? p).isSome

theorem begun_of_info {p : Package} {i : TypeInfo} (h : c.info? p = some i) : c.Begun p :=
  Option.isSome_iff_exists.mpr ⟨i, h⟩

/-- The directories of all checks begun, in order. -/
def begunDirectories (c : Checks) : List String :=
  c.history.filterMap Event.begun?

/-- The handle of a package whose check has been begun. -/
def handleOf (p : Package) (complete : Bool) : Handle :=
  { placeholder p.key p.files with complete }

/-- The handles an import path can lead to. -/
inductive Answer (ws : Workspace) (c : Checks) (path : String) : Handle → Prop
  | outside : ws.packageForImport? path = none →
      Answer ws c path (Handle.outside path (Name.ofImportPath path))
  | inside {q : Package} (complete : Bool) : q ∈ ws.packages → c.Begun q →
      (q.key = path ∨ ∃ q₀, ws.packageForImport? path = some q₀ ∧ q.key = q₀.key) →
      Answer ws c path (handleOf q complete)

/-- A path that leads to a package has been taken up: by the check of that package, or of one that
bears the path as its name. -/
def Known (ws : Workspace) (c : Checks) (path : String) : Prop :=
  ∀ q₀, ws.packageForImport? path = some q₀ →
    c.Begun q₀ ∨ ∃ q ∈ ws.packages, q.key = path ∧ c.Begun q

/-- The links of the files of a package, as imports can be answered. -/
structure Linking (ws : Workspace) (c : Checks) (p : Package)
    (linked : List (SourceFile × Linked)) : Prop where
  files : linked.map (·.1) = p.files
  resolves : ∀ fl ∈ linked, ∃ answers, Linked.Resolves (Answer ws c) p.key fl.1 fl.2 answers

/-- The check of a package has come to its end. -/
def Ended (ws : Workspace) (c : Checks) (p : Package) : Prop :=
  ∃ linked, Linking ws c p linked ∧
    c.info? p = some (Outcome.ofLinked p.key p.files linked).info ∧
    .ended p.path (Outcome.ofLinked p.key p.files linked).errors ∈ c.history ∧
    ∀ f ∈ p.files, ∀ i ∈ f.imports, Linked.isFollowed i → Known ws c i.path

/-- What holds of the checks at any time, also while some are under way. -/
structure Sound (ws : Workspace) (c : Checks) : Prop where
  handle : ∀ p ∈ ws.packages, c.Begun p → ∃ b, c.handles.lookup p.path = some (handleOf p b)
  untouched : ∀ p ∈ ws.packages, ¬c.Begun p → c.handles.lookup p.path = none
  held : ∀ key path, c.holders.lookup key = some path →
    ∃ q ∈ ws.packages, q.path = path ∧ q.key = key ∧ c.Begun q
  holds : ∀ p ∈ ws.packages, c.Begun p → (c.holders.lookup p.key).isSome
  begun : ∀ p ∈ ws.packages, p.path ∈ c.begunDirectories ↔ c.Begun p
  once : c.begunDirectories.Nodup
  whole : ∀ d, .cutOff d ∉ c.history
  ended : ∀ p ∈ ws.packages, ∀ es, .ended p.path es ∈ c.history →
    c.Begun p ∧ c.handles.lookup p.path = some (handleOf p es.isEmpty)

structure Grows (ws : Workspace) (c d : Checks) : Prop where
  keeps : ∀ p ∈ ws.packages, c.Begun p →
    d.info? p = c.info? p ∧ d.handles.lookup p.path = c.handles.lookup p.path
  history : ∀ e ∈ c.history, e ∈ d.history
  ends : ∀ p ∈ ws.packages, c.Begun p → ∀ es, .ended p.path es ∈ d.history →
    .ended p.path es ∈ c.history
  ended : ∀ p ∈ ws.packages, ¬c.Begun p → d.Begun p → Ended ws d p

variable {p q : Package}

theorem Ended.begun (h : Ended ws c p) : c.Begun p := by
  obtain ⟨linked, _, hi, _⟩ := h
  simp [Begun, hi]

/-- Answers and links stay as more checks are begun. -/
theorem Answer.mono {h : Handle} (ha : Answer ws c path h)
    (hb : ∀ q ∈ ws.packages, c.Begun q → d.Begun q) : Answer ws d path h := by
  cases ha with
  | outside hn => exact .outside hn
  | inside complete hq hbegun hk => exact .inside complete hq (hb _ hq hbegun) hk

theorem Linking.mono {linked : List (SourceFile × Linked)} (h : Linking ws c p linked)
    (hb : ∀ q ∈ ws.packages, c.Begun q → d.Begun q) : Linking ws d p linked := by
  refine ⟨h.files, fun fl hfl => ?_⟩
  obtain ⟨answers, hr⟩ := h.resolves fl hfl
  exact ⟨answers, hr.imp fun _ _ ha => ha.mono hb⟩

theorem Ended.withLog (h : Ended ws c p) (log : List LogRecord) : Ended ws { c with log } p := by
  obtain ⟨linked, hl, hi, hh, hk⟩ := h
  exact ⟨linked, hl.mono fun _ _ hb => hb, hi, hh, hk⟩

namespace Grows

theorem begun (h : Grows ws c d) (hp : p ∈ ws.packages) (hb : c.Begun p) : d.Begun p := by
  rw [Begun, (h.keeps p hp hb).1]
  exact hb

theorem known (h : Grows ws c d) (hk : Known ws c path) : Known ws d path := by
  intro q₀ hq
  rcases hk q₀ hq with hb | ⟨q, hm, he, hb⟩
  · exact .inl (h.begun (Workspace.mem_of_packageForImport hq) hb)
  · exact .inr ⟨q, hm, he, h.begun hm hb⟩

theorem keep_ended (h : Grows ws c d) (hp : p ∈ ws.packages) (he : Ended ws c p) :
    Ended ws d p := by
  have hb := he.begun
  obtain ⟨linked, hl, hi, hh, hk⟩ := he
  exact ⟨linked, hl.mono fun _ => h.begun, (h.keeps p hp hb).1.trans hi, h.history _ hh,
    fun f hf i hif hfo => h.known (hk f hf i hif hfo)⟩

theorem refl (ws : Workspace) (c : Checks) : Grows ws c c :=
  ⟨fun _ _ _ => ⟨rfl, rfl⟩, fun _ h => h, fun _ _ _ _ h => h, fun _ _ hn hb => (hn hb).elim⟩

theorem trans (h : Grows ws c d) (h' : Grows ws d e) : Grows ws c e where
  keeps p hp hb :=
    have ⟨hi, hh⟩ := h.keeps p hp hb
    have ⟨hi', hh'⟩ := h'.keeps p hp (h.begun hp hb)
    ⟨hi'.trans hi, hh'.trans hh⟩
  history e he := h'.history e (h.history e he)
  ends p hp hb es he := h.ends p hp hb es (h'.ends p hp (h.begun hp hb) es he)
  ended p hp hn hb := by
    by_cases hd : d.Begun p
    · exact h'.keep_ended hp (h.ended p hp hn hd)
    · exact h'.ended p hp hd hb

end Grows

def unchecked (ws : Workspace) (c : Checks) : Nat :=
  ws.packages.countP fun p => (c.info? p).isNone

theorem Grows.unchecked_le (h : Grows ws c d) : unchecked ws d ≤ unchecked ws c := by
  apply List.countP_mono_left
  intro p hp hn
  cases hc : c.info? p with
  | none => rfl
  | some i =>
    have hd := h.begun hp (by simp [Begun, hc])
    simp_all [Begun]

theorem info?_start (c : Checks) (p q : Package) :
    (c.start p).info? q = if q.path == p.path then some {} else c.info? q := by
  simp only [info?, start, Dict.lookup_put]

theorem begun_start (c : Checks) (p : Package) : (c.start p).Begun p := by
  simp [Begun, info?_start]

theorem begun_start_iff (hws : ws.Distinct) (hp : p ∈ ws.packages) (hq : q ∈ ws.packages) :
    (c.start p).Begun q ↔ q = p ∨ c.Begun q := by
  by_cases h : q.path = p.path
  · have := hws q hq p hp h
    simp [this, begun_start]
  · have hne : q ≠ p := fun he => h (he ▸ rfl)
    simp [Begun, info?_start, h, hne]

theorem unchecked_start (hws : ws.Distinct) (hp : p ∈ ws.packages) (hn : ¬c.Begun p) :
    unchecked ws (c.start p) < unchecked ws c := by
  have hle : ∀ l : List Package, (∀ q ∈ l, q ∈ ws.packages) →
      l.countP (fun q => ((c.start p).info? q).isNone) ≤ l.countP fun q => (c.info? q).isNone := by
    intro l hl
    apply List.countP_mono_left
    intro q hq hs
    have := (begun_start_iff (c := c) hws hp (hl q hq)).not.mp (by simpa [Begun] using hs)
    simpa [Begun] using (not_or.mp this).2
  have hp₀ : (c.info? p).isNone := by simpa [Begun] using hn
  have hp₁ : ((c.start p).info? p).isNone = false := by simp [info?_start]
  obtain ⟨l, r, he⟩ := List.append_of_mem hp
  have hl := hle l fun q hq => by simp [he, hq]
  have hr := hle r fun q hq => by simp [he, hq]
  simp only [unchecked, he, List.countP_append, List.countP_cons, hp₀, hp₁]
  simp only [if_true, Bool.false_eq_true, if_false]
  omega

theorem handle_start (c : Checks) (p : Package) (path : String) :
    (c.start p).handles.lookup path =
      if path == p.path then some (handleOf p false) else c.handles.lookup path := by
  simp only [start, Dict.lookup_put]
  rfl

theorem holder_start (c : Checks) (p : Package) (key : String) :
    (c.start p).holders.lookup key =
      if key == p.key then some p.path else c.holders.lookup key := by
  simp only [start, Dict.lookup_put]

theorem begunDirectories_start (c : Checks) (p : Package) :
    (c.start p).begunDirectories = c.begunDirectories ++ [p.path] := by
  simp [begunDirectories, start, Event.begun?]

theorem mem_history_start {v : Event} (hv : v ≠ .begun p.path) :
    v ∈ (c.start p).history ↔ v ∈ c.history := by
  simp [start, hv]

theorem Sound.start (hws : ws.Distinct) (hs : Sound ws c) (hp : p ∈ ws.packages)
    (hn : ¬c.Begun p) : Sound ws (c.start p) where
  handle q hq hb := by
    rw [handle_start]
    rcases (begun_start_iff hws hp hq).mp hb with rfl | hb
    · exact ⟨false, by simp⟩
    · have hne : q.path ≠ p.path := fun he => hn (hws q hq p hp he ▸ hb)
      simpa [hne] using hs.handle q hq hb
  untouched q hq hb := by
    have ⟨hne, hb⟩ := not_or.mp ((begun_start_iff hws hp hq).not.mp hb)
    have hne : q.path ≠ p.path := fun he => hne (hws q hq p hp he)
    simpa [handle_start, hne] using hs.untouched q hq hb
  held key path h := by
    rw [holder_start] at h
    split at h
    · next he =>
      cases h
      exact ⟨p, hp, rfl, (by simpa using he : key = p.key).symm, begun_start c p⟩
    · obtain ⟨q, hq, hpath, hkey, hb⟩ := hs.held key path h
      exact ⟨q, hq, hpath, hkey, (begun_start_iff hws hp hq).mpr (.inr hb)⟩
  holds q hq hb := by
    rw [holder_start]
    split
    · rfl
    · next hne =>
      rcases (begun_start_iff hws hp hq).mp hb with rfl | hb
      · simp at hne
      · exact hs.holds q hq hb
  begun q hq := by
    rw [begunDirectories_start, List.mem_append, hs.begun q hq, begun_start_iff hws hp hq,
      List.mem_singleton, or_comm]
    exact or_congr_left ⟨hws q hq p hp, fun he => he ▸ rfl⟩
  once := by
    rw [begunDirectories_start]
    have hnew := (hs.begun p hp).not.mpr hn
    refine List.nodup_append.mpr ⟨hs.once, by simp, fun a ha b hb he => hnew ?_⟩
    rw [← List.mem_singleton.mp hb, ← he]
    exact ha
  whole d := by
    rw [mem_history_start (by simp)]
    exact hs.whole d
  ended q hq es he := by
    rw [mem_history_start (by simp)] at he
    have ⟨hb, hh⟩ := hs.ended q hq es he
    have hne : q.path ≠ p.path := fun he => hn (hws q hq p hp he ▸ hb)
    exact ⟨(begun_start_iff hws hp hq).mpr (.inr hb), by simpa [handle_start, hne] using hh⟩

variable {o : Outcome}

theorem info?_finish (c : Checks) (p q : Package) (o : Outcome) :
    (c.finish p o).info? q = if q.path == p.path then some o.info else c.info? q := by
  simp only [info?, finish, Dict.lookup_put]

theorem handle_finish (c : Checks) (p : Package) (o : Outcome) (path : String) :
    (c.finish p o).handles.lookup path =
      if path == p.path then some o.handle else c.handles.lookup path := by
  simp only [finish, Dict.lookup_put]

theorem begunDirectories_finish (c : Checks) (p : Package) (o : Outcome) :
    (c.finish p o).begunDirectories = c.begunDirectories := by
  simp [begunDirectories, finish, Event.begun?]

theorem mem_history_finish {v : Event} :
    v ∈ (c.finish p o).history ↔ v ∈ c.history ∨ v = .ended p.path o.errors := by
  simp [finish]

theorem begun_finish (hb : c.Begun p) : (c.finish p o).Begun q ↔ c.Begun q := by
  by_cases h : q.path = p.path
  · have : c.info? q = c.info? p := by simp [info?, h]
    simp only [Begun] at hb ⊢
    simp [info?_finish, h, this, hb]
  · simp [Begun, info?_finish, h]

theorem Sound.finish (hws : ws.Distinct) (hs : Sound ws c) (hp : p ∈ ws.packages)
    (hb : c.Begun p) (hnew : ∀ es, .ended p.path es ∉ c.history)
    (ho : o.handle = handleOf p o.errors.isEmpty) : Sound ws (c.finish p o) where
  handle q hq hbq := by
    rw [handle_finish]
    split
    · next he =>
      obtain rfl := hws q hq p hp (by simpa using he)
      exact ⟨_, congrArg some ho⟩
    · exact hs.handle q hq ((begun_finish hb).mp hbq)
  untouched q hq hn := by
    have hn := (begun_finish hb).not.mp hn
    have hne : q.path ≠ p.path := fun he => hn (hws q hq p hp he ▸ hb)
    simpa [handle_finish, hne] using hs.untouched q hq hn
  held key path h := by
    obtain ⟨q, hq, hpath, hkey, hbq⟩ := hs.held key path h
    exact ⟨q, hq, hpath, hkey, (begun_finish hb).mpr hbq⟩
  holds q hq hbq := hs.holds q hq ((begun_finish hb).mp hbq)
  begun q hq := by
    rw [begunDirectories_finish, begun_finish hb]
    exact hs.begun q hq
  once := by
    rw [begunDirectories_finish]
    exact hs.once
  whole d := by
    simpa [mem_history_finish] using hs.whole d
  ended q hq es he := by
    rw [begun_finish hb, handle_finish]
    rcases mem_history_finish.mp he with he | he
    · have hne : q.path ≠ p.path := by
        intro hpath
        rw [hpath] at he
        exact hnew es he
      simpa [hne] using hs.ended q hq es he
    · simp only [Event.ended.injEq] at he
      obtain rfl := hws q hq p hp he.1
      rw [he.2]
      exact ⟨hb, by simpa using ho⟩

def Ensures (ws : Workspace) (I : Checks → Prop) (ensure : Package → Checks → Checks) : Prop :=
  ∀ p ∈ ws.packages, ∀ c, I c → I (ensure p c) ∧ Grows ws c (ensure p c) ∧ (ensure p c).Begun p

variable {I : Checks → Prop} {ensure : Package → Checks → Checks}

theorem Sound.begun_of_typed (hs : Sound ws c) (hp : p ∈ ws.packages)
    (h : (c.typed? p).isSome) : c.Begun p := by
  by_contra hn
  simp [typed?, hs.untouched p hp hn] at h

theorem Sound.typed (hs : Sound ws c) (hp : p ∈ ws.packages) {h : Handle}
    (ht : c.typed? p = some h) : ∃ b, h = handleOf p b := by
  obtain ⟨b, hb⟩ := hs.handle p hp (hs.begun_of_typed hp (by simp [ht]))
  rw [typed?, hb] at ht
  exact ⟨b, (Option.some.inj (Option.filter_eq_some_iff.mp ht).1).symm⟩

theorem Sound.registered (hs : Sound ws c) {key : String} {h : Handle}
    (hr : c.registered? key = some h) :
    ∃ q ∈ ws.packages, q.key = key ∧ c.Begun q ∧ ∃ b, h = handleOf q b := by
  obtain ⟨path, hh, hp⟩ := Option.bind_eq_some_iff.mp hr
  obtain ⟨q, hq, rfl, hk, hb⟩ := hs.held key path hh
  obtain ⟨b, he⟩ := hs.handle q hq hb
  exact ⟨q, hq, hk, hb, b, Option.some.inj (hp.symm.trans he)⟩

theorem Sound.registered_isSome (hs : Sound ws c) (hp : p ∈ ws.packages) (hb : c.Begun p) :
    (c.registered? p.key).isSome := by
  obtain ⟨path, hh⟩ := Option.isSome_iff_exists.mp (hs.holds p hp hb)
  obtain ⟨q, hq, rfl, _, hbq⟩ := hs.held p.key path hh
  obtain ⟨b, he⟩ := hs.handle q hq hbq
  simp [registered?, hh, he]

theorem Ensures.follow (he : Ensures ws I ensure) (hI : ∀ c, I c → Sound ws c) (path : String)
    (c : Checks) (hc : I c) :
    ∃ h d, follow ws ensure path c = (.ok h, d) ∧ I d ∧ Grows ws c d ∧ Answer ws d path h ∧
      ∀ q₀, ws.packageForImport? path = some q₀ → d.Begun q₀ := by
  cases hq : ws.packageForImport? path with
  | none =>
    refine ⟨_, c, by simp only [Checks.follow, hq], hc, .refl ws c, .outside hq, by simp⟩
  | some q =>
    have hm := Workspace.mem_of_packageForImport hq
    obtain ⟨d, hd, hId, hG, hb⟩ : ∃ d, (if (c.typed? q).isSome then c else ensure q c) = d ∧
        I d ∧ Grows ws c d ∧ d.Begun q := by
      split
      · next ht => exact ⟨c, rfl, hc, .refl ws c, (hI c hc).begun_of_typed hm ht⟩
      · exact ⟨_, rfl, he q hm c hc⟩
    have hknown : ∀ q₀, some q = some q₀ → d.Begun q₀ := by
      rintro q₀ ⟨⟩
      exact hb
    cases ht : d.typed? q with
    | some h =>
      obtain ⟨b, rfl⟩ := (hI d hId).typed hm ht
      exact ⟨_, d, by simp only [Checks.follow, hq, hd, ht], hId, hG,
        .inside b hm hb (.inr ⟨q, hq, rfl⟩), hknown⟩
    | none =>
      obtain ⟨h, hr⟩ := Option.isSome_iff_exists.mp ((hI d hId).registered_isSome hm hb)
      obtain ⟨q', hq', hk, hb', b, rfl⟩ := (hI d hId).registered hr
      exact ⟨_, d, by simp only [Checks.follow, hq, hd, ht, hr], hId, hG,
        .inside b hq' hb' (.inr ⟨q, hq, hk⟩), hknown⟩

theorem Ensures.followInside (he : Ensures ws I ensure) (hI : ∀ c, I c → Sound ws c)
    (path : String) (c : Checks) (hc : I c) :
    ∃ h d, followInside ws ensure path c = (.ok h, d) ∧ I d ∧ Grows ws c d ∧ Answer ws d path h ∧
      Known ws d path := by
  obtain ⟨h, d, hf, hId, hG, hA, hk⟩ := he.follow hI path c hc
  have hk : Known ws d path := fun q₀ hq => .inl (hk q₀ hq)
  cases hr : c.registered? path with
  | none => exact ⟨h, d, by simp only [Checks.followInside, hr, hf], hId, hG, hA, hk⟩
  | some g =>
    by_cases hg : g.complete
    · exact ⟨h, d, by simp only [Checks.followInside, hr, hg, hf, if_true], hId, hG, hA, hk⟩
    · obtain ⟨q, hq, hkey, hb, b, rfl⟩ := (hI c hc).registered hr
      exact ⟨_, c, by simp only [Checks.followInside, hr, if_neg hg], hc, .refl ws c,
        .inside b hq hb (.inl hkey), fun _ _ => .inr ⟨q, hq, hkey, hb⟩⟩

theorem Ensures.answering (he : Ensures ws I ensure) (hI : ∀ c, I c → Sound ws c) :
    Linked.Answering (Checks.followInside ws ensure) (fun _ => True) I (Grows ws) (Answer ws)
      (Known ws) :=
  ⟨.refl ws, .trans, fun h ha => ha.mono fun _ => h.begun, fun h => h.known,
    fun path c _ => he.followInside hI path c⟩

theorem Known.finish (h : Known ws c path) (hb : c.Begun p) :
    Known ws (c.finish p o) path := by
  intro q₀ hq₀
  rcases h q₀ hq₀ with hb₀ | ⟨q, hq, hk, hbq⟩
  · exact .inl ((begun_finish hb).mpr hb₀)
  · exact .inr ⟨q, hq, hk, (begun_finish hb).mpr hbq⟩

/-- A check as a whole, from before its beginning to its end. -/
theorem Grows.finish (hws : ws.Distinct) (hp : p ∈ ws.packages) (hn : ¬c.Begun p)
    (hG : Grows ws (c.start p) d) (he : Ended ws (d.finish p o) p) :
    Grows ws c (d.finish p o) := by
  have hb : d.Begun p := hG.begun hp (begun_start c p)
  have hne : ∀ q ∈ ws.packages, q ≠ p → q.path ≠ p.path :=
    fun q hq hne he => hne (hws q hq p hp he)
  refine ⟨fun q hq hbq => ?_, fun v hv => ?_, fun q hq hbq es hes => ?_, fun q hq hnq hbq => ?_⟩
  · have hqp := hne q hq fun he => hn (he ▸ hbq)
    have ⟨hi, hh⟩ := hG.keeps q hq ((begun_start_iff hws hp hq).mpr (.inr hbq))
    simp only [info?_start, handle_start] at hi hh
    simpa [info?_finish, handle_finish, hqp] using And.intro hi hh
  · exact mem_history_finish.mpr (.inl (hG.history v (by simp [start, hv])))
  · have hqp := hne q hq fun he => hn (he ▸ hbq)
    rcases mem_history_finish.mp hes with hes | hes
    · have := hG.ends q hq ((begun_start_iff hws hp hq).mpr (.inr hbq)) es hes
      rwa [mem_history_start (by simp)] at this
    · simp [hqp] at hes
  · by_cases hqp : q = p
    · exact hqp ▸ he
    · have hnq' : ¬(c.start p).Begun q := by
        rw [begun_start_iff hws hp hq]
        exact not_or.mpr ⟨hqp, hnq⟩
      obtain ⟨linked, hl, hi, hh, hk⟩ := hG.ended q hq hnq' ((begun_finish hb).mp hbq)
      exact ⟨linked, hl.mono fun _ _ => (begun_finish hb).mpr,
        by simpa [info?_finish, hne q hq hqp] using hi,
        mem_history_finish.mpr (.inl hh), fun f hf i hif hfo => (hk f hf i hif hfo).finish hb⟩

/-- The check of a package not yet begun, with the checks of its imports in between. -/
theorem Ensures.check (hws : ws.Distinct) (he : Ensures ws I ensure)
    (hI : ∀ c, I c → Sound ws c) (hp : p ∈ ws.packages) (hs : Sound ws c) (hn : ¬c.Begun p)
    (hc : I (c.start p)) :
    ∃ o d, checkFiles (Checks.followInside ws ensure) p.key p.files (c.start p) = (o, d) ∧
      Sound ws (d.finish p o) ∧ Grows ws c (d.finish p o) ∧ (d.finish p o).Begun p := by
  obtain ⟨linked, d, hl, hfiles, hres, hId, hG, hk⟩ :=
    (he.answering hI).files p.key p.files (fun _ _ _ _ _ => trivial) (c.start p) hc
  have hb : d.Begun p := hG.begun hp (begun_start c p)
  have hnever : ∀ es, .ended p.path es ∉ d.history := by
    intro es hes
    have hes := hG.ends p hp (begun_start c p) es hes
    rw [mem_history_start (by simp)] at hes
    exact hn (hs.ended p hp es hes).1
  have hend : Ended ws (d.finish p (Outcome.ofLinked p.key p.files linked)) p :=
    ⟨linked, Linking.mono ⟨hfiles, hres⟩ fun _ _ => (begun_finish hb).mpr, by simp [info?_finish],
      mem_history_finish.mpr (.inr rfl),
      fun f hf i hi hfo => (hk f hf i hi hfo).finish hb⟩
  exact ⟨_, d, by simp only [checkFiles, hl], (hI d hId).finish hws hp hb hnever rfl,
    hG.finish hws hp hn hend, hend.begun⟩

theorem ensureTo_of_begun (depth : Nat) (hb : c.Begun p) : ensureTo ws (depth + 1) p c = c :=
  if_pos hb

theorem ensureTo_of_check {depth : Nat} (hn : ¬c.Begun p)
    (h : checkFiles (Checks.followInside ws (ensureTo ws depth)) p.key p.files (c.start p) =
      (o, d)) : ensureTo ws (depth + 1) p c = d.finish p o := by
  refine (if_neg hn).trans ?_
  rw [h]

/-- With room for as many nested checks as there are packages left, a package is checked as asked
for and nothing is cut off. -/
theorem ensures_ensureTo (hws : ws.Distinct) (depth : Nat) :
    Ensures ws (fun c => Sound ws c ∧ unchecked ws c < depth) (ensureTo ws depth) := by
  induction depth with
  | zero => exact fun p hp c hc => (Nat.not_lt_zero _ hc.2).elim
  | succ depth ih =>
    rintro p hp c ⟨hs, hlt⟩
    by_cases hb : c.Begun p
    · rw [ensureTo_of_begun depth hb]
      exact ⟨⟨hs, hlt⟩, .refl ws c, hb⟩
    · have hlt' := unchecked_start hws hp hb
      obtain ⟨o, d, hd, hS, hG, hB⟩ := ih.check hws (fun _ h => h.1) hp hs hb
        ⟨hs.start hws hp hb, by omega⟩
      rw [ensureTo_of_check hb hd]
      exact ⟨⟨hS, Nat.lt_of_le_of_lt hG.unchecked_le hlt⟩, hG, hB⟩

theorem ensures_ensure (hws : ws.Distinct) : Ensures ws (Sound ws) (Checks.ensure ws) := by
  intro p hp c hs
  have hlt : unchecked ws c < ws.packages.length + 1 :=
    Nat.lt_succ_of_le List.countP_le_length
  obtain ⟨⟨hS, _⟩, hG, hB⟩ := ensures_ensureTo hws _ p hp c ⟨hs, hlt⟩
  exact ⟨hS, hG, hB⟩

theorem sound_empty (ws : Workspace) : Sound ws {} := by
  constructor <;> simp [Begun, info?, begunDirectories]

end Checks

end Check

end GoAtlas
