import GoAtlas.Proofs.Finding.Anchors
import GoAtlas.Proofs.Finding.Unused
import GoAtlas.Proofs.Report.Subjects
import GoAtlas.Proofs.Report.SymbolIds

namespace GoAtlas

open Files Finding

namespace Report

variable {subject : String}

theorem normalizeExpr_of_isWord (h : Text.IsWord subject) : normalizeExpr subject = subject := by
  rw [← String.toList_inj, toList_normalizeExpr]
  by_cases hempty : subject.toList = []
  · rw [hempty]
    rfl
  · rw [Text.chunksOf_chunk hempty fun c hc => Text.not_isBlank_of_isWordChar (h c hc),
      List.intercalate_singleton]

theorem not_overruns_of_isWord (h : Text.IsWord subject) {path path' subject' : String}
    {line line' column column' : Int} :
    ¬ Overruns path line column subject path' line' column' subject' := by
  rintro ⟨z, -, hsubject⟩
  rw [normalizeExpr_of_isWord h] at hsubject
  have hmem : '@' ∈ subject.toList := by
    rw [hsubject]
    simp [placeText]
  exact absurd (h '@' hmem) (by decide)

end Report

namespace Finding.Tag

open Report

/-- The identifier of a finding in the reports on the workspace at `root`. -/
def id (root kind : String) (a : Tag) : String :=
  diagnosticId kind (Path.shown "/" a.file root) a.line a.column a.subject

/-- A finding whose subject goes on to the path and the place of another, which goes on with its own
place. -/
def Overruns (root : String) (a b : Tag) : Prop :=
  Report.Overruns (Path.shown "/" a.file root) a.line a.column a.subject
    (Path.shown "/" b.file root) b.line b.column b.subject

variable {ws : Workspace} {ns : List String} {a b : Tag} {kind : String}

theorem ne_of_apart (h : ¬ a.Together b) : a ≠ b := by
  rintro rfl
  exact h ⟨rfl, rfl, rfl⟩

def In (ws : Workspace) (a : Tag) : Prop :=
  ∃ f ∈ ws.files true, a.file = f.path

theorem id_eq_iff (h : ws.Rooted ns) (ha : a.In ws) (hb : b.In ws) :
    a.id ws.root kind = b.id ws.root kind ↔
      (a.Together b ∧ normalizeExpr a.subject = normalizeExpr b.subject) ∨
        a.Overruns ws.root b ∨ b.Overruns ws.root a := by
  obtain ⟨f, hf, hfile⟩ := ha
  obtain ⟨g, hg, hfile'⟩ := hb
  have hpaths : Path.shown "/" a.file ws.root = Path.shown "/" b.file ws.root ↔ a.file = b.file := by
    refine ⟨fun he => ?_, fun he => by rw [he]⟩
    rw [hfile, hfile'] at he ⊢
    exact h.path_of_shown hf hg he
  rw [id, id, diagnosticId_eq_iff, hpaths, Together, and_assoc, and_assoc]
  rfl

theorem id_eq_iff_of_apart (h : ws.Rooted ns) (ha : a.In ws) (hb : b.In ws) (hne : ¬ a.Together b) :
    a.id ws.root kind = b.id ws.root kind ↔ a.Overruns ws.root b ∨ b.Overruns ws.root a := by
  rw [id_eq_iff h ha hb]
  simp [hne]

theorem id_eq_iff_of_isWord (h : ws.Rooted ns) (ha : a.In ws) (hb : b.In ws)
    (hword : Text.IsWord a.subject) (hword' : Text.IsWord b.subject) :
    a.id ws.root kind = b.id ws.root kind ↔ a = b := by
  rw [id_eq_iff h ha hb, normalizeExpr_of_isWord hword, normalizeExpr_of_isWord hword']
  have hnever : ¬ a.Overruns ws.root b := not_overruns_of_isWord hword
  have hnever' : ¬ b.Overruns ws.root a := not_overruns_of_isWord hword'
  simp only [hnever, hnever', or_false]
  obtain ⟨file, line, column, subject⟩ := a
  obtain ⟨file', line', column', subject'⟩ := b
  simp only [Together, mk.injEq]
  tauto

end Finding.Tag

namespace Report

/-- The tags of findings by the name of their report. -/
def Findings.tags (f : Findings) : List (String × List Tag) :=
  [("unused", f.unused.map (·.tag)), ("complexity", f.complex.map (·.tag)),
    ("if_init", f.initializers.map (·.tag)), ("boolean_branching", f.switchable.map (·.tag)),
    ("deep_if_else", f.nestings.map (·.tag)), ("error_wrapping", f.wrappings.map (·.tag)),
    ("missing_context", f.contexts.map (·.tag)), ("env_booleans", f.flags.map (·.tag))]

theorem identifiers_records (root : String) (f : Findings) :
    (f.records root).tail.map (fun x => (x.1, x.2.map (·.field? "diagnostic_id"))) =
      f.tags.map fun x => (x.1, x.2.map fun a => some (.str (a.id root x.1))) := by
  simp only [Findings.records, Findings.tags, List.tail_cons, List.map_cons, List.map_nil,
    List.map_map]
  rfl

/-- How findings of a kind can have the same identifier. -/
def Collide (root kind : String) (a b : Tag) : Prop :=
  (kind = "error_wrapping" ∧ a = b) ∨
    ((kind = "unused" ∨ kind = "if_init") ∧ (a.Overruns root b ∨ b.Overruns root a))

section

variable {ws : Workspace} {ns : List String} {kind : String} {l : List Tag}

theorem pairwise_of_isWord (h : ws.Rooted ns) (hin : ∀ a ∈ l, a.In ws)
    (hword : ∀ a ∈ l, Text.IsWord a.subject) (hunused : kind ≠ "unused") (hinit : kind ≠ "if_init")
    (hne : kind ≠ "error_wrapping" → l.Pairwise (· ≠ ·)) :
    l.Pairwise fun a b => (a.id ws.root kind = b.id ws.root kind ↔ Collide ws.root kind a b) := by
  by_cases hk : kind = "error_wrapping"
  · refine List.pairwise_of_forall_mem_list fun a ha b hb => ?_
    rw [Tag.id_eq_iff_of_isWord h (hin a ha) (hin b hb) (hword a ha) (hword b hb)]
    simp [Collide, hk]
  · refine (hne hk).imp_of_mem fun {a b} ha hb hne => ?_
    rw [Tag.id_eq_iff_of_isWord h (hin a ha) (hin b hb) (hword a ha) (hword b hb)]
    simp [Collide, hk, hunused, hinit, hne]

theorem pairwise_of_apart (h : ws.Rooted ns) (hin : ∀ a ∈ l, a.In ws)
    (hkind : kind = "unused" ∨ kind = "if_init") (hapart : l.Pairwise fun a b => ¬ a.Together b) :
    l.Pairwise fun a b => (a.id ws.root kind = b.id ws.root kind ↔ Collide ws.root kind a b) := by
  have hother : kind ≠ "error_wrapping" := by rintro rfl; simp at hkind
  refine hapart.imp_of_mem fun {a b} ha hb hne => ?_
  rw [Tag.id_eq_iff_of_apart h (hin a ha) (hin b hb) hne]
  simp [Collide, hkind, hother]

end

theorem isWord_text (fault : WrappingFault) : Text.IsWord fault.text := by
  cases fault <;> simp [Text.IsWord, WrappingFault.text, Text.isWordChar, Text.isLetter]

theorem text_inj {v w : WrappingFault} (h : v.text = w.text) : v = w := by
  revert h
  cases v <;> cases w <;> simp [WrappingFault.text]

section

variable {ws : Workspace} {ns : List String} {packages : List Package} {α : Type}
  (hws : ws.Loaded) (hsub : packages.Sublist ws.packages)
include hws hsub

theorem parse?_source {f : SourceFile} (hf : f ∈ packages.flatMap (·.files)) :
    f ∈ ws.files true ∧ Syntax.parse? f.content = some f.tree := by
  obtain ⟨p, hp, hf⟩ := List.mem_flatMap.mp hf
  have hmem : f ∈ ws.files true :=
    List.mem_flatMap.mpr ⟨p, hsub.subset hp, List.mem_append_left _ hf⟩
  exact ⟨hmem, (hws.registered f hmem).parsed⟩

theorem nodup_sources : ((packages.flatMap (·.files)).map (·.path)).Nodup := by
  refine hws.paths.sublist (List.Sublist.map _ ((hsub.flatMap _).trans ?_))
  exact List.Sublist.flatMap_right _ fun p _ => List.sublist_append_left _ _

theorem pairwise_found (tag : α → Tag) {R : α → α → Prop}
    (hR : ∀ {x y}, ¬ (tag x).Together (tag y) → R x y) {find : SourceFile → List α}
    (hfile : ∀ {f x}, x ∈ find f → (tag x).file = f.path)
    (hin : ∀ f, Syntax.parse? f.content = some f.tree → (find f).Pairwise R) :
    ((packages.flatMap (·.files)).flatMap find).Pairwise R :=
  pairwise_files tag hR (nodup_sources hws hsub) (fun _ _ _ => hfile)
    fun f hf => hin f (parse?_source hws hsub hf).2

theorem forall_found (tag : α → Tag) {P : Tag → Prop} {find : SourceFile → List α}
    (hfile : ∀ {f x}, x ∈ find f → (tag x).file = f.path)
    (hP : ∀ f, Syntax.parse? f.content = some f.tree → ∀ x ∈ find f, P (tag x)) :
    ∀ a ∈ ((packages.flatMap (·.files)).flatMap find).map tag, a.In ws ∧ P a := by
  intro a ha
  obtain ⟨x, hx, rfl⟩ := List.mem_map.mp ha
  obtain ⟨f, hf, hx⟩ := List.mem_flatMap.mp hx
  obtain ⟨hmem, hparse⟩ := parse?_source hws hsub hf
  exact ⟨⟨f, hmem, hfile hx⟩, hP f hparse x hx⟩

theorem pairwise_words (tag : α → Tag) {find : SourceFile → List α} {kind : String}
    (h : ws.Rooted ns) (hfile : ∀ {f x}, x ∈ find f → (tag x).file = f.path)
    (hword : ∀ f, Syntax.parse? f.content = some f.tree → ∀ x ∈ find f, Text.IsWord (tag x).subject)
    (hunused : kind ≠ "unused") (hinit : kind ≠ "if_init")
    (hne : kind ≠ "error_wrapping" → ∀ f, Syntax.parse? f.content = some f.tree →
      (find f).Pairwise fun x y => tag x ≠ tag y) :
    (((packages.flatMap (·.files)).flatMap find).map tag).Pairwise fun a b =>
      (a.id ws.root kind = b.id ws.root kind ↔ Collide ws.root kind a b) := by
  have hfound := forall_found hws hsub tag (P := fun a => Text.IsWord a.subject) hfile hword
  refine pairwise_of_isWord h (fun a ha => (hfound a ha).1) (fun a ha => (hfound a ha).2) hunused hinit
    fun hk => List.pairwise_map.mpr ?_
  exact pairwise_found hws hsub tag Tag.ne_of_apart hfile (hne hk)

variable (c : Settings) (referenced : List String)

theorem unused_apart : ((Findings.inPackages c referenced packages).unused.map (·.tag)).Pairwise
    fun a b => ¬ a.Together b := by
  let group (p : Package) : List Symbol :=
    (UnusedSymbol.inTable c.unused referenced (SymbolTable.ofPackage p c.unused.tests)).map (·.symbol)
  have hunused : (Findings.inPackages c referenced packages).unused.map (·.tag) =
      (packages.flatMap group).map fun s => (UnusedSymbol.mk s).tag := by
    simp only [Findings.inPackages, List.flatMap_map, List.map_flatMap, List.map_map, group]
    rfl
  have hpairs : (ws.packages.flatMap group).Pairwise fun a b => ¬ a.Together b :=
    hws.pairwise_symbols (fun p hp => UnusedSymbol.nodup_inTable _ _ _ (hws.nodup_table hp _))
      fun p _ s hs => ((UnusedSymbol.mem_inTable _ _ _).mp hs).1
  rw [hunused]
  exact List.pairwise_map.mpr (hpairs.sublist (hsub.flatMap group))

omit hws in
theorem unused_in : ∀ a ∈ (Findings.inPackages c referenced packages).unused.map (·.tag), a.In ws := by
  intro a ha
  obtain ⟨u, hu, rfl⟩ := List.mem_map.mp ha
  obtain ⟨_, htable, hu⟩ := List.mem_flatMap.mp hu
  obtain ⟨p, hp, rfl⟩ := List.mem_map.mp htable
  have hs := ((UnusedSymbol.mem_inTable _ _ _).mp (List.mem_map_of_mem hu)).1
  obtain ⟨f, hf, hfile⟩ := file_of_table hs
  exact ⟨f, List.mem_flatMap.mpr ⟨p, hsub.subset hp, hf⟩, hfile⟩

omit hws hsub in
theorem complex_perm : (Findings.inPackages c referenced packages).complex.Perm
    ((packages.flatMap fun p => p.files.map (p, ·)).flatMap fun x =>
      ComplexFunction.inFile (ComplexFunction.minimum c.leastPaths) x.1.key x.2) := by
  have hpackages : (packages.flatMap fun p => p.files.map (p, ·)).flatMap (fun x =>
      ComplexFunction.inFile (ComplexFunction.minimum c.leastPaths) x.1.key x.2) =
      packages.flatMap fun p => p.files.flatMap
        (ComplexFunction.inFile (ComplexFunction.minimum c.leastPaths) p.key) := by
    simp only [List.flatMap_assoc, List.flatMap_map]
  rw [hpackages]
  refine (List.mergeSort_perm _ _).trans ?_
  exact List.Perm.flatMap_left _ fun p _ => List.mergeSort_perm _ _

omit hws hsub in
theorem source_of_pair {x : Package × SourceFile}
    (hx : x ∈ packages.flatMap fun p => p.files.map (p, ·)) : x.2 ∈ packages.flatMap (·.files) := by
  obtain ⟨p, hp, hx⟩ := List.mem_flatMap.mp hx
  obtain ⟨f, hf, rfl⟩ := List.mem_map.mp hx
  exact List.mem_flatMap.mpr ⟨p, hp, hf⟩

theorem complex_nodup : ((Findings.inPackages c referenced packages).complex.map (·.tag)).Nodup := by
  have hpaths : ((packages.flatMap fun p => p.files.map (p, ·)).map (·.2.path)).Nodup := by
    have hsources := nodup_sources hws hsub
    simpa only [List.map_flatMap, List.map_map, Function.comp_def] using hsources
  have hapart : ((packages.flatMap fun p => p.files.map (p, ·)).flatMap fun x =>
      ComplexFunction.inFile (ComplexFunction.minimum c.leastPaths) x.1.key x.2).Pairwise
        fun a b => ¬ a.tag.Together b.tag :=
    pairwise_files ComplexFunction.tag id hpaths (fun _ _ _ => ComplexFunction.file_of_mem)
      fun x hx => ComplexFunction.apart (parse?_source hws hsub (source_of_pair hx)).2
  refine ((complex_perm c referenced).map _).nodup_iff.mpr (List.pairwise_map.mpr (hapart.imp ?_))
  exact Tag.ne_of_apart

theorem complex_found : ∀ a ∈ (Findings.inPackages c referenced packages).complex.map (·.tag),
    a.In ws ∧ Text.IsWord a.subject := by
  intro a ha
  obtain ⟨x, hx, rfl⟩ := List.mem_map.mp ha
  obtain ⟨⟨p, f⟩, hf, hx⟩ := List.mem_flatMap.mp ((complex_perm c referenced).subset hx)
  obtain ⟨hmem, hparse⟩ := parse?_source hws hsub (source_of_pair hf)
  exact ⟨⟨f, hmem, ComplexFunction.file_of_mem hx⟩, ComplexFunction.isWord_subject hparse hx⟩

theorem id_eq_iff_collide (h : ws.Rooted ns) :
    ∀ x ∈ (Findings.inPackages c referenced packages).tags, x.2.Pairwise fun a b =>
      (a.id ws.root x.1 = b.id ws.root x.1 ↔ Collide ws.root x.1 a b) := by
  have hcomplex := complex_found hws hsub c referenced
  have hinits := forall_found hws hsub Initializer.tag (P := fun _ => True) Initializer.file_of_mem
    fun _ _ _ _ => trivial
  simp only [Findings.tags, List.forall_mem_cons, List.not_mem_nil, IsEmpty.forall_iff, implies_true,
    and_true]
  refine ⟨?unused, ?complexity, ?initializers, ?switchable, ?nestings, ?wrappings, ?contexts, ?flags⟩
  case unused =>
    exact pairwise_of_apart h (unused_in hsub c referenced) (.inl rfl)
      (unused_apart hws hsub c referenced)
  case complexity =>
    exact pairwise_of_isWord h (fun a ha => (hcomplex a ha).1) (fun a ha => (hcomplex a ha).2)
      (by decide) (by decide) fun _ => complex_nodup hws hsub c referenced
  case initializers =>
    refine pairwise_of_apart h (fun a ha => (hinits a ha).1) (.inr rfl) (List.pairwise_map.mpr ?_)
    exact pairwise_found hws hsub Initializer.tag id Initializer.file_of_mem fun _ => Initializer.apart
  case switchable =>
    refine pairwise_words hws hsub Switchable.tag h Switchable.file_of_mem
      (fun _ hf _ => Switchable.isWord_subject hf) (by decide) (by decide) fun _ _ hf => ?_
    refine (Switchable.subject_ne hf).imp fun {r s} hne heq => ?_
    exact hne (heq ▸ ⟨rfl, rfl, rfl⟩) (congrArg Tag.subject heq)
  case nestings =>
    exact pairwise_words hws hsub Nesting.tag h Nesting.file_of_mem
      (fun _ hf _ => Nesting.isWord_subject hf) (by decide) (by decide)
      fun _ _ hf => (Nesting.apart hf).imp Tag.ne_of_apart
  case wrappings =>
    exact pairwise_words hws hsub Wrapping.tag h Wrapping.file_of_mem
      (fun _ _ w _ => isWord_text w.fault) (by decide) (by decide) fun hk => (hk rfl).elim
  case contexts =>
    exact pairwise_words hws hsub RootContext.tag h RootContext.file_of_mem
      (fun _ hf _ => RootContext.isWord_subject hf) (by decide) (by decide)
      fun _ _ hf => (RootContext.apart hf).imp Tag.ne_of_apart
  case flags =>
    exact pairwise_words hws hsub Flag.tag h Flag.file_of_mem
      (fun _ hf _ => Flag.isWord_subject hf) (by decide) (by decide)
      fun _ _ hf => (Flag.apart hf).imp Tag.ne_of_apart

end

variable {s after : Store} {root : String} {out? package? : Option String} {summary : Summary}

/-- The identifiers of the findings that a run reports: two of the same kind are the same exactly if
they belong to results with the same fault in one return statement, or if the path of one finding goes
on with the place of the other and the subject there is spelled like the rest. -/
theorem diagnosticId_collision (hs : s.Proper)
    (h : (generate s root out? package?).result = .ok (summary, after)) :
    ((summary.findings.records (s.realPath root)).tail.map fun x =>
        (x.1, x.2.map (·.field? "diagnostic_id"))) =
      (summary.findings.tags.map fun x =>
        (x.1, x.2.map fun a => some (.str (a.id (s.realPath root) x.1)))) ∧
    (∀ x ∈ summary.findings.tags, x.2.Pairwise fun a b =>
      (a.id (s.realPath root) x.1 = b.id (s.realPath root) x.1 ↔
        Collide (s.realPath root) x.1 a b)) ∧
    summary.findings.wrappings.Pairwise fun v w => v.tag = w.tag → v = w := by
  obtain ⟨c, out, ws, log, packages, -, hload, hselect, rfl, -⟩ := generate_ok h
  obtain ⟨ns, hroot, hrooted, hws⟩ := Load.rooted_loaded hs hload
  have hsub := sublist_of_selectPackages hselect
  rw [hroot, ← hrooted.root]
  refine ⟨identifiers_records _ _, id_eq_iff_collide hws hsub c _ hrooted, ?_⟩
  refine pairwise_found hws hsub Wrapping.tag ?_ Wrapping.file_of_mem fun f hf => ?_
  · exact fun hne heq => (Tag.ne_of_apart hne heq).elim
  · refine (Wrapping.eq_of_together hf).imp fun {v w} heq htag => ?_
    exact heq (htag ▸ ⟨rfl, rfl, rfl⟩) (text_inj (congrArg Tag.subject htag))

/-- A function that hands two errors on in one statement. -/
def pairFiles : List (String × Entry) :=
  [("go.mod", .file "module m\n".toUTF8),
    ("a.go", .file ("package p\n\nfunc f(errA, errB error) (error, error) \x7b\n" ++
      "\treturn errA, errB\n\x7d\n").toUTF8)]

def pair : Store :=
  { root := .dir [("ws", .dir pairFiles)] }

theorem diagnosticId_collision_pair : ∃ summary after v w,
    (generate pair "/ws" none none).result = .ok (summary, after) ∧
    summary.findings.wrappings = [v, w] ∧
    v.tag.id "/ws" "error_wrapping" = w.tag.id "/ws" "error_wrapping" := by
  have hs : pair.Sound := Store.sound_of_isNeat (by decide +kernel)
  have hroot : pair.realPath "/ws" = "/ws" := by decide +kernel
  have hprepare : prepare pair "/ws" none = .ok ({}, "/ws/.goscope") := by decide +kernel
  obtain ⟨ws, hws, htags⟩ : ∃ ws ∈ (Load.workspace pair "/ws" false).1.toOption,
      (Findings.inPackages {} [] ws.packages).wrappings.map (·.tag) =
      [⟨"/ws/a.go", 4, 2, "bare_return"⟩, ⟨"/ws/a.go", 4, 2, "bare_return"⟩] := by
    decide +kernel
  have hat : pair.root.at? ["ws"] = some (.dir pairFiles) := rfl
  have hnone : pair.root.at? (["ws"] ++ [".goscope"]) = none := rfl
  have hselect : selectPackages ws none = .ok ws.packages := rfl
  obtain ⟨after, hresult⟩ := generate_new hs ["ws"] [] hat hnone (by decide) (by decide) hprepare
    (Load.workspace_of_toOption hws) hselect
  obtain ⟨-, hpairs, -⟩ := diagnosticId_collision hs.proper hresult
  have hwrappings : (draft {} "/ws/.goscope" ws ws.packages).summary.findings.wrappings =
      (Findings.inPackages {} [] ws.packages).wrappings := rfl
  simp only [List.map_eq_cons_iff, List.map_eq_nil_iff] at htags
  obtain ⟨v, _, hall, hv, w, _, rfl, hw, rfl⟩ := htags
  rw [hall] at hwrappings
  have hmem : ("error_wrapping", [v.tag, w.tag]) ∈
      (draft {} "/ws/.goscope" ws ws.packages).summary.findings.tags := by
    simp [Findings.tags, hwrappings]
  have hpair := hpairs _ hmem
  rw [hroot] at hpair
  refine ⟨_, _, v, w, hresult, hwrappings, ?_⟩
  exact (List.rel_of_pairwise_cons hpair List.mem_cons_self).mpr (.inl ⟨rfl, hv.trans hw.symm⟩)

end Report

end GoAtlas
