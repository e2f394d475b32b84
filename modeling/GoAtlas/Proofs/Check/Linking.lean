import GoAtlas.Check.Package

namespace GoAtlas.Check.Linked

open Syntax

variable {σ : Type} {importer : Importer σ} {package : String}

/-- An import that is followed: one that is not given the blank name. -/
def isFollowed (i : Import) : Bool :=
  i.givenName != some "_"

/-- What the answers to the imports of a file bring into its scope. -/
def ofAnswers (package : String) (f : SourceFile) (answers : List (Import × Handle)) : Linked :=
  answers.foldl (fun l a => l.add a.1 a.2) ⟨{ file := f.path, package }, []⟩

/-- The links of a file, each import followed being answered in a way that `A` allows. -/
structure Resolves (A : String → Handle → Prop) (package : String) (f : SourceFile)
    (l : Linked) (answers : List (Import × Handle)) : Prop where
  imports : answers.map (·.1) = f.imports.filter isFollowed
  answered : ∀ a ∈ answers, A a.1.path a.2
  linked : l = ofAnswers package f answers

theorem Resolves.imp {A B : String → Handle → Prop} {f : SourceFile} {l : Linked}
    {answers : List (Import × Handle)} (h : Resolves A package f l answers)
    (hAB : ∀ path h, A path h → B path h) : Resolves B package f l answers :=
  ⟨h.imports, fun a ha => hAB _ _ (h.answered a ha), h.linked⟩

/-- What the answers bring in: each handle is one of those answered. -/
theorem ofAnswers_handles {Q : Handle → Prop} (package : String) (f : SourceFile)
    {answers : List (Import × Handle)} (h : ∀ a ∈ answers, Q a.2) :
    (ofAnswers package f answers).surroundings.file = f.path ∧
      (ofAnswers package f answers).surroundings.package = package ∧
      (∀ i ∈ (ofAnswers package f answers).surroundings.imports, Q i.handle) ∧
      ∀ g ∈ (ofAnswers package f answers).surroundings.dots, Q g := by
  refine List.foldlRecOn (motive := fun l : Linked => l.surroundings.file = f.path ∧
    l.surroundings.package = package ∧ (∀ i ∈ l.surroundings.imports, Q i.handle) ∧
      ∀ g ∈ l.surroundings.dots, Q g) _ _ ⟨rfl, rfl, by simp, by simp⟩ fun l hl a ha => ?_
  obtain ⟨hfile, hpackage, himports, hdots⟩ := hl
  unfold Linked.add
  split
  · refine ⟨hfile, hpackage, himports, fun g hg => ?_⟩
    rcases List.mem_append.mp hg with hg | hg
    · exact hdots g hg
    · exact List.mem_singleton.mp hg ▸ h a ha
  · refine ⟨hfile, hpackage, fun i hi => ?_, hdots⟩
    rcases List.mem_append.mp hi with hi | hi
    · exact himports i hi
    · exact List.mem_singleton.mp hi ▸ h a ha

/-- An importer that, for the paths `P` tells, keeps `I`, moves its state along `R` and gives answers
that `A` allows, after which the path is known in the sense of `K`. -/
structure Answering (importer : Importer σ) (P : String → Prop) (I : σ → Prop) (R : σ → σ → Prop)
    (A : σ → String → Handle → Prop) (K : σ → String → Prop) : Prop where
  refl : ∀ s, R s s
  trans : ∀ {s t u}, R s t → R t u → R s u
  allowed : ∀ {s t path h}, R s t → A s path h → A t path h
  known : ∀ {s t path}, R s t → K s path → K t path
  answer : ∀ path s, P path → I s →
    ∃ h t, importer path s = (.ok h, t) ∧ I t ∧ R s t ∧ A t path h ∧ K t path

variable {P : String → Prop} {I : σ → Prop} {R : σ → σ → Prop} {A : σ → String → Handle → Prop}
  {K : σ → String → Prop}

theorem add_errors (i : Import) (h : Handle) (l : Linked) : (l.add i h).errors = l.errors := by
  unfold add
  split <;> rfl

theorem ofAnswers_errors (f : SourceFile) (answers : List (Import × Handle)) :
    (ofAnswers package f answers).errors = [] := by
  suffices h : ∀ l : Linked, (answers.foldl (fun l a => l.add a.1 a.2) l).errors = l.errors from
    h _
  induction answers with
  | nil => exact fun _ => rfl
  | cons a answers ih => exact fun l => (ih _).trans (add_errors _ _ _)

theorem Answering.follow_all (ha : Answering importer P I R A K) (is : List Import)
    (hP : ∀ i ∈ is, isFollowed i → P i.path) (l : Linked) (s : σ) (hs : I s) :
    ∃ (answers : List (Import × Handle)) (t : σ),
      is.foldl (follow importer) (l, s) = (answers.foldl (fun l a => l.add a.1 a.2) l, t) ∧
      answers.map (·.1) = is.filter isFollowed ∧ (∀ a ∈ answers, A t a.1.path a.2) ∧
      I t ∧ R s t ∧ ∀ i ∈ is, isFollowed i → K t i.path := by
  induction is generalizing l s with
  | nil => exact ⟨[], s, rfl, rfl, by simp, hs, ha.refl s, by simp⟩
  | cons i is ih =>
    have ih := ih fun j hj => hP j (List.mem_cons_of_mem i hj)
    by_cases hi : i.givenName = some "_"
    · obtain ⟨answers, t, he, hm, hA, ht, hR, hK⟩ := ih l s hs
      have hf : isFollowed i = false := by simp [isFollowed, hi]
      refine ⟨answers, t, ?_, by simpa [hf] using hm, hA, ht, hR, ?_⟩
      · rwa [List.foldl_cons, follow, if_pos hi]
      · intro j hj hjf
        rcases List.mem_cons.mp hj with rfl | hj
        · simp [hf] at hjf
        · exact hK j hj hjf
    · have hf : isFollowed i = true := by simp [isFollowed, hi]
      obtain ⟨h, s', hstep, hs', hR, hAh, hKh⟩ :=
        ha.answer i.path s (hP i List.mem_cons_self hf) hs
      obtain ⟨answers, t, he, hm, hA, ht, hR', hK⟩ := ih (l.add i h) s' hs'
      refine ⟨(i, h) :: answers, t, ?_, by simp [hf, hm], ?_, ht, ha.trans hR hR', ?_⟩
      · rw [List.foldl_cons, follow, if_neg hi]
        simpa only [hstep, List.foldl_cons] using he
      · intro a hmem
        rcases List.mem_cons.mp hmem with rfl | hmem
        · exact ha.allowed hR' hAh
        · exact hA a hmem
      · intro j hj hjf
        rcases List.mem_cons.mp hj with rfl | hj
        · exact ha.known hR' hKh
        · exact hK j hj hjf

theorem Answering.file (ha : Answering importer P I R A K) (package : String) (f : SourceFile)
    (hP : ∀ i ∈ f.imports, isFollowed i → P i.path) (s : σ) (hs : I s) :
    ∃ answers l t, Linked.file importer package f s = (l, t) ∧ Resolves (A t) package f l answers ∧
      I t ∧ R s t ∧ ∀ i ∈ f.imports, isFollowed i → K t i.path := by
  obtain ⟨answers, t, he, hm, hA, ht, hR, hK⟩ :=
    ha.follow_all f.imports hP ⟨{ file := f.path, package }, []⟩ s hs
  exact ⟨answers, _, t, he, ⟨hm, hA, rfl⟩, ht, hR, hK⟩

/-- All files are linked in their order, and their imports are known afterwards. -/
theorem Answering.files (ha : Answering importer P I R A K) (package : String)
    (fs : List SourceFile) (hP : ∀ f ∈ fs, ∀ i ∈ f.imports, isFollowed i → P i.path) (s : σ)
    (hs : I s) :
    ∃ linked t, Linked.files importer package fs s = (linked, t) ∧
      linked.map (·.1) = fs ∧
      (∀ fl ∈ linked, ∃ answers, Resolves (A t) package fl.1 fl.2 answers) ∧
      I t ∧ R s t ∧ ∀ f ∈ fs, ∀ i ∈ f.imports, isFollowed i → K t i.path := by
  induction fs generalizing s with
  | nil => exact ⟨[], s, rfl, rfl, by simp, hs, ha.refl s, by simp⟩
  | cons f fs ih =>
    obtain ⟨answers, l, s', he, hl, hs', hR, hK⟩ :=
      ha.file package f (hP f List.mem_cons_self) s hs
    obtain ⟨linked, t, he', hm, hls, ht, hR', hK'⟩ :=
      ih (fun g hg => hP g (List.mem_cons_of_mem f hg)) s' hs'
    refine ⟨(f, l) :: linked, t, by simp only [Linked.files, he, he'], by simp [hm], ?_, ht,
      ha.trans hR hR', ?_⟩
    · intro fl hmem
      rcases List.mem_cons.mp hmem with rfl | hmem
      · exact ⟨answers, hl.imp fun _ _ => ha.allowed hR'⟩
      · exact hls fl hmem
    · intro g hg i hi hf
      rcases List.mem_cons.mp hg with rfl | hg
      · exact ha.known hR' (hK i hi hf)
      · exact hK' g hg i hi hf

end GoAtlas.Check.Linked
