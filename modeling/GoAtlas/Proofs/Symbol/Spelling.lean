import GoAtlas.Proofs.Symbol.Tables

namespace GoAtlas

open Syntax Check

theorem Text.not_mem_dot_of_isWord {s : String} (h : Text.IsWord s) : '.' ∉ s.toList := by
  intro hdot
  have hword := h '.' hdot
  revert hword
  decide

variable {f : SourceFile} {files : List SourceFile} {package receiver : String} {s : Symbol}

namespace Naming

variable {n : Naming}

theorem laid_of_mem (hf : parse? f.content = some f.tree) (hn : n ∈ ofFile f) :
    n.name.Laid { word := Lexer.Spelled f.content, sign := Lexer.Called f.content } ∧
      n.name.stop ≤ f.content.size := by
  have hstands := stands_ofFile (parse?_parsed hf) hn
  obtain ⟨t, ht, hname⟩ := Tree.exists_of_mem_walkAll hstands.mem
  obtain ⟨-, hstop, hlaid, -⟩ := (parse?_spelled hf).row.mem ht
  obtain ⟨-, hwithin, hname⟩ := Tree.walk_within t hlaid n.name hname
  exact ⟨hname, hwithin.trans hstop⟩

theorem spelled_ofFile (hf : parse? f.content = some f.tree) (hn : n ∈ ofFile f) :
    f.text n.name ≠ "" ∧ '.' ∉ (f.text n.name).toList := by
  have hstands := stands_ofFile (parse?_parsed hf) hn
  obtain ⟨hlaid, hstop⟩ := laid_of_mem hf hn
  refine ⟨hlaid.text_ne_empty hstands.mark hstop, ?_⟩
  rcases hstands.kind with hk | ⟨hk, -⟩
  · exact Text.not_mem_dot_of_isWord (hlaid.word hk)
  · have hcomma : f.text n.name = "," := (hlaid.sign hk).resolve_left (by decide)
    rw [hcomma]
    decide

/-- The receiver of what a type declares is the name of a type. -/
theorem receiver_ofType {source : ByteArray} {spec : Tree} (hn : n ∈ ofType source spec) :
    n.receiver = none ∨ ∃ m ∈ ofType source spec, n.receiver = some (m.name.text source) := by
  obtain ⟨name, hname, hmem⟩ := List.mem_flatMap.mp hn
  rcases List.mem_cons.mp hmem with rfl | hmethod
  · exact .inl rfl
  · obtain ⟨type, -, hmethod⟩ := List.mem_flatMap.mp hmethod
    obtain ⟨e, -, hmethod⟩ := List.mem_flatMap.mp hmethod
    obtain ⟨_, -, rfl⟩ := List.mem_map.mp hmethod
    exact .inr ⟨_, List.mem_flatMap.mpr ⟨name, hname, List.mem_cons_self⟩, rfl⟩

theorem receiver_ofFile (hf : parse? f.content = some f.tree) (hn : n ∈ ofFile f)
    (hr : n.receiver = some receiver) : receiver ≠ "" := by
  obtain ⟨t, ht, hmem⟩ := List.mem_flatMap.mp hn
  have hfunction : n ∈ ofFunction f.content t → receiver ≠ "" := by
    intro hmem
    obtain ⟨name, -, rfl⟩ := List.mem_map.mp hmem
    by_cases hk : t.kind = .methodDeclaration
    · simp only [hk, if_true] at hr
      split at hr
      · cases hr
      · next hne => exact Option.some.inj hr ▸ hne
    · simp only [hk, if_false] at hr
      cases hr
  have hvalue : ∀ {kind : SymbolKind} {spec : Tree}, n ∈ ofValue kind spec → receiver ≠ "" := by
    intro kind spec hmem
    obtain ⟨name, -, rfl⟩ := List.mem_map.mp hmem
    cases hr
  unfold ofDeclaration at hmem
  split at hmem
  · exact hfunction hmem
  · exact hfunction hmem
  · next hk =>
    obtain ⟨spec, hspec, hmem⟩ := List.mem_flatMap.mp hmem
    rcases receiver_ofType hmem with hnone | ⟨m, hm, hsome⟩
    · rw [hnone] at hr
      cases hr
    · have hname : m ∈ ofFile f := by
        refine List.mem_flatMap.mpr ⟨t, ht, ?_⟩
        simp only [ofDeclaration, hk]
        exact List.mem_flatMap.mpr ⟨spec, hspec, hm⟩
      rw [hsome] at hr
      exact Option.some.inj hr ▸ (spelled_ofFile hf hname).1
  · obtain ⟨spec, -, hmem⟩ := List.mem_flatMap.mp hmem
    exact hvalue hmem
  · obtain ⟨spec, -, hmem⟩ := List.mem_flatMap.mp hmem
    exact hvalue hmem
  · cases hmem

end Naming

namespace Symbol

theorem name_of_declared (hfiles : ∀ f ∈ files, parse? f.content = some f.tree)
    (hs : s ∈ declared package files) : s.name ≠ "" ∧ '.' ∉ s.name.toList := by
  obtain ⟨f, hf, n, hn, rfl⟩ := mem_declared.mp hs
  exact Naming.spelled_ofFile (hfiles f hf) hn

theorem receiver_of_declared (hfiles : ∀ f ∈ files, parse? f.content = some f.tree)
    (hs : s ∈ declared package files) (hr : s.receiver = some receiver) : receiver ≠ "" := by
  obtain ⟨f, hf, n, hn, rfl⟩ := mem_declared.mp hs
  exact Naming.receiver_ofFile (hfiles f hf) hn hr

end Symbol

end GoAtlas
