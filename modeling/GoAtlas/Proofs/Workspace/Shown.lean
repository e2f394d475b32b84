import GoAtlas.Proofs.Workspace.Loading

namespace GoAtlas

namespace Path

variable {ns ms ks : List String}

theorem collapse_of_down (absolute : Bool) (before : List String) (h : ".." ∉ ms) :
    collapse absolute before ms = before.reverse ++ ms := by
  induction ms generalizing before with
  | nil => simp [collapse]
  | cons m ms ih =>
    have hm : m ≠ ".." := fun he => h (he ▸ List.mem_cons_self)
    have hms : ".." ∉ ms := fun hmem => h (List.mem_cons_of_mem m hmem)
    simp [collapse, hm, ih (m :: before) hms]

/-- Names that lead down stay as they are, whatever comes before them. -/
theorem collapse_append (absolute : Bool) (before ns : List String) (h : ".." ∉ ms) :
    collapse absolute before (ns ++ ms) = collapse absolute before ns ++ ms := by
  fun_induction collapse absolute before ns with
  | case1 before => simpa using collapse_of_down absolute before h
  | case2 rest ih => simpa [collapse] using ih
  | case3 rest more ih => simpa [collapse] using ih
  | case4 rest name more hne ih => simpa [collapse, hne] using ih
  | case5 before name rest hne ih => simpa [collapse, hne] using ih

theorem absoluteParts_ofParts (h : ∀ n ∈ ns, IsPart n) :
    absoluteParts "/" (ofParts ns) = collapse true [] ns := by
  have habsolute : isAbsolute (ofParts ns) = true := by
    simp [isAbsolute, Text.beginsWith, toList_ofParts]
  rw [absoluteParts, join, if_pos habsolute, parts_ofParts h]

theorem afterCommon_append (as bs : List String) : afterCommon (as ++ bs) as = (bs, []) := by
  induction as with
  | nil => cases bs <;> rfl
  | cons a as ih => simpa [afterCommon] using ih

theorem isPart_append (h : ∀ n ∈ ns, IsPart n) (h' : ∀ m ∈ ms, IsPart m) :
    ∀ m ∈ ns ++ ms, IsPart m :=
  fun m hm => (List.mem_append.mp hm).elim (h m) (h' m)

theorem shown_below (h : ∀ n ∈ ns, IsPart n) (h' : ∀ m ∈ ms, IsPart m) (hdown : ".." ∉ ms)
    (hne : ms ≠ []) :
    shown "/" (ofParts (ns ++ ms)) (ofParts ns) =
      if Text.beginsWith ("/".intercalate ms) ".." then ofParts (ns ++ ms)
      else "/".intercalate ms := by
  have hempty : ofParts (ns ++ ms) ≠ "" := fun he => by
    simpa [ofParts] using congrArg String.toList he
  have hrelative : relative "/" (ofParts (ns ++ ms)) (ofParts ns) = "/".intercalate ms := by
    rw [relative, absoluteParts_ofParts (isPart_append h h'), absoluteParts_ofParts h,
      collapse_append true [] ns hdown, afterCommon_append]
    simp [hne]
  rw [shown, if_neg hempty, hrelative]

theorem shown_inj (h : ∀ n ∈ ns, IsPart n) (hms : ∀ m ∈ ms, IsPart m) (hks : ∀ k ∈ ks, IsPart k)
    (hms' : ".." ∉ ms) (hks' : ".." ∉ ks) (hms₀ : ms ≠ []) (hks₀ : ks ≠ [])
    (he : shown "/" (ofParts (ns ++ ms)) (ofParts ns) = shown "/" (ofParts (ns ++ ks)) (ofParts ns)) :
    ms = ks := by
  have hall : ofParts (ns ++ ms) = ofParts (ns ++ ks) → ms = ks := fun he =>
    List.append_cancel_left (ofParts_inj (isPart_append h hms) (isPart_append h hks) he)
  -- a path from the root never starts with a slash
  have hother : ∀ {l l' : List String}, (∀ m ∈ l', IsPart m) → ofParts l ≠ "/".intercalate l' := by
    intro l l' hl' he
    have habsolute : isAbsolute (ofParts l) = true := by
      simp [isAbsolute, Text.beginsWith, toList_ofParts]
    rw [he, not_isAbsolute_intercalate hl'] at habsolute
    cases habsolute
  rw [shown_below h hms hms' hms₀, shown_below h hks hks' hks₀] at he
  split at he <;> split at he
  · exact hall he
  · exact (hother hks he).elim
  · exact (hother hms he.symm).elim
  · exact ofParts_inj hms hks (by rw [ofParts, he, ofParts])

end Path

namespace Workspace

open GoAtlas.Path

variable {ws : Workspace} {ns : List String}

/-- Files with the same name in reports are at the same path. -/
theorem Rooted.path_of_shown (h : ws.Rooted ns) {f g : SourceFile} (hf : f ∈ ws.files true)
    (hg : g ∈ ws.files true)
    (he : Path.shown "/" f.path ws.root = Path.shown "/" g.path ws.root) : f.path = g.path := by
  obtain ⟨p, hp, hf⟩ := List.mem_flatMap.mp hf
  obtain ⟨q, hq, hg⟩ := List.mem_flatMap.mp hg
  obtain ⟨way, name, hparts, hdown, -, hfile⟩ := (h.placed p hp).file h.isPart hf
  obtain ⟨way', name', hparts', hdown', -, hfile'⟩ := (h.placed q hq).file h.isPart hg
  rw [List.append_assoc] at hparts hparts' hfile hfile'
  rw [hfile, hfile', h.root] at he
  have hways := shown_inj h.isPart (fun m hm => hparts m (List.mem_append_right ns hm))
    (fun m hm => hparts' m (List.mem_append_right ns hm)) hdown hdown' (by simp) (by simp) he
  rw [hfile, hfile', hways]

end Workspace

end GoAtlas
