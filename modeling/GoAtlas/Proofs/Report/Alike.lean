import GoAtlas.Proofs.Files.Resolving
import GoAtlas.Proofs.Report.Writing
import GoAtlas.Proofs.Workspace.Unseen

namespace GoAtlas.Report

open Files GoAtlas.Path

variable {s t : Store} {touched : List String → Bool} {place way ns : List String}
  {entries : List (String × Entry)} {name : String} {e : Entry}

/-- What stands at touched places is a directory or a report. -/
def Tame (t : Store) (touched : List String → Bool) : Prop :=
  ∀ way e, touched way = true → t.root.at? way = some e →
    e.isDir ∨ ∃ place, ∃ name ∈ reportNames, ∃ content, way = place ++ [name] ∧ e = .file content

section

variable {touched : List String → Bool} (h : Tame t touched)
include h

theorem Tame.quiet (place : List String) : Discovery.Quiet t touched place := by
  intro name e htouched hsource hat
  rcases h _ e htouched hat with hdir | ⟨other, report, hreport, content, he, -⟩
  · exact hdir
  · obtain ⟨-, rfl⟩ := List.append_inj' he rfl |>.imp_right List.singleton_inj.mp
    rw [(of_mem_reportNames hreport).2.2.1] at hsource
    cases hsource

theorem Tame.quietRoot (place : List String) : Discovery.QuietRoot t touched place := by
  intro name hname e htouched hat
  rcases h _ e htouched hat with hdir | ⟨other, report, hreport, content, he, -⟩
  · exact hdir
  · obtain ⟨-, rfl⟩ := List.append_inj' he rfl |>.imp_right List.singleton_inj.mp
    exact ((of_mem_reportNames hreport).2.2.2 hname).elim

theorem Tame.noLink (htouched : touched way = true) (target : String) :
    t.root.at? way ≠ some (.link target) := by
  intro hat
  rcases h way _ htouched hat with hdir | ⟨_, _, _, _, _, hfile⟩
  · cases hdir
  · cases hfile

end

/-- Stores that are the same but for what is touched, to which no link leads. -/
structure Alike (s t : Store) (touched : List String → Bool) : Prop where
  closed : Closed touched
  before : s.Sound
  after : t.Sound
  links : s.LinksAvoid touched
  tame : Tame s touched
  tameAfter : Tame t touched
  same : t.without touched = s.without touched

namespace Alike

variable (h : Alike s t touched)
include h

theorem linksAfter : t.LinksAvoid touched := by
  apply Store.LinksAvoid.of_without h.closed
  rw [h.same]
  exact h.links.without h.closed

section

variable (hat : s.root.at? ns = some (.dir entries)) (hns : touched ns = false)
include hat hns

theorem dir_after : ∃ entries', t.root.at? ns = some (.dir entries') := by
  have hwithout := Store.dir_without h.closed hns hat
  rw [← h.same] at hwithout
  exact Store.dir_of_without h.closed hns hwithout

omit hat in
theorem realPath_after (path : String) : t.realPath path = s.realPath path := by
  have hroot : touched [] = false := h.closed.root hns
  have hunhidden : ∀ {u : Store}, Tame u touched → ∀ {done todo link},
      u.Meets done todo link → touched link = false := by
    intro u hu done todo link hm
    obtain ⟨target, hlink⟩ := hm.isLink
    cases htouched : touched link with
    | false => rfl
    | true => exact (hu.noLink htouched target hlink).elim
  rw [← Store.realPath_without h.before h.closed hroot fun _ hm => hunhidden h.tame hm,
    ← Store.realPath_without h.after h.closed hroot fun _ hm => hunhidden h.tameAfter hm, h.same]

theorem workspace_after (respectIgnore : Bool) :
    Load.workspace t (ofParts ns) respectIgnore = Load.workspace s (ofParts ns) respectIgnore := by
  obtain ⟨entries', hat'⟩ := h.dir_after hat hns
  rw [← Load.workspace_without h.before h.closed h.links hat hns (h.tame.quietRoot ns) h.tame.quiet,
    ← Load.workspace_without h.after h.closed h.linksAfter hat' hns (h.tameAfter.quietRoot ns)
      h.tameAfter.quiet, h.same]

theorem settings_after : Settings.load t (ofParts ns) = Settings.load s (ofParts ns) := by
  obtain ⟨entries', hat'⟩ := h.dir_after hat hns
  rw [← Discovery.settings_without h.before h.closed h.links hat hns (h.tame.quietRoot ns),
    ← Discovery.settings_without h.after h.closed h.linksAfter hat' hns (h.tameAfter.quietRoot ns),
    h.same]

end

section

variable (hway : touched (way ++ [name]) = false) (hs : s.root.at? (way ++ [name]) = some e)
  {e' : Entry} (ht : t.root.at? (way ++ [name]) = some e')
include hway hs ht

theorem isFile_after : t.isFile (ofParts (way ++ [name])) = s.isFile (ofParts (way ++ [name])) := by
  obtain ⟨found, hdir, -⟩ := Entry.dir_of_at?_concat hs
  obtain ⟨found', hdir', -⟩ := Entry.dir_of_at?_concat ht
  have hparts := Entry.Proper.isPart h.before.proper hs
  rw [← Store.isFile_without h.closed h.links hparts (h.before.down hs) hdir hway,
    ← Store.isFile_without h.closed h.linksAfter hparts (h.before.down hs) hdir' hway, h.same]

theorem read_after : t.read (ofParts (way ++ [name])) = s.read (ofParts (way ++ [name])) := by
  obtain ⟨found, hdir, -⟩ := Entry.dir_of_at?_concat hs
  obtain ⟨found', hdir', -⟩ := Entry.dir_of_at?_concat ht
  have hparts := Entry.Proper.isPart h.before.proper hs
  rw [← Store.read_without h.closed h.links hparts (h.before.down hs) hdir hway,
    ← Store.read_without h.closed h.linksAfter hparts (h.before.down hs) hdir' hway, h.same]

end

theorem symm : Alike t s touched where
  closed := h.closed
  before := h.after
  after := h.before
  links := h.linksAfter
  tame := h.tameAfter
  tameAfter := h.tame
  same := h.same.symm

theorem leaf_after (hway : touched way = false) (hat : s.root.at? way = some e)
    (he : e.isDir = false) : ∃ e', t.root.at? way = some e' ∧ e'.isDir = false := by
  have hafter := Store.at?_without (s := t) h.closed hway
  rw [h.same, Store.at?_without h.closed hway, hat] at hafter
  obtain ⟨e', he', heq⟩ := Option.map_eq_some_iff.mp hafter.symm
  refine ⟨e', he', ?_⟩
  rw [← Entry.isDir_without e', heq, Entry.isDir_without, he]

theorem mem_contents_of_mem {entries' : List (String × Entry)}
    (hs : s.root.at? place = some (.dir entries)) (ht : t.root.at? place = some (.dir entries'))
    (hbelow : ∀ rest, touched (place ++ rest) = false) {x : String × ByteArray}
    (hx : x ∈ s.contents (ofParts place)) : x ∈ t.contents (ofParts place) := by
  obtain ⟨path, content⟩ := x
  obtain ⟨rest, leaf, hrest, hleaf, rfl, hread⟩ := (Store.mem_contents h.before hs).mp hx
  obtain ⟨leaf', hrest', hleaf'⟩ := h.leaf_after (hbelow rest) hrest hleaf
  refine (Store.mem_contents h.after ht).mpr ⟨rest, leaf', hrest', hleaf', rfl, ?_⟩
  rcases List.eq_nil_or_concat rest with rfl | ⟨before, last, rfl⟩
  · rw [List.append_nil, hs] at hrest
    cases hrest
    cases hleaf
  · have hhere := hbelow (before.concat last)
    rw [List.concat_eq_append, ← List.append_assoc] at hrest hrest' hread hhere ⊢
    rw [h.read_after hhere hrest hrest', hread]

/-- Where nothing is touched, the same files are found. -/
theorem mem_contents_after (hat : s.root.at? place = some (.dir entries))
    (hbelow : ∀ rest, touched (place ++ rest) = false) (x : String × ByteArray) :
    x ∈ t.contents (ofParts place) ↔ x ∈ s.contents (ofParts place) := by
  have hplace : touched place = false := by
    have hhere := hbelow []
    rwa [List.append_nil] at hhere
  obtain ⟨entries', hat'⟩ := h.dir_after hat hplace
  exact ⟨h.symm.mem_contents_of_mem hat' hat hbelow, h.mem_contents_of_mem hat hat' hbelow⟩

end Alike

end GoAtlas.Report
