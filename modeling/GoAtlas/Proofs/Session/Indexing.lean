import GoAtlas.Session
import GoAtlas.Proofs.Session.References
import GoAtlas.Proofs.Reference.Sites

namespace GoAtlas

open Syntax Reference

namespace Reference

variable {fs : List SourceFile} {name : String}

/-- The identifiers of files with the file each stands in, as the files are walked through in turn. -/
def identifiers (fs : List SourceFile) : List (SourceFile × Site) :=
  fs.flatMap fun f => ((Site.ofTree f.tree).filter Site.isIdentifier).map fun s => (f, s)

namespace Index

def declarations (i : Index) (name : String) : List Entry :=
  (i.occurrences name).filter (·.isDeclaration)

/-- The entries of the identifiers that satisfy `p`. -/
def entriesOf (fs : List SourceFile) (p : SourceFile → Site → Bool) : List Entry :=
  ((identifiers fs).filter fun x => p x.1 x.2).map fun x => Entry.ofSite x.1 x.2

/-- What an index of files lists. -/
structure Lists (fs : List SourceFile) (i : Index) : Prop where
  /-- There is an entry for each identifier, under the name it spells, and there are no others. -/
  entries : i = (identifiers fs).map fun x => (x.1.text x.2.node, Entry.ofSite x.1 x.2)
  /-- Entries of one file are in the order of the source, and no two of them at one place. -/
  ordered : i.Pairwise fun e e' => e.2.file = e'.2.file → e.2.offset < e'.2.offset
  occurrences : ∀ name, i.occurrences name = entriesOf fs fun f s => f.text s.node = name
  uses : ∀ name, i.uses name =
    entriesOf fs fun f s => f.text s.node = name && !s.isDeclaration
  declarations : ∀ name, i.declarations name =
    entriesOf fs fun f s => f.text s.node = name && s.isDeclaration
  /-- Each occurrence of a name is a use or a declaration, and none is both. -/
  partition : ∀ name, (i.uses name ++ i.declarations name).Perm (i.occurrences name) ∧
    (i.uses name).Disjoint (i.declarations name)

theorem ofFiles_eq (h : ∀ f ∈ fs, ∃ size, Parsed size f.tree) : ofFiles fs =
    (identifiers fs).map fun x => (x.1.text x.2.node, Entry.ofSite x.1 x.2) := by
  rw [ofFiles, identifiers, List.map_flatMap]
  refine List.flatMap_congr fun f hf => ?_
  rw [ofFile_eq, ← Site.identifiers_ofTree (h f hf).choose_spec, List.map_map]
  rfl

theorem lists_ofFiles (hpaths : (fs.map (·.path)).Nodup)
    (h : ∀ f ∈ fs, ∃ size, Parsed size f.tree) : Lists fs (ofFiles fs) := by
  have hentries := ofFiles_eq h
  have hoccurrences (name : String) : (ofFiles fs).occurrences name =
      entriesOf fs fun f s => f.text s.node = name := by
    rw [Index.occurrences, hentries, List.filter_map, List.map_map]
    rfl
  have hfilter (name : String) (p : Bool → Bool) :
      ((ofFiles fs).occurrences name).filter (fun e => p e.isDeclaration) =
        entriesOf fs fun f s => f.text s.node = name && p s.isDeclaration := by
    rw [hoccurrences, entriesOf, List.filter_map, List.filter_filter, entriesOf]
    congr 1
    exact List.filter_congr fun x _ => Bool.and_comm _ _
  refine ⟨hentries, ofFiles_ordered hpaths h, hoccurrences, fun name => hfilter name (!·),
    fun name => hfilter name id, fun name => ⟨?_, fun e huse hdecl => ?_⟩⟩
  · rw [uses, Index.declarations]
    exact List.perm_append_comm.trans (List.filter_append_perm _ _)
  · have huse := (List.mem_filter.mp huse).2
    have hdecl := (List.mem_filter.mp hdecl).2
    simp [hdecl] at huse

end Index

end Reference

namespace Session

open Index

/-- The walk with a stack is the recursion over the tree, from any site, and passes each node once. So
the index made for a workspace that has been loaded lists the identifiers of all its files. -/
theorem freshIndex_lists : IsWalk Site.walk ∧
    ∀ (store : Files.Store) (root : String) (respectIgnore : Bool) (log : List LogRecord)
      (s : Session), store.Proper →
      Load.workspace store root respectIgnore = (.ok s.workspace, log) →
        Lists (s.workspace.packages.flatMap fun p => p.files ++ p.testFiles) (freshIndex s).1 := by
  refine ⟨isWalk, fun store root respectIgnore log s hstore hload => ?_⟩
  have hloaded := Load.loaded hstore hload
  exact lists_ofFiles hloaded.paths hloaded.parsed

/-- The index of a file in which a function declares the name of a variable once more. -/
theorem freshIndex_lists_shadow : ∃ ws, (∃ log, Load.workspace Load.shadow "/ws" true = (.ok ws, log)) ∧
    Lists (ws.files true) (freshIndex { workspace := ws }).1 := by
  have hparsed : (parse? Load.shadowed).isSome := by decide +kernel
  obtain ⟨tree, htree⟩ := Option.isSome_iff_exists.mp hparsed
  obtain ⟨log, hload⟩ := Load.workspace_shadow htree
  exact ⟨_, ⟨log, hload⟩,
    freshIndex_lists.2 Load.shadow "/ws" true log { workspace := _ } Load.proper_shadow hload⟩

end Session

end GoAtlas
