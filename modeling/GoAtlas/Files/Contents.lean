import GoAtlas.Files.Store

namespace GoAtlas.Files

namespace Store

/-- The files below a directory by their paths from it, in increasing order. A link counts if it
leads to a file, and is not followed into a directory. -/
def contents (s : Store) (directory : String) : List (String × ByteArray) :=
  match s.entry? directory with
  | none => []
  | some e =>
    let found := (e.leaves []).filterMap fun (way, _) =>
      let path := "/".intercalate way
      (s.read (Path.join directory path)).toOption.map fun content => (path, content)
    found.mergeSort fun a b => decide (a.1 ≤ b.1)

end Store

end GoAtlas.Files
