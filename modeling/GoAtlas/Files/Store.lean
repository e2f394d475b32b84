import GoAtlas.Dict
import GoAtlas.Path
import GoAtlas.Text.Utf8

namespace GoAtlas.Files

inductive Entry where
  | file (content : ByteArray)
  | dir (entries : List (String × Entry))
  | link (target : String)
  deriving Inhabited

/-- Why a path leads nowhere. -/
inductive PathFault where
  | missing
  | fileExists
  | notDirectory
  | isDirectory
  | tooManyLinks
  deriving DecidableEq, Repr

namespace PathFault

def code : PathFault → Nat
  | .missing => 2
  | .fileExists => 17
  | .notDirectory => 20
  | .isDirectory => 21
  | .tooManyLinks => 40

def text : PathFault → String
  | .missing => "No such file or directory"
  | .fileExists => "File exists"
  | .notDirectory => "Not a directory"
  | .isDirectory => "Is a directory"
  | .tooManyLinks => "Too many levels of symbolic links"

end PathFault

/-- A path that could not be used, with the reason. -/
structure AccessError where
  fault : PathFault
  path : String
  deriving DecidableEq, Repr

namespace AccessError

/-- A path in quotes, double ones if it holds a single one only. -/
def quoted (p : String) : String :=
  let mark := if p.toList.contains '\'' && !p.toList.contains '"' then '"' else '\''
  let body := p.toList.flatMap fun c =>
    if c = '\\' || c = mark then ['\\', c]
    else if c = '\n' then ['\\', 'n']
    else if c = '\t' then ['\\', 't']
    else if c = '\r' then ['\\', 'r']
    else [c]
  String.ofList (mark :: body ++ [mark])

def text (e : AccessError) : String :=
  "[Errno " ++ toString e.fault.code ++ "] " ++ e.fault.text ++ ": " ++ quoted e.path

end AccessError

namespace Entry

def child? (name : String) : Entry → Option Entry
  | .dir entries => entries.lookup name
  | _ => none

/-- What stands at the end of a list of names, no link being followed. -/
def at? (e : Entry) : List String → Option Entry
  | [] => some e
  | name :: more => (e.child? name).bind (·.at? more)

/-- Puts an entry at the end of a list of names; what is missing on the way becomes a directory. -/
def put (new : Entry) : List String → Entry → Entry
  | [], _ => new
  | name :: more, .dir entries =>
    .dir (Dict.put name (put new more ((entries.lookup name).getD (.dir []))) entries)
  | name :: more, _ => .dir [(name, put new more (.dir []))]

/-- Removes what stands at the end of a list of names. -/
def erase : List String → Entry → Entry
  | [name], .dir entries => .dir (entries.filter (·.1 != name))
  | name :: more, .dir entries => .dir (Dict.adjust name (erase more) entries)
  | _, e => e

def isDir : Entry → Bool
  | .dir _ => true
  | _ => false

def isLink : Entry → Bool
  | .link _ => true
  | _ => false

mutual
/-- The files and links below an entry, by the names that lead there from it. -/
def leaves (way : List String) : Entry → List (List String × Entry)
  | .file content => [(way, .file content)]
  | .link target => [(way, .link target)]
  | .dir entries => leavesOf way entries

def leavesOf (way : List String) : List (String × Entry) → List (List String × Entry)
  | [] => []
  | (name, e) :: more => leaves (way ++ [name]) e ++ leavesOf way more
end

end Entry

/-- A store: its root directory and the directory from which relative paths are seen. -/
structure Store where
  root : Entry := .dir []
  cwd : String := "/"

namespace Store

/-- Links that are followed before a path counts as endless. -/
@[irreducible] def maxLinks : Nat := 40

/-- Where names lead from a directory: the names of the place without links, and what stands
there. A link goes on by `jump`, from a directory with the names that are left. -/
def followBy (s : Store) (jump : List String → List String → Except PathFault (List String × Entry))
    (done : List String) : List String → Except PathFault (List String × Entry)
  | [] =>
    match s.root.at? done with
    | some e => .ok (done, e)
    | none => .error .missing
  | name :: rest =>
    match s.root.at? done with
    | some (.dir entries) =>
      if name = ".." then followBy s jump done.dropLast rest
      else
        match entries.lookup name with
        | none => .error .missing
        | some (.link target) =>
          jump (if Path.isAbsolute target then [] else done) (Path.parts target ++ rest)
        | some _ => followBy s jump (done ++ [name]) rest
    | some _ => .error .notDirectory
    | none => .error .missing

/-- Where names lead, with the number of links that may still be followed. -/
def follow (s : Store) : Nat → List String → List String → Except PathFault (List String × Entry)
  | 0 => s.followBy fun _ _ => .error .tooManyLinks
  | links + 1 => s.followBy (follow s links)

/-- The names of an absolute path. -/
def names (s : Store) (path : String) : List String :=
  Path.parts (Path.join s.cwd path)

/-- What a path leads to, links followed. -/
def locate (s : Store) (path : String) : Except AccessError (List String × Entry) :=
  match s.follow maxLinks [] (s.names path) with
  | .ok found => .ok found
  | .error fault => .error ⟨fault, path⟩

def entry? (s : Store) (path : String) : Option Entry :=
  (s.locate path).toOption.map (·.2)

def isFile (s : Store) (path : String) : Bool :=
  match s.entry? path with
  | some (.file _) => true
  | _ => false

def isDir (s : Store) (path : String) : Bool :=
  ((s.entry? path).map (·.isDir)).getD false

/-- The places of the links of a store. -/
def linkPlaces (s : Store) : List (List String) :=
  ((s.root.leaves []).filter (·.2.isLink)).map (·.1)

/-- The names of a path with its links resolved as far as there is anything. A link is resolved by
`jump`, from its directory, name and target. Where that comes to a loop, the names that are left are
only put behind. -/
def realNamesBy (s : Store)
    (jump : List String → String → String → Except (List String) (List String))
    (done : List String) : List String → Except (List String) (List String)
  | [] => .ok done
  | name :: rest =>
    if name = ".." then realNamesBy s jump done.dropLast rest
    else
      match s.root.at? (done ++ [name]) with
      | some (.link target) =>
        match jump done name target with
        | .ok place => realNamesBy s jump place rest
        | .error left => .error (left ++ rest)
      | _ => realNamesBy s jump (done ++ [name]) rest

/-- The names of a path with its links resolved, some of them being under way. One of these met again
is a loop. -/
def realNames (s : Store) : Nat → List (List String) → List String → List String →
    Except (List String) (List String)
  | 0, _ => s.realNamesBy fun done name _ => .error (done ++ [name])
  | depth + 1, opened => s.realNamesBy fun done name target =>
    if done ++ [name] ∈ opened then .error (done ++ [name])
    else
      realNames s depth ((done ++ [name]) :: opened) (if Path.isAbsolute target then [] else done)
        (Path.parts target)

/-- The place that a path names with its links resolved. No more links can be under way than there are
in the store. Behind a loop nothing is looked up. -/
def realPlace (s : Store) (path : String) : List String :=
  match s.realNames s.linkPlaces.length [] [] (s.names path) with
  | .ok place => place
  | .error left => Path.collapse true [] left

def realPath (s : Store) (path : String) : String :=
  Path.ofParts (s.realPlace path)

/-- A path with its links resolved, unless it then leads into a loop. -/
def resolve (s : Store) (path : String) : Except AccessError String :=
  match s.locate (s.realPath path) with
  | .error ⟨.tooManyLinks, path⟩ => .error ⟨.tooManyLinks, path⟩
  | _ => .ok (s.realPath path)

/-- Whether a path ends in a link. -/
def isLink (s : Store) (path : String) : Bool :=
  let names := s.names path
  match s.follow maxLinks [] names.dropLast, names.getLast? with
  | .ok (_, parent), some name => ((parent.child? name).map (·.isLink)).getD false
  | _, _ => false

/-- The content of a file. -/
def read (s : Store) (path : String) : Except AccessError ByteArray :=
  match s.locate path with
  | .ok (_, .file content) => .ok content
  | .ok _ => .error ⟨.isDirectory, path⟩
  | .error e => .error e

/-- The names in a directory with what stands there, the latest first. -/
def list (s : Store) (path : String) : Except AccessError (List (String × Entry)) :=
  match s.locate path with
  | .ok (_, .dir entries) => .ok entries.reverse
  | .ok _ => .error ⟨.notDirectory, path⟩
  | .error e => .error e

/-- Makes the directories on a way that are missing, from one that is there. A failure tells how many
names were left where it lies with a part of the way. -/
def makeWay (s : Store) (done : List String) : List String → Except (PathFault × Nat) Store
  | [] => .ok s
  | name :: rest =>
    if name = ".." then makeWay s done.dropLast rest
    else
      match s.follow maxLinks done [name] with
      | .ok (place, .dir _) => makeWay s place rest
      | .ok _ => .error (if rest.isEmpty then .fileExists else .notDirectory, 0)
      | .error fault =>
        if (s.root.at? (done ++ [name])).isNone then
          makeWay { s with root := Entry.put (.dir []) (done ++ [name]) s.root } (done ++ [name]) rest
        else if fault = .missing || rest.isEmpty then .error (.fileExists, rest.length)
        else .error (fault, 0)

/-- Makes a directory and those above it, as far as they are missing. -/
def makeDirs (s : Store) (path : String) : Except AccessError Store :=
  if s.isDir path then .ok s
  else
    match s.makeWay [] (s.names path) with
    | .ok s => .ok s
    | .error (fault, left) => .error ⟨fault, Path.above left path⟩

/-- Makes a directory in one that is there, under a name that nothing has. -/
def makeNew (s : Store) (path : String) : Except AccessError Store :=
  let names := s.names path
  match s.follow maxLinks [] names.dropLast, names.getLast? with
  | .error fault, _ => .error ⟨fault, path⟩
  | .ok (place, .dir entries), some name =>
    if name = ".." || (entries.lookup name).isSome then .error ⟨.fileExists, path⟩
    else .ok { s with root := Entry.put (.dir []) (place ++ [name]) s.root }
  | .ok (_, .dir _), none => .error ⟨.fileExists, path⟩
  | .ok _, _ => .error ⟨.notDirectory, path⟩

/-- The place of the file that is written under names from a directory: links are followed, and only
the file itself may be missing. -/
def writePlace (s : Store) (links : Nat) (done todo : List String) :
    Except PathFault (List String) :=
  match todo.getLast?, s.follow links done todo.dropLast with
  | none, _ => .error .isDirectory
  | some _, .error fault => .error fault
  | some name, .ok (place, .dir entries) =>
    if name = ".." then .error .isDirectory
    else
      match entries.lookup name with
      | none | some (.file _) => .ok (place ++ [name])
      | some (.dir _) => .error .isDirectory
      | some (.link target) =>
        match links with
        | 0 => .error .tooManyLinks
        | links + 1 =>
          writePlace s links (if Path.isAbsolute target then [] else place) (Path.parts target)
  | some _, .ok _ => .error .notDirectory

/-- Writes a file, anew or in the place of one that is there. -/
def writeFile (s : Store) (path : String) (content : ByteArray) : Except AccessError Store :=
  match s.writePlace maxLinks [] (s.names path) with
  | .ok place => .ok { s with root := Entry.put (.file content) place s.root }
  | .error fault => .error ⟨fault, Path.tidy path⟩

def write (s : Store) (path : String) (content : ByteArray) : Store :=
  { s with root := Entry.put (.file content) (s.realPlace path) s.root }

/-- Makes a directory and those above it, unless they are there. -/
def makeDir (s : Store) (path : String) : Store :=
  if s.isDir path then s else { s with root := Entry.put (.dir []) (s.realPlace path) s.root }

def makeLink (s : Store) (path target : String) : Store :=
  { s with root := Entry.put (.link target) (s.names path) s.root }

def remove (s : Store) (path : String) : Store :=
  { s with root := s.root.erase (s.names path) }

end Store

end GoAtlas.Files
