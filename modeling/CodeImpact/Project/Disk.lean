import CodeImpact.Path.Normal
import CodeImpact.Source.Tree

/-!
# Files on disk

A snapshot of a file system: directories, files with their syntax trees, and symbolic links. A path
is resolved from the root, one segment after the other, and links are followed on the way. Whatever a
path leads to may be read, so the length of a path or of a name, a missing entry and too many links
are the only obstacles. A name can be in a directory although its path is too long to lead to it.

Names and paths are text. Entries whose names are not UTF-8, and rights to read or to search a
directory, have no counterpart here. The syntax tree of a file is part of the snapshot: how a source
is parsed is not told.
-/

namespace CodeImpact

/-- The content of a file, and its syntax tree if it is in a language that has one. -/
structure StoredFile where
  source : SourceText
  tree : Option Tree

/-- What a name in a directory stands for. -/
inductive Entry
  | file (f : StoredFile)
  | directory (entries : List (String × Entry))
  | link (target : String)
  deriving Inhabited

/-- Why a file cannot be used. -/
inductive DiskError
  | notFound
  | notADirectory
  | isADirectory
  | tooManyLinks
  | nameTooLong
  | nulInPath
  | notText
  deriving DecidableEq, Repr

def DiskError.message : DiskError → String
  | .notFound => "No such file or directory (os error 2)"
  | .notADirectory => "Not a directory (os error 20)"
  | .isADirectory => "Is a directory (os error 21)"
  | .tooManyLinks => "Too many levels of symbolic links (os error 40)"
  | .nameTooLong => "File name too long (os error 36)"
  | .nulInPath => "file name contained an unexpected NUL byte"
  | .notText => "stream did not contain valid UTF-8"

namespace Entry

/-- What a name stands for in a directory. -/
def lookup? (name : String) : List (String × Entry) → Option Entry
  | [] => none
  | (n, e) :: rest => if n = name then some e else lookup? name rest

/-- Puts an entry at its place in the order of names, in the place of one with the same name. -/
def place (name : String) (e : Entry) : List (String × Entry) → List (String × Entry)
  | [] => [(name, e)]
  | (n, old) :: rest =>
    if name < n then (name, e) :: (n, old) :: rest
    else if n = name then (name, e) :: rest
    else (n, old) :: place name e rest

/-- The entries of a directory; anything else has none. -/
def children : Entry → List (String × Entry)
  | .directory entries => entries
  | _ => []

/-- Puts an entry at a path of names. Directories on the way are made as needed, and a directory that
is there keeps its entries. -/
def put (leaf : Entry) : List String → List (String × Entry) → List (String × Entry)
  | [], entries => entries
  | [name], entries =>
    match leaf, lookup? name entries with
    | .directory [], some (.directory _) => entries
    | _, _ => place name leaf entries
  | name :: rest, entries =>
    let inner := ((lookup? name entries).map children).getD []
    place name (.directory (put leaf rest inner)) entries

/-- The entry at a path of names; links are not followed. -/
def descend? : List String → Entry → Option Entry
  | [], e => some e
  | name :: rest, .directory entries => (lookup? name entries).bind (descend? rest)
  | _ :: _, _ => none

end Entry

/-- A file system, given by the entries of its root. -/
structure Disk where
  entries : List (String × Entry) := []
  deriving Inhabited

namespace Disk

def namesOf (path : String) : List String :=
  (Path.normalParts (Path.parts path)).filterMap fun
    | .name text => some text
    | _ => none

def add (d : Disk) (path : String) (e : Entry) : Disk :=
  ⟨Entry.put e (namesOf path) d.entries⟩

/-- The path of a list of names from the root. -/
def pathOf (names : List String) : String :=
  "/" ++ "/".intercalate names

/-- The segments of a path, empty ones included. -/
def segments (path : String) : List String :=
  (path.toList.splitOn '/').map String.ofList

def maxNameBytes : Nat := 255

def maxPathBytes : Nat := 4095

/-- The number of links that are followed on the way to one file. -/
def maxLinks : Nat := 40

/-- What a name stands for in a directory; a name that no file system can hold is an error. -/
def find (entries : List (String × Entry)) (name : String) : Except DiskError (Option Entry) :=
  if maxNameBytes < name.utf8ByteSize then .error .nameTooLong
  else .ok (Entry.lookup? name entries)

/-- Where the path of a link starts. -/
def linkStart (here : List String) (target : String) : List String :=
  if Path.isAbsolute target then [] else here

/-- Follows the segments from a directory. Only a directory has anything behind a slash. At most
`links` symbolic links are followed. -/
def follow (d : Disk) (links : Nat) (here : List String) :
    List String → Except DiskError (List String × Entry)
  | [] =>
    match (Entry.directory d.entries).descend? here with
    | some e => .ok (here, e)
    | none => .error .notFound
  | s :: rest =>
    match (Entry.directory d.entries).descend? here with
    | some (.directory entries) =>
      if s = "" || s = "." then d.follow links here rest
      else if s = ".." then d.follow links here.dropLast rest
      else
        match find entries s with
        | .error e => .error e
        | .ok none => .error .notFound
        | .ok (some (.link target)) =>
          match links with
          | 0 => .error .tooManyLinks
          | n + 1 => d.follow n (linkStart here target) (segments target ++ rest)
        | .ok (some _) => d.follow links (here ++ [s]) rest
    | some _ => .error .notADirectory
    | none => .error .notFound
termination_by todo => (links, todo.length)

/-- Follows the segments from a directory to the place of a file that is there or that is to be made.
All but the last name have to exist; a link in the last place leads on to its target. A directory is
no such place, and neither is a name with a slash behind it. -/
def followNew (d : Disk) (links : Nat) (here : List String) :
    List String → Except DiskError (List String)
  | [] => .error .isADirectory
  | s :: rest =>
    match (Entry.directory d.entries).descend? here with
    | some (.directory entries) =>
      if s = "" || s = "." then d.followNew links here rest
      else if s = ".." then d.followNew links here.dropLast rest
      else if !rest.isEmpty && rest.all (· = "") then .error .isADirectory
      else
        match find entries s with
        | .error e => .error e
        | .ok (some (.link target)) =>
          match links with
          | 0 => .error .tooManyLinks
          | n + 1 => d.followNew n (linkStart here target) (segments target ++ rest)
        | .ok (some (.directory _)) => d.followNew links (here ++ [s]) rest
        | .ok (some (.file _)) => if rest.isEmpty then .ok (here ++ [s]) else .error .notADirectory
        | .ok none => if rest.isEmpty then .ok (here ++ [s]) else .error .notFound
    | some _ => .error .notADirectory
    | none => .error .notFound
termination_by todo => (links, todo.length)

/-- Why a path stands for nothing, whatever is on the disk. -/
def fault? (path : String) : Option DiskError :=
  if path.toList.contains '\x00' then some .nulInPath
  else if maxPathBytes < path.utf8ByteSize then some .nameTooLong
  else if Path.isAbsolute path then none
  else some .notFound

/-- The names from the root to what a path stands for, and its entry, which is no link. -/
def resolve (d : Disk) (path : String) : Except DiskError (List String × Entry) :=
  match fault? path with
  | some e => .error e
  | none => d.follow maxLinks [] (segments path)

def hasPath (d : Disk) (path : String) : Bool :=
  (d.resolve path).isOk

def isDirectory (d : Disk) (path : String) : Bool :=
  match d.resolve path with
  | .ok (_, .directory _) => true
  | _ => false

def isFile (d : Disk) (path : String) : Bool :=
  match d.resolve path with
  | .ok (_, .file _) => true
  | _ => false

/-- The size that directories are given. -/
def directorySize : Nat := 4096

/-- The number of bytes of what a path stands for. -/
def size (d : Disk) (path : String) : Except DiskError Nat :=
  match d.resolve path with
  | .ok (_, .file f) => .ok f.source.bytes.size
  | .ok _ => .ok directorySize
  | .error e => .error e

def read (d : Disk) (path : String) : Except DiskError StoredFile :=
  match d.resolve path with
  | .ok (_, .file f) => .ok f
  | .ok _ => .error .isADirectory
  | .error e => .error e

def readText (d : Disk) (path : String) : Except DiskError String :=
  match d.read path with
  | .ok f =>
    match String.fromUTF8? f.source.bytes with
    | some text => .ok text
    | none => .error .notText
  | .error e => .error e

/-- The path without links, `.` and `..` of a directory. The path is read name by name, so it may be
of any length. -/
def canonicalRoot (d : Disk) (path : String) : Except Path.Error String :=
  let found := if Path.isAbsolute path then d.follow maxLinks [] (segments path) else .error .notFound
  match found with
  | .ok (names, .directory _) => .ok (pathOf names)
  | .ok (names, _) => .error (.notADirectory (pathOf names))
  | .error _ => .error (.cannotCanonicalize path)

/-- The names of the place that a file written at a path gets. -/
def placeFor (d : Disk) (path : String) : Except DiskError (List String) :=
  match fault? path with
  | some e => .error e
  | none => d.followNew maxLinks [] (segments path)

def writeText (d : Disk) (path text : String) : Except DiskError Disk :=
  (d.placeFor path).map fun names =>
    ⟨Entry.put (.file ⟨⟨text.toUTF8⟩, none⟩) names d.entries⟩

end Disk

end CodeImpact
