import CodeImpact.Diagnostic
import CodeImpact.Glob.IgnoreFile
import CodeImpact.Project.Disk
import CodeImpact.Settings
import CodeImpact.Source.Language

/-!
# Finding the files of a project

The tree under a root is walked without following links and without entering directories that never
hold sources. Every other file is either taken or reported with the first reason to leave it out,
but a file that its path does not lead to, because the path is too long, is neither. A directory that
cannot be opened for the same reason is passed over with all that is below it.
-/

namespace CodeImpact

/-- Directories that never hold sources of the project. -/
def internalDirs : List String :=
  [".git", ".hg", ".svn", "target", "node_modules", ".venv", "venv", "__pycache__", ".mypy_cache",
    ".tox", "dist", "build", ".next"]

/-- Whether a name is that of a directory that never holds sources. -/
def isInternalName (name : String) : Bool :=
  internalDirs.contains name

/-- Which files of a project take part, as far as settings and ignore files say it. -/
structure FileRules where
  /-- Whether ignore files name a path; the flag tells directories from files. -/
  ignores : String → Bool → Bool
  /-- Whether patterns admit a path under the root. -/
  admits : String → Bool

/-- A pattern in the settings that cannot be read. -/
structure PatternError where
  pattern : String
  cause : Glob.Error
  deriving DecidableEq, Repr

def PatternError.message (e : PatternError) : String :=
  "Invalid glob pattern '" ++ e.pattern ++ "': error parsing glob '" ++ e.pattern ++ "': " ++
    e.cause.message

namespace FileRules

/-- Reads patterns; the first one that cannot be read counts. -/
def readPatterns (patterns : List String) : Except PatternError (List Glob) :=
  patterns.mapM fun p =>
    match Glob.ofText p with
    | .ok g => .ok g
    | .error e => .error ⟨p, e⟩

/-- The rules of the ignore files at the root. -/
def ignoreRules (d : Disk) (root : String) : List IgnoreRule :=
  [".gitignore", ".ignore"].flatMap fun name =>
    match d.read (Path.join root name) with
    | .ok f => IgnoreRule.ofFile f.source.bytes.toList
    | .error _ => []

/-- The rules for a root. -/
def ofSettings (d : Disk) (root : String) (s : Settings) : Except PatternError FileRules := do
  let rules := if s.useIgnoreFiles then ignoreRules d root else []
  let includes ← readPatterns s.includes
  let excludes ← readPatterns s.excludes
  return {
    ignores := fun path isDir => IgnoreRule.ignores rules (IgnoreRule.seenFrom root path) isDir
    admits := fun path =>
      (includes.isEmpty || includes.any (·.matchesPath path)) &&
        !excludes.any (·.matchesPath path) }

/-- The path under a root, or the whole path if it lies elsewhere. -/
def pathUnder (root path : String) : String :=
  (Path.relativeTo? path root).getD path

/-- The path under a root with slashes only, or the whole path if it lies elsewhere. -/
def plainPathUnder (root path : String) : String :=
  match Path.relativeTo? path root with
  | some rest => Text.replaceChar '\\' ['/'] rest
  | none => path

/-- Whether a name on the way from the root to a path is internal. -/
def isInternal (root path : String) : Bool :=
  match Path.relativeTo? path root with
  | some rest => (Path.parts rest).any fun
    | .name text => isInternalName text
    | _ => false
  | none => false

/-- The directories around a path, the innermost first, at most `n` of them. -/
def ancestors : Nat → String → List String
  | 0, _ => []
  | n + 1, path =>
    match Path.parent? path with
    | some dir => if dir.isEmpty then [] else dir :: ancestors n dir
    | none => []

/-- Whether ignore files name a path or a directory around it. -/
def isIgnored (rules : FileRules) (path : String) : Bool :=
  rules.ignores path false ||
    (ancestors (Path.parts path).length path).any fun dir => rules.ignores dir true

/-- The first reason to leave a path out. -/
def skipReason? (rules : FileRules) (root : String) (isFile : Bool) (path : String) :
    Option SkipReason :=
  if !isFile then some .notAFile
  else if isInternal root path then some .ignoredInternal
  else if rules.isIgnored (pathUnder root path) then some .ignoredByGitignore
  else if (Language.ofPath? path).isNone then some .unsupportedLanguage
  else if !rules.admits (plainPathUnder root path) then some .excludedByGlob
  else none

end FileRules

/-- A file or a link in the tree under a root. -/
structure Visit where
  path : String
  isLink : Bool
  deriving DecidableEq, Repr, Inhabited

mutual

/-- What a walk meets at and below an entry: files and links, and the error of a directory that cannot
be opened. Directories that never hold sources are not entered. -/
def Entry.visits (dir name : String) : Entry → List (Except DiskError Visit)
  | .file _ => [.ok ⟨Path.join dir name, false⟩]
  | .link _ => [.ok ⟨Path.join dir name, true⟩]
  | .directory entries =>
    if isInternalName name then []
    else
      match Disk.fault? (Path.join dir name) with
      | some e => [.error e]
      | none => visitsIn (Path.join dir name) entries

/-- What a walk meets below an open directory. -/
def visitsIn (dir : String) : List (String × Entry) → List (Except DiskError Visit)
  | [] => []
  | (name, e) :: rest => e.visits dir name ++ visitsIn dir rest

end

/-- What a walk meets below the directory at a path. -/
def Disk.walk (d : Disk) (path : String) : List (Except DiskError Visit) :=
  match d.resolve path with
  | .ok (_, .directory entries) => visitsIn path entries
  | .ok _ => []
  | .error e => [.error e]

/-- The files found under a root. -/
structure Discovery where
  /-- The root without links. -/
  root : String
  /-- The files to extract in path order. -/
  files : List String
  /-- The files left out, in report order. -/
  skipped : List Diagnostic
  deriving DecidableEq, Repr

namespace Discovery

def notAfter (a b : String) : Bool :=
  !Path.before b a

/-- The remark on a visit that is left out. That there is no file is said of links only. -/
def remark? (root : String) (v : Visit) (reason : SkipReason) : Option Diagnostic :=
  if reason != .notAFile || v.isLink then
    some (.skipped (FileRules.pathUnder root v.path) reason)
  else none

/-- Sorts visited files into those to extract and those left out. -/
def ofVisits (root : String) (reason? : Visit → Option SkipReason) (visits : List Visit) :
    Discovery where
  root := root
  files := ((visits.filter fun v => (reason? v).isNone).map (·.path)).mergeSort notAfter
  skipped := Diagnostic.sorted (visits.filterMap fun v => (reason? v).bind (remark? root v))

/-- The files under a root that has no links in its path. What cannot be opened is passed over. -/
def run (d : Disk) (rules : FileRules) (root : String) : Discovery :=
  ofVisits root (fun v => rules.skipReason? root (d.isFile v.path) v.path)
    ((d.walk root).filterMap Except.toOption)

end Discovery

/-- Why files cannot be found. -/
inductive DiscoveryError
  | invalidPath (cause : Path.Error)
  | invalidPattern (cause : PatternError)
  deriving DecidableEq, Repr

def DiscoveryError.message : DiscoveryError → String
  | .invalidPath cause => cause.message
  | .invalidPattern cause => cause.message

def Disk.discover (d : Disk) (root : String) (s : Settings) : Except DiscoveryError Discovery :=
  match d.canonicalRoot root with
  | .error e => .error (.invalidPath e)
  | .ok root =>
    match FileRules.ofSettings d root s with
    | .error e => .error (.invalidPattern e)
    | .ok rules => .ok (.run d rules root)

end CodeImpact
