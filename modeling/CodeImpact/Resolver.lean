import CodeImpact.Extraction.Basic
import CodeImpact.Path.Normal

/-!
# Resolving imports

An import origin is looked up among the files of a project only. Relative script imports may leave
out an extension or name a directory with an index file; dotted names are looked up as module files
and packages; qualified class names by the end of a path; crate paths by their longest prefix that is
a module. Everything else is external.
-/

namespace CodeImpact

/-- A source module of a crate: its `src` directory and its path from the crate root. -/
structure ModulePath where
  crateDir : List Path.Part
  segments : List String
  deriving DecidableEq, Repr, Inhabited

/-- The files that imports may lead to. -/
structure ProjectFiles where
  /-- The normal path of the project root. -/
  root : String
  /-- The normal paths of the files. -/
  files : List String
  deriving DecidableEq, Repr, Inhabited

namespace ProjectFiles

/-- The files under a root, in normal form. -/
def ofPaths (root : String) (files : List String) : ProjectFiles :=
  ⟨Path.normalize root, files.map Path.normalize⟩

/-- Whether the path has the parts of a file. -/
def contains (p : ProjectFiles) (path : String) : Bool :=
  p.files.any (Path.same path)

/-- Extensions that a script import may leave out. -/
def scriptExtensions : List String :=
  ["ts", "tsx", "mts", "cts", "js", "jsx", "mjs", "cjs"]

/-- Extensions of the source behind a compiled script's extension. -/
def sourceExtensions (ext : String) : List String :=
  if ext = "js" then ["ts", "tsx"]
  else if ext = "jsx" then ["tsx"]
  else if ext = "mjs" then ["mts"]
  else if ext = "cjs" then ["cts"]
  else []

/-- Whether a script origin is relative. -/
def isRelative (origin : String) : Bool :=
  Text.hasLead "./" origin || Text.hasLead "../" origin || origin = "." || origin = ".."

/-- The paths that a script import may mean: the path itself, its source, the path with an
extension, and the index file of the directory. -/
def scriptCandidates (base : String) : List String :=
  let swapped := ((Path.extension? base).map sourceExtensions).getD []
  base :: (swapped.map (Path.withExtension base) ++
    scriptExtensions.map (fun ext => base ++ "." ++ ext) ++
    scriptExtensions.map (fun ext => Path.join base ("index." ++ ext)))

/-- The file of a script import. -/
def resolveScript (p : ProjectFiles) (origin fromFile : String) : Option String :=
  if isRelative origin then
    (Path.parent? fromFile).bind fun dir =>
      (scriptCandidates (Path.normalize (Path.join dir origin))).find? p.contains
  else none

/-- The directory `n` levels up. -/
def ancestor? (dir : String) : Nat → Option String
  | 0 => some dir
  | n + 1 => (Path.parent? dir).bind fun up => ancestor? up n

/-- The nonempty segments between dots. -/
def dotted (name : List Char) : List String :=
  ((name.splitOn '.').filter fun s => !s.isEmpty).map String.ofList

/-- The paths that a dotted module under a directory may mean. -/
def packageCandidates (base : String) (segments : List String) : List String :=
  let module := segments.foldl Path.join base
  let package := Path.join module "__init__.py"
  if segments.isEmpty then [package] else [Path.withExtension module "py", package]

/-- The file of a dotted module; leading dots count levels up from the importing file. -/
def resolveDotted (p : ProjectFiles) (origin fromFile : String) : Option String :=
  let dots := (origin.toList.takeWhile (· = '.')).length
  let segments := dotted (origin.toList.drop dots)
  let bases :=
    if dots = 0 then some [p.root, Path.join p.root "src"]
    else (ancestor? fromFile dots).map fun dir => [dir]
  bases.bind fun bases =>
    (bases.flatMap fun base => packageCandidates base segments).find? p.contains

/-- The files with this name. -/
def named (p : ProjectFiles) (name : String) : List String :=
  p.files.filter fun f => Path.name? f = some name

/-- The file of a qualified class name whose last segments may name inner classes. -/
def resolveClass (p : ProjectFiles) (origin : String) : Option String :=
  let segments := dotted origin.toList
  (List.range segments.length).reverse.findSome? fun i =>
    (segments[i]?).bind fun name =>
      let file := name ++ ".java"
      let tail := Path.join ((segments.take i).foldl Path.join "") file
      (p.named file).find? fun path => Path.endsWith path tail

/-- The module of a file: its directories and its name below the innermost `src` directory. The
files `lib`, `main` and `mod` stand for the directory they are in, the first two only directly under
`src`. -/
def modulePath? (file : String) : Option ModulePath := do
  let parts := Path.parts file
  let last ← parts.getLast?
  let dirs := parts.dropLast.reverse
  let below := (dirs.takeWhile (· ≠ .name "src")).reverse
  let crateDir := (dirs.dropWhile (· ≠ .name "src")).reverse
  let stem ← Text.beforeTail? ".rs".toList last.text.toList
  let stem := String.ofList stem
  let isRoot := below.isEmpty && (stem = "lib" || stem = "main")
  let own := if isRoot || stem = "mod" then [] else [stem]
  if crateDir.isEmpty then none
  else some ⟨crateDir, "crate" :: below.map Path.Part.text ++ own⟩

def modulePathText (segments : List String) : String :=
  "::".intercalate segments

/-- The last file whose module has this path in this crate. -/
def moduleFile? (p : ProjectFiles) (crateDir : List Path.Part) (segments : List String) :
    Option String :=
  p.files.reverse.find? fun f =>
    Path.extension? f = some "rs" &&
      (modulePath? f).any fun m =>
        m.crateDir = crateDir && modulePathText m.segments = modulePathText segments

/-- The file of the longest prefix of a module path that has at least `least` segments. -/
def longestModule? (p : ProjectFiles) (crateDir : List Path.Part) (segments : List String)
    (least : Nat) : Option String :=
  ((List.range (segments.length + 1)).reverse.takeWhile (fun n => max least 1 ≤ n)).findSome?
    fun n => p.moduleFile? crateDir (segments.take n)

/-- The segments between separators. -/
def splitPath (text : List Char) : List String :=
  match _h : Text.cut? [':', ':'] text with
  | some (first, rest) => String.ofList first :: splitPath rest
  | none => [String.ofList text]
termination_by text.length
decreasing_by
  have := Text.length_cut? _h
  simp at this
  omega

/-- The module `super` segments lead up to, and what follows them. -/
def climb : List String → List String → Option (List String × List String)
  | current, "super" :: rest =>
    if current.length ≤ 1 then none else climb current.dropLast rest
  | current, rest => some (current, rest)

/-- The file of a crate path. -/
def resolveCrate (p : ProjectFiles) (origin fromFile : String) : Option String := do
  let m ← modulePath? fromFile
  let current := splitPath (modulePathText m.segments).toList
  let segments := (splitPath origin.toList).filter fun s => !s.isEmpty
  match segments with
  | [] => none
  | "crate" :: _ => p.longestModule? m.crateDir segments 1
  | "self" :: rest => p.longestModule? m.crateDir (current ++ rest) current.length
  | "super" :: _ =>
    let (base, rest) ← climb current segments
    p.longestModule? m.crateDir (base ++ rest) base.length
  | _ =>
    (p.longestModule? m.crateDir ("crate" :: segments) 2).or
      (p.longestModule? m.crateDir (current ++ segments) (current.length + 1))

/-- The file that an origin means in a file of this language. -/
def find? (p : ProjectFiles) (origin fromFile : String) : Language → Option String
  | .javascript | .typescript | .tsx => p.resolveScript origin fromFile
  | .python => p.resolveDotted origin fromFile
  | .java => p.resolveClass origin
  | .rust => p.resolveCrate origin fromFile

/-- Where an origin leads; what is not found is external. -/
def resolve (p : ProjectFiles) (origin fromFile : String) (language : Language) : Resolution :=
  match p.find? origin fromFile language with
  | some path => ⟨path, false⟩
  | none => ⟨origin, true⟩

end ProjectFiles

/-- Where an origin leads in a project, or outside any. -/
def resolveImport (project : Option ProjectFiles) (fromFile : String) (language : Language)
    (origin : String) : Resolution :=
  match project with
  | some p => p.resolve origin fromFile language
  | none => ⟨origin, true⟩

end CodeImpact
