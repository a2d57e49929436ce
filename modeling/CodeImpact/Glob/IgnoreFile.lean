import CodeImpact.Glob.Match
import CodeImpact.Text.Affix
import CodeImpact.Text.Blank

/-!
# Ignore files

Each line of an ignore file is a pattern that ignores paths, or takes them back if it starts with
`!`. A pattern with a slash in front or inside is anchored at the root; any other one matches at any
depth. With a slash at the end it matches directories only. The last line that matches decides.
-/

namespace CodeImpact

/-- A line of an ignore file. -/
structure IgnoreRule where
  glob : Glob
  /-- Whether matching paths are taken back. -/
  negated : Bool
  dirsOnly : Bool
  deriving Inhabited

namespace IgnoreRule

open Text

/-- A line without blanks at its end; an escaped last space keeps all of them. -/
def trimLine (line : List Char) : List Char :=
  if ['\\', ' '].isSuffixOf line then line else trimRight line

/-- Whether a pattern is negated and anchored, and the rest of it. -/
def marks (line : List Char) : Bool × Bool × List Char :=
  match line with
  | '\\' :: c :: rest =>
    if c = '!' || c = '#' then (false, false, c :: rest) else (false, false, line)
  | _ =>
    let negated := line.head? = some '!'
    let line := if negated then line.tail else line
    if line.head? = some '/' then (negated, true, line.tail) else (negated, false, line)

/-- Takes a slash at the end away, with a backslash before it. -/
def dropEndSlash (line : List Char) : Bool × List Char :=
  match beforeTail? ['/'] line with
  | some rest => (true, (beforeTail? ['\\'] rest).getD rest)
  | none => (false, line)

/-- The pattern at any depth, unless it is anchored. -/
def atAnyDepth (anchored : Bool) (pattern : List Char) : List Char :=
  if anchored || pattern.contains '/' then pattern
  else if pattern = ['*', '*'] then pattern
  else ['*', '*', '/'] ++ pattern

/-- The pattern for what lies inside a directory, not the directory itself. -/
def insideDir (pattern : List Char) : List Char :=
  if ['/', '*', '*'].isSuffixOf pattern then pattern ++ ['/', '*'] else pattern

/-- Reads a line; none for a comment, an empty line and a line that is no pattern. -/
def ofLine? (line : List Char) : Option IgnoreRule :=
  if line.head? = some '#' then none
  else
    let line := trimLine line
    if line.isEmpty then none
    else
      let (negated, anchored, line) := marks line
      let (dirsOnly, line) := dropEndSlash line
      match Glob.ofNamePattern (insideDir (atAnyDepth anchored line)) with
      | .ok glob => some ⟨glob, negated, dirsOnly⟩
      | .error _ => none

/-- The lines of a file up to the first one that is no valid text. -/
def linesOf (bytes : List UInt8) : List (List Char) :=
  let texts := (bytes.splitOn 10).map fun line => String.fromUTF8? ⟨line.toArray⟩
  let valid := (texts.takeWhile Option.isSome).map fun t => (t.getD "").toList
  let whole := if valid.length = texts.length then valid else valid ++ [[]]
  lines (['\n'].intercalate whole)

/-- The rules of a file. Byte order marks at its start do not count. -/
def ofFile (bytes : List UInt8) : List IgnoreRule :=
  match linesOf bytes with
  | first :: rest => (dropAllLeads ['\uFEFF'] first :: rest).filterMap ofLine?
  | [] => []

/-- Whether the last rule that matches a path ignores it. -/
def ignores (rules : List IgnoreRule) (path : String) (isDir : Bool) : Bool :=
  match rules.reverse.find? fun r => (isDir || !r.dirsOnly) && r.glob.matchesPath path with
  | some r => !r.negated
  | none => false

/-- A path as rules at a root see it: without `./` and without the root in front. -/
def seenFrom (root path : String) : String :=
  let path := (afterLead? ['.', '/'] path.toList).getD path.toList
  if !path.contains '/' then String.ofList path
  else
    match afterLead? root.toList path with
    | some rest => String.ofList ((afterLead? ['/'] rest).getD rest)
    | none => String.ofList path

end IgnoreRule

end CodeImpact
