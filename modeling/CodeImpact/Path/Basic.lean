/-!
# Slash-separated paths

A path is a text; its meaning is the list of its parts. Empty segments say nothing, and neither
does `.` unless a relative path starts with it. Two paths name the same place if their parts agree,
and paths are ordered part by part.
-/

namespace CodeImpact.Path

/-- What one segment of a path says. -/
inductive Part
  /-- The leading slash. -/
  | root
  /-- A dot at the start of a relative path. -/
  | here
  /-- Two dots. -/
  | up
  /-- Any other segment. -/
  | name (text : String)
  deriving DecidableEq, Repr, Inhabited

def Part.text : Part → String
  | .root => "/"
  | .here => "."
  | .up => ".."
  | .name text => text

/-- The root comes first, then `.`, then `..`, then names in the order of their texts. -/
def Part.before : Part → Part → Bool
  | .root, .root => false
  | .root, _ => true
  | .here, .root | .here, .here => false
  | .here, _ => true
  | .up, .name _ => true
  | .up, _ => false
  | .name s, .name t => s < t
  | .name _, _ => false

/-- A text between two slashes with what it says. -/
abbrev Segment := List Char × Option Part

/-- What a segment after the first one says. -/
def partOf? (s : List Char) : Option Part :=
  if s = [] || s = ['.'] then none
  else if s = ['.', '.'] then some .up
  else some (.name (String.ofList s))

/-- The segments of a path with their meaning. -/
def segments (path : String) : List Segment :=
  match path.toList.splitOn '/' with
  | [] => []
  | [s] => [(s, if s = ['.'] then some .here else partOf? s)]
  | s :: rest =>
    let first :=
      if s = [] then some .root else if s = ['.'] then some .here else partOf? s
    (s, first) :: rest.map fun t => (t, partOf? t)

def parts (path : String) : List Part :=
  (segments path).filterMap (·.2)

/-- The path that the segments spell. -/
def ofSegments : List Segment → String
  | [(_, some .root)] => "/"
  | segs => String.ofList (['/'].intercalate (segs.map (·.1)))

/-- The path with these parts: one slash between two of them, and one for the root. -/
def ofParts : List Part → String
  | .root :: rest => "/" ++ "/".intercalate (rest.map Part.text)
  | ps => "/".intercalate (ps.map Part.text)

/-- Whether two paths have the same parts. -/
def same (a b : String) : Bool :=
  parts a = parts b

/-- Part-wise order of part lists, a shorter list before its extensions. -/
def partsBefore : List Part → List Part → Bool
  | [], [] => false
  | [], _ :: _ => true
  | _ :: _, [] => false
  | p :: ps, q :: qs => p.before q || (p = q && partsBefore ps qs)

/-- Part-wise order of paths. -/
def before (a b : String) : Bool :=
  partsBefore (parts a) (parts b)

def isAbsolute (path : String) : Bool :=
  path.toList.head? = some '/'

/-- The second path seen from the first one; an absolute second path stands for itself. -/
def join (base path : String) : String :=
  if isAbsolute path then path
  else if base.isEmpty || base.toList.getLast? = some '/' then base ++ path
  else base ++ "/" ++ path

/-- Drops the segments at the end that say nothing. -/
def trimEnd (segs : List Segment) : List Segment :=
  (segs.reverse.dropWhile fun s => s.2.isNone).reverse

/-- Everything but the last part; the empty path and the root have no parent. -/
def parent? (path : String) : Option String :=
  match (trimEnd (segments path)).reverse with
  | [] => none
  | (_, some .root) :: _ => none
  | _ :: rest => some (ofSegments (trimEnd rest.reverse))

/-- The last part, if it is a name. -/
def name? (path : String) : Option String :=
  match (parts path).getLast? with
  | some (.name text) => some text
  | _ => none

/-- A name before and after its last dot; a dot at the start does not count. -/
def splitName (name : List Char) : List Char × Option (List Char) :=
  let after := (name.reverse.takeWhile (· ≠ '.')).reverse
  let before := name.take (name.length - after.length - 1)
  if after.length = name.length || before = [] then (name, none) else (before, some after)

/-- What follows the last dot of the name. -/
def extension? (path : String) : Option String :=
  (name? path).bind fun name => (splitName name.toList).2.map String.ofList

/-- Gives the name another extension; a path without a name stays as it is. -/
def withExtension (path ext : String) : String :=
  match (trimEnd (segments path)).reverse with
  | (s, some (.name _)) :: rest =>
    ofSegments (rest.reverse ++ [((splitName s).1 ++ '.' :: ext.toList, none)])
  | _ => path

/-- Whether the parts of the second path are the last parts of the first. -/
def endsWith (path tail : String) : Bool :=
  (parts tail).isSuffixOf (parts path)

/-- Takes the given parts away from the start of the segments. -/
def dropParts : List Part → List Segment → Option (List Segment)
  | [], segs => some segs
  | _ :: _, [] => none
  | p :: ps, (_, none) :: segs => dropParts (p :: ps) segs
  | p :: ps, (_, some q) :: segs => if p = q then dropParts ps segs else none
termination_by _ segs => segs.length

/-- The rest of a path under a base that its parts start with. Segments that say nothing go at the
end, and at the start too once the base has a part. -/
def relativeTo? (path base : String) : Option String :=
  let lead := parts base
  (dropParts lead (segments path)).map fun rest =>
    let rest := if lead.isEmpty then rest else rest.dropWhile fun s => s.2.isNone
    ofSegments (trimEnd rest)

end CodeImpact.Path
