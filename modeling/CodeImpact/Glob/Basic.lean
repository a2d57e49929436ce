/-!
# File patterns

A pattern is a list of tokens. `?` stands for one byte, `*` for any number of them, `**` between
slashes for any number of directories, `[...]` for one byte of a class, and a list in braces for any
of its alternatives. A backslash takes the next character as it is.
-/

namespace CodeImpact.Glob

/-- A part of a pattern. -/
inductive Token
  | literal (c : Char)
  /-- One byte. -/
  | any
  /-- Any number of bytes. -/
  | many
  /-- Any directories at the start. -/
  | leadingDirs
  /-- A slash and anything after it. -/
  | trailingDirs
  /-- A slash, or any directories between two slashes. -/
  | middleDirs
  /-- One byte in the ranges, or outside of them. -/
  | oneOf (negated : Bool) (ranges : List (Char × Char))
  | alternatives (branches : List (List Token))
  deriving Repr, Inhabited

/-- Why a text is no pattern. -/
inductive Error
  | unclosedClass
  | invalidRange (low high : Char)
  | unopenedGroup
  | unclosedGroup
  | danglingEscape
  deriving DecidableEq, Repr

def Error.message : Error → String
  | .unclosedClass => "unclosed character class; missing ']'"
  | .invalidRange low high =>
    "invalid range; '" ++ low.toString ++ "' > '" ++ high.toString ++ "'"
  | .unopenedGroup =>
    "unopened alternate group; missing '\x7b' (maybe escape '\x7d' with '[\x7d]'?)"
  | .unclosedGroup =>
    "unclosed alternate group; missing '\x7d' (maybe escape '\x7b' with '[\x7b]'?)"
  | .danglingEscape => "dangling '\\'"

/-- A class as far as it is read. -/
structure ClassReader where
  /-- The ranges, the last one first. -/
  ranges : List (Char × Char) := []
  /-- Whether a dash after the last range waits for its end. -/
  inRange : Bool := false
  /-- The number of characters read. -/
  length : Nat := 0

namespace ClassReader

/-- Adds a character on its own. -/
def single (r : ClassReader) (c : Char) : ClassReader :=
  ⟨(c, c) :: r.ranges, false, r.length + 1⟩

/-- Ends the range that was started last. -/
def closeRange (r : ClassReader) (high : Char) : Except Error ClassReader :=
  match r.ranges with
  | (low, _) :: rest =>
    if high < low then .error (.invalidRange low high)
    else .ok ⟨(low, high) :: rest, false, r.length + 1⟩
  | [] => .ok (r.single high)

/-- Reads the rest of a class; none if it does not end. -/
def run (r : ClassReader) : List Char → Except Error (Option ClassReader)
  | [] => .ok none
  | c :: rest =>
    if c = ']' && !r.ranges.isEmpty then
      .ok (some (if r.inRange then r.single '-' else { r with length := r.length + 1 }))
    else if c = '-' && !r.inRange && !r.ranges.isEmpty then
      run { r with inRange := true, length := r.length + 1 } rest
    else if r.inRange then
      match r.closeRange c with
      | .ok r => run r rest
      | .error e => .error e
    else run (r.single c) rest

end ClassReader

/-- The class after an opening bracket and the number of its characters; none if it does not end. -/
def readClass (s : List Char) : Except Error (Option (Token × Nat)) :=
  let negated := s.head? = some '!' || s.head? = some '^'
  let body := if negated then s.tail else s
  (ClassReader.run {} body).map fun r? => r?.map fun r =>
    (.oneOf negated r.ranges.reverse, r.length + if negated then 1 else 0)

/-- A group in braces that is still open. -/
structure OpenGroup where
  /-- What precedes the group, the last token first. -/
  outer : List Token
  /-- The finished alternatives, the last one first. -/
  branches : List (List Token)

/-- A pattern as far as it is read. -/
structure Reader where
  /-- The open groups, the innermost first. -/
  groups : List OpenGroup := []
  /-- The tokens of the current alternative, the last one first. -/
  current : List Token := []
  /-- The last character read. -/
  last : Option Char := none
  /-- Whether brackets stand for themselves from now on. -/
  plainBrackets : Bool := false

namespace Reader

def push (r : Reader) (t : Token) (last : Char) : Reader :=
  { r with current := t :: r.current, last := some last }

/-- Adds two stars that do not stand for directories. -/
def pushStars (r : Reader) : Reader :=
  (r.push .many '*').push .many '*'

def openGroup (r : Reader) : Reader :=
  { r with groups := ⟨r.current, []⟩ :: r.groups, current := [], last := some '\x7b' }

/-- A comma starts the next alternative of a group, and stands for itself elsewhere. -/
def comma (r : Reader) : Reader :=
  match r.groups with
  | [] => r.push (.literal ',') ','
  | g :: rest =>
    { r with
      groups := { g with branches := r.current.reverse :: g.branches } :: rest
      current := []
      last := some ',' }

def closeGroup (r : Reader) : Except Error Reader :=
  match r.groups with
  | [] => .error .unopenedGroup
  | g :: rest =>
    let branches := (r.current.reverse :: g.branches).reverse
    .ok { r with
      groups := rest
      current := .alternatives branches :: g.outer
      last := some '\x7d' }

/-- Puts directories in the place of the slash before them. Directories that are there already
absorb them. -/
def replaceSlash (r : Reader) (t : Token) (last : Char) : Reader :=
  let current :=
    match r.current with
    | .leadingDirs :: rest => .leadingDirs :: rest
    | .trailingDirs :: rest => .trailingDirs :: rest
    | _ :: rest => t :: rest
    | [] => [t]
  { r with current := current, last := some last }

/-- Two stars, with what follows them; the second result says whether a slash after them is used up.
-/
def doubleStar (r : Reader) (next : Option Char) : Reader × Bool :=
  if r.current.isEmpty then
    match next with
    | none => (r.push .leadingDirs '*', false)
    | some '/' => (r.push .leadingDirs '/', true)
    | some _ => (r.pushStars, false)
  else if r.last ≠ some '/' &&
      (r.groups.isEmpty || (r.last ≠ some ',' && r.last ≠ some '\x7b')) then (r.pushStars, false)
  else
    match next with
    | none => (r.replaceSlash .trailingDirs '*', false)
    | some '/' => (r.replaceSlash .middleDirs '/', true)
    | some c =>
      if !r.groups.isEmpty && (c = ',' || c = '\x7d') then
        (r.replaceSlash .trailingDirs '*', false)
      else (r.pushStars, false)

/-- Reads a pattern. If `lenient`, a bracket that is never closed stands for itself, and so do all
after it. -/
def run (lenient : Bool) (r : Reader) : List Char → Except Error Reader
  | [] => .ok r
  | '*' :: '*' :: rest =>
    match r.doubleStar rest.head? with
    | (r, true) => run lenient r (rest.drop 1)
    | (r, false) => run lenient r rest
  | ['\\'] => .error .danglingEscape
  | '\\' :: c :: rest => run lenient (r.push (.literal c) c) rest
  | c :: rest =>
    if c = '*' then run lenient (r.push .many c) rest
    else if c = '?' then run lenient (r.push .any c) rest
    else if c = '\x7b' then run lenient r.openGroup rest
    else if c = ',' then run lenient r.comma rest
    else if c = '\x7d' then
      match r.closeGroup with
      | .ok r => run lenient r rest
      | .error e => .error e
    else if c = '[' && !r.plainBrackets then
      match readClass rest with
      | .error e => .error e
      | .ok (some (t, n)) => run lenient (r.push t ']') (rest.drop n)
      | .ok none =>
        if lenient then run lenient { r.push (.literal c) c with plainBrackets := true } rest
        else .error .unclosedClass
    else run lenient (r.push (.literal c) c) rest
termination_by s => s.length

end Reader

def readTokens (lenient : Bool) (pattern : List Char) : Except Error (List Token) :=
  (Reader.run lenient {} pattern).bind fun r =>
    if r.groups.isEmpty then .ok r.current.reverse else .error .unclosedGroup

end CodeImpact.Glob
