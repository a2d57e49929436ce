import CodeImpact.Patch.Basic
import CodeImpact.Text.Blank
import CodeImpact.Text.Letters
import CodeImpact.Text.Number

/-!
# Reading unified diffs

A diff is read line by line. The header of a hunk says how many lines of each side follow; inside
them, only the first character of a line counts. Between hunks, headers name files; a hunk header
that cannot be read is noted, and all other lines are skipped.
-/

namespace CodeImpact.Patch

/-- Decimal digits of any script at the start of a text, at least one, and the rest. -/
def digits? (s : List Char) : Option (List Char × List Char) :=
  let digits := s.takeWhile Text.isDecimal
  if digits.isEmpty then none else some (digits, s.drop digits.length)

/-- A start, a count after a comma if there is one, and the rest. -/
def range? (s : List Char) : Option (List Char × Option (List Char) × List Char) := do
  let (start, rest) ← digits? s
  match rest with
  | ',' :: rest =>
    let (count, rest) ← digits? rest
    some (start, some count, rest)
  | _ => some (start, none, rest)

/-- The hunk that a header announces. A count that is left out, or that is no 64-bit number, is
one. -/
def header? (line : List Char) : Option Hunk := do
  let rest ← Text.afterLead? "@@ -".toList line
  let (oldStart, oldCount, rest) ← range? rest
  let rest ← Text.afterLead? " +".toList rest
  let (newStart, newCount, rest) ← range? rest
  let _ ← Text.afterLead? " @@".toList rest
  let oldStart ← Text.word64? oldStart
  let newStart ← Text.word64? newStart
  some
    { oldStart := oldStart
      oldCount := (oldCount.bind Text.word64?).getD 1
      newStart := newStart
      newCount := (newCount.bind Text.word64?).getD 1 }

/-- The path in a header: up to a tab, without blanks and quotes around and without a leading `a/`
or `b/`. The null device is no path. -/
def headerPath? (raw : List Char) : Option String :=
  let raw := Text.trimBoth (raw.takeWhile (· ≠ '\t'))
  if raw = "/dev/null".toList then none
  else
    let raw := Text.dropEndWhile (· = '\"') (raw.dropWhile (· = '\"'))
    let path := (Text.afterLead? ['a', '/'] raw).getD ((Text.afterLead? ['b', '/'] raw).getD raw)
    some (String.ofList path)

/-- A hunk whose lines are being read. -/
structure OpenHunk where
  hunk : Hunk
  /-- How many old and new lines are to come. -/
  oldLeft : UInt64
  newLeft : UInt64
  /-- The numbers of the next old and new line. -/
  oldLine : UInt64
  newLine : UInt64
  deriving DecidableEq, Repr, Inhabited

namespace OpenHunk

/-- A hunk before its first line. -/
def ofHeader (h : Hunk) : OpenHunk :=
  ⟨h, h.oldCount, h.newCount, h.oldStart, h.newStart⟩

def inBody (o : OpenHunk) : Bool :=
  o.oldLeft ≠ 0 || o.newLeft ≠ 0

/-- One less, but not below zero. -/
def less (n : UInt64) : UInt64 :=
  if n = 0 then 0 else n - 1

/-- Reads a line of the body by its first character. -/
def addLine (o : OpenHunk) (line : List Char) : OpenHunk :=
  match line with
  | '+' :: _ =>
    { o with
      hunk := { o.hunk with added := o.hunk.added ++ [o.newLine] }
      newLine := o.newLine + 1
      newLeft := less o.newLeft }
  | '-' :: _ =>
    { o with
      hunk := { o.hunk with deleted := o.hunk.deleted ++ [o.oldLine] }
      oldLine := o.oldLine + 1
      oldLeft := less o.oldLeft }
  | '\\' :: _ => o
  | _ =>
    { o with
      oldLine := o.oldLine + 1
      newLine := o.newLine + 1
      oldLeft := less o.oldLeft
      newLeft := less o.newLeft }

end OpenHunk

/-- The state between two lines. -/
structure Reading where
  files : List FilePatch := []
  errors : List PatchError := []
  current : Option FilePatch := none
  hunk : Option OpenHunk := none
  deriving DecidableEq, Repr, Inhabited

namespace Reading

/-- Gives the last hunk to the current file. -/
def closeHunk (r : Reading) : Reading :=
  match r.hunk with
  | none => r
  | some o =>
    let file := r.current.getD {}
    { r with current := some { file with hunks := file.hunks ++ [o.hunk] }, hunk := none }

/-- Puts the current file to the finished ones. -/
def closeFile (r : Reading) : Reading :=
  { r with files := r.files ++ r.current.toList, current := none }

/-- The line that opens a file in the output of a version control system. -/
def openGit (r : Reading) (rest : List Char) : Reading :=
  let r := r.closeHunk.closeFile
  let (old, new) :=
    match Text.cut? " b/".toList rest with
    | some (old, new) => (headerPath? old, headerPath? new)
    | none => (none, none)
  { r with current := some { oldPath := old, newPath := new, hasHeader := true } }

/-- The line with the old path; after a hunk, or without a header before, it opens a file. -/
def setOld (r : Reading) (rest : List Char) : Reading :=
  let r := r.closeHunk
  let opens := r.current.all fun f => !f.hunks.isEmpty || !f.hasHeader
  let r := if opens then { r.closeFile with current := some { hasHeader := true } } else r
  { r with current := r.current.map fun f => { f with oldPath := headerPath? rest } }

/-- The line with the new path. -/
def setNew (r : Reading) (rest : List Char) : Reading :=
  let file := r.current.getD { hasHeader := true }
  { r with current := some { file with newPath := headerPath? rest } }

/-- A line that starts like a hunk header. -/
def openHunk (r : Reading) (number : Nat) (line : List Char) : Reading :=
  let r := r.closeHunk
  match header? line with
  | some h => { r with hunk := some (.ofHeader h) }
  | none => { r with errors := r.errors ++ [⟨number, String.ofList line⟩] }

/-- Reads a line outside hunk bodies. -/
def readHeader (r : Reading) (number : Nat) (line : List Char) : Reading :=
  match Text.afterLead? "diff --git ".toList line with
  | some rest => r.openGit rest
  | none =>
    match Text.afterLead? "--- ".toList line with
    | some rest => r.setOld rest
    | none =>
      match Text.afterLead? "+++ ".toList line with
      | some rest => r.setNew rest
      | none => if ['@', '@'].isPrefixOf line then r.openHunk number line else r

/-- Reads the line with this number. -/
def readLine (r : Reading) (number : Nat) (line : List Char) : Reading :=
  match r.hunk with
  | some o => if o.inBody then { r with hunk := some (o.addLine line) } else r.readHeader number line
  | none => r.readHeader number line

/-- Reads lines that start at this number. -/
def readLines : Reading → Nat → List (List Char) → Reading
  | r, _, [] => r
  | r, number, line :: rest => (r.readLine number line).readLines (number + 1) rest

/-- What was read, with the last hunk and the last file. -/
def finish (r : Reading) : Patch :=
  let r := r.closeHunk.closeFile
  ⟨r.files, r.errors⟩

end Reading

def ofText (text : String) : Patch :=
  (Reading.readLines {} 1 (Text.lines text.toList)).finish

end CodeImpact.Patch
