import CodeImpact.CodeGraph.Basic

/-!
# Patches

The hunks of a unified diff by file. Line numbers are unsigned numbers of 64 bits.
-/

namespace CodeImpact

/-- A changed range of lines. -/
structure Hunk where
  oldStart : UInt64
  oldCount : UInt64
  newStart : UInt64
  newCount : UInt64
  /-- The new numbers of the added lines. -/
  added : List UInt64 := []
  /-- The old numbers of the deleted lines. -/
  deleted : List UInt64 := []
  deriving DecidableEq, Repr, Inhabited

namespace Hunk

def hasChanges (h : Hunk) : Bool :=
  !h.added.isEmpty || !h.deleted.isEmpty

/-- The last old line; a hunk without old lines covers the line it starts at. -/
def oldEnd (h : Hunk) : UInt64 :=
  h.oldStart + (if h.oldCount = 0 then 1 else h.oldCount) - 1

/-- Whether the old lines meet the lines from `first` to `last`. -/
def overlapsOld (h : Hunk) (first last : Nat) : Bool :=
  h.oldStart.toNat ≤ last && first ≤ h.oldEnd.toNat

end Hunk

/-- The hunks of one file. -/
structure FilePatch where
  /-- The old path; none if the file is new. -/
  oldPath : Option String := none
  /-- The new path; none if the file is deleted. -/
  newPath : Option String := none
  hunks : List Hunk := []
  /-- Whether a header names the file. -/
  hasHeader : Bool := false
  deriving DecidableEq, Repr, Inhabited

namespace FilePatch

/-- The new path, or the old one. -/
def path? (f : FilePatch) : Option String :=
  f.newPath.or f.oldPath

def isAdded (f : FilePatch) : Bool :=
  f.hasHeader && f.oldPath.isNone

def isDeleted (f : FilePatch) : Bool :=
  f.hasHeader && f.newPath.isNone

/-- Whether a path of the file ends with the given one, or the other way round. -/
def touches (f : FilePatch) (path : String) : Bool :=
  let wanted := plainPath path
  (f.oldPath.toList ++ f.newPath.toList).any fun p =>
    Path.endsWith wanted p || Path.endsWith p wanted

end FilePatch

/-- A hunk header that cannot be read. -/
structure PatchError where
  /-- The number of the line, from one. -/
  line : Nat
  header : String
  deriving DecidableEq, Repr, Inhabited

def PatchError.message (e : PatchError) : String :=
  "line " ++ e.line.repr ++ ": malformed hunk header: " ++ e.header

/-- A parsed diff: its files in order, and the headers it could not read. -/
structure Patch where
  files : List FilePatch := []
  errors : List PatchError := []
  deriving DecidableEq, Repr, Inhabited

/-- The hunks of a file; all hunks if the diff names no file. -/
def Patch.hunksFor (p : Patch) (path : String) : List Hunk :=
  let chosen :=
    if p.files.all fun f => !f.hasHeader then p.files
    else p.files.filter fun f => f.touches path
  chosen.flatMap (·.hunks)

end CodeImpact
