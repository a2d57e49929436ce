import CodeImpact.CodeGraph.Basic

/-!
# Changed functions

Functions that a change adds, modifies or deletes, each in one of three buckets.
-/

namespace CodeImpact

/-- A changed function. -/
structure ChangedFunction where
  name : String
  /-- Its scope with itself. -/
  fullName : String
  functionHash : String
  signatureHash : String
  /-- The key in the snapshot it was taken from. -/
  id : String
  fullText : String
  lines : Nat
  deriving DecidableEq, Repr, Inhabited

def FunctionRecord.describe (f : FunctionRecord) : ChangedFunction where
  name := f.name
  fullName := f.scope
  functionHash := f.functionHash
  signatureHash := f.signatureHash
  id := f.key
  fullText := f.fullText
  lines := f.lines

/-- The functions of a change. -/
structure ChangeSet where
  added : List ChangedFunction := []
  modified : List ChangedFunction := []
  deleted : List ChangedFunction := []
  deriving DecidableEq, Repr, Inhabited

namespace ChangeSet

/-- All functions: added, then modified, then deleted. -/
def all (c : ChangeSet) : List ChangedFunction :=
  c.added ++ c.modified ++ c.deleted

def isEmpty (c : ChangeSet) : Bool :=
  c.added.isEmpty && c.modified.isEmpty && c.deleted.isEmpty

def size (c : ChangeSet) : Nat :=
  c.added.length + c.modified.length + c.deleted.length

/-- The items whose identifiers are not seen yet, each identifier once. -/
def unseen (seen : List String) : List ChangedFunction → List ChangedFunction
  | [] => []
  | d :: rest =>
    if seen.contains d.id then unseen seen rest else d :: unseen (d.id :: seen) rest

/-- Adds the functions of another change that are in no bucket yet. -/
def merge (c other : ChangeSet) : ChangeSet :=
  let ids (l : List ChangedFunction) := l.map (·.id)
  let seen := ids c.all
  let added := unseen seen other.added
  let seen := ids added ++ seen
  let modified := unseen seen other.modified
  let seen := ids modified ++ seen
  let deleted := unseen seen other.deleted
  ⟨c.added ++ added, c.modified ++ modified, c.deleted ++ deleted⟩

/-- The identifiers in the new snapshot. -/
def headIds (c : ChangeSet) : List String :=
  (c.added ++ c.modified).map (·.id)

/-- The identifiers in the old snapshot. -/
def baseIds (c : ChangeSet) : List String :=
  c.deleted.map (·.id)

end ChangeSet

end CodeImpact
