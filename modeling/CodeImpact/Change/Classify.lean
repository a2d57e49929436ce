import CodeImpact.Change.Basic
import CodeImpact.Patch.Reader

/-!
# Which functions a patch changes

The functions of a file are matched by scope between the snapshot before the change, the base, and
the one after it, the head. A function of both is modified if a hunk that changes lines meets its
lines in the base.
-/

namespace CodeImpact

/-- The functions of a file by scope; of two with one scope the last in key order counts. -/
def CodeGraph.functionsByScope (g : CodeGraph) (path : String) (exact : Bool) :
    Table FunctionRecord :=
  Table.ofList ((g.functionsIn path exact).map fun f => (f.scope, f))

namespace ChangeSet

/-- Whether a function's lines are met by a hunk that changes lines. -/
def isTouched (hunks : List Hunk) (before : FunctionRecord) : Bool :=
  hunks.any fun h => h.hasChanges && h.overlapsOld before.startLine before.endLine

/-- Sorts the functions of a file into those added, modified and deleted. The path is one under the
root if a snapshot has such a file, and otherwise the end of a path. -/
def classify (hunks : List Hunk) (head base : CodeGraph) (path : String) : ChangeSet :=
  let exact := head.hasFile path || base.hasFile path
  let after := head.functionsByScope path exact
  let before := base.functionsByScope path exact
  { added := (after.entries.filter fun (scope, _) => !before.contains scope).map (·.2.describe)
    modified := (after.entries.filter fun (scope, _) =>
      (before.get? scope).any (isTouched hunks)).map (·.2.describe)
    deleted :=
      (before.entries.filter fun (scope, _) => !after.contains scope).map (·.2.describe) }

/-- The changes in one file. -/
def ofPatchFile (p : Patch) (head base : CodeGraph) (path : String) : ChangeSet :=
  classify (p.hunksFor path) head base path

/-- The changes in all files of a patch. -/
def ofPatch (p : Patch) (head base : CodeGraph) : ChangeSet :=
  p.files.foldl (fun c f =>
    match f.path? with
    | some path => c.merge (classify f.hunks head base path)
    | none => c) {}

end ChangeSet

end CodeImpact
