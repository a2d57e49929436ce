import CodeImpact.CodeGraph.Record
import CodeImpact.Path.Basic

/-!
# Code graphs

The files, functions and types of a project by their keys, and the queries that changes are mapped
with.
-/

namespace CodeImpact

/-- The files, functions and types of a project. -/
structure CodeGraph where
  /-- Files by absolute path. -/
  files : Table FileRecord := .empty
  /-- Functions by key. -/
  functions : Table FunctionRecord := .empty
  /-- Types by key. -/
  types : Table TypeRecord := .empty
  deriving DecidableEq, Inhabited

/-- A path without leading `./`. -/
def plainPath (path : String) : String :=
  String.ofList (Text.dropAllLeads ['.', '/'] path.toList)

/-- Whether a path ends with all parts of another, nonempty one. -/
def pathMatches (absolute path : String) : Bool :=
  let wanted := plainPath path
  !wanted.isEmpty && Path.endsWith absolute wanted

namespace CodeGraph

/-- Whether a file has this path under the root. -/
def hasFile (g : CodeGraph) (path : String) : Bool :=
  g.files.values.any fun f => f.path = plainPath path

/-- The functions of a file in key order. An exact path is one under the root; any other path
matches the files that end with it. -/
def functionsIn (g : CodeGraph) (path : String) (exact : Bool) :
    List FunctionRecord :=
  let wanted := plainPath path
  let files := (g.files.values.filter fun f => f.path = wanted).map (·.absolutePath)
  g.functions.values.filter fun f =>
    if exact then files.contains f.file else pathMatches f.file wanted

def functionCount (g : CodeGraph) : Nat :=
  g.functions.size

def typeCount (g : CodeGraph) : Nat :=
  g.types.size

/-- The number of calls in functions and at top level. -/
def callCount (g : CodeGraph) : Nat :=
  (g.functions.values.flatMap (·.calls)).length +
    (g.files.values.flatMap (·.topLevelCalls)).length

end CodeGraph

end CodeImpact
