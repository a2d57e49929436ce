import CodeImpact.Change.Classify
import CodeImpact.Impact.Report
import CodeImpact.Impact.Walk
import CodeImpact.Project.Assembly
import CodeImpact.RelationGraph.Build

/-!
# Analysing projects and changes

A project is found and assembled under its root. A diff between two projects gives the changed
functions, and these give the functions that the change reaches.
-/

namespace CodeImpact

/-- An analysed project. -/
structure Analysis where
  /-- The root without links. -/
  root : String
  assembly : Assembly
  /-- The files left out. -/
  skipped : List Diagnostic

namespace Analysis

def isPartial (a : Analysis) : Bool :=
  a.assembly.isPartial

def diagnostics (a : Analysis) : List Diagnostic :=
  Diagnostic.sorted (a.skipped ++ a.assembly.failures)

/-- The relations in the project. -/
def relations (a : Analysis) : RelationGraph :=
  a.assembly.graph.relations

end Analysis

/-- Why a project cannot be analysed. -/
inductive AnalysisError
  | assembly (cause : AssemblyError)
  /-- The files under the root cannot be found. -/
  | discovery (root : String) (cause : DiscoveryError)
  deriving DecidableEq, Repr

def AnalysisError.message : AnalysisError → String
  | .assembly cause => cause.message
  | .discovery root cause => "discovering files under " ++ root ++ ": " ++ cause.message

/-- Finds and assembles the files under a root. -/
def Disk.analyse (d : Disk) (s : Settings) (root : String) : Except AnalysisError Analysis :=
  match d.validRoot root with
  | .error e => .error (.assembly e)
  | .ok root =>
    match d.discover root s with
    | .error e => .error (.discovery root e)
    | .ok found =>
      match d.assemble s root found.files with
      | .error e => .error (.assembly e)
      | .ok assembly => .ok ⟨root, assembly, found.skipped⟩

/-- The functions that a diff changes. -/
structure ChangeAnalysis where
  changes : ChangeSet
  /-- The hunk headers that could not be read. -/
  errors : List PatchError
  /-- Whether a hunk could be read. -/
  hasHunks : Bool

/-- Maps a diff to the functions of two projects, in one file or in all. -/
def ChangeAnalysis.ofDiff (head base : CodeGraph) (diff : String) (file : Option String) :
    ChangeAnalysis :=
  let patch := Patch.ofText diff
  { changes :=
      match file with
      | some path => .ofPatchFile patch head base path
      | none => .ofPatch patch head base
    errors := patch.errors
    hasHunks := patch.files.any fun f => !f.hunks.isEmpty }

/-- The functions that a change reaches. -/
structure ImpactAnalysis where
  /-- One result for each changed function. -/
  results : List ImpactResult
  report : ImpactReport

/-- Added and modified functions are looked up in the new project, deleted ones in the old. -/
def ImpactAnalysis.ofChanges (head base : RelationGraph) (changes : ChangeSet)
    (options : TraversalOptions) : ImpactAnalysis :=
  let results := head.traverse changes.headIds options ++ base.traverse changes.baseIds options
  ⟨results, .ofResults results⟩

end CodeImpact
