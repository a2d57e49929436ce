import CodeImpact.CodeGraph.Heritage
import CodeImpact.CodeGraph.Merge
import CodeImpact.Grammar.Registry
import CodeImpact.Project.Discovery
import CodeImpact.Resolver

/-!
# Assembling a code graph

The files of a project are extracted in batches, and the results of a batch may come in in any order.
They are put back into the order of the jobs before they are merged, so that the graph depends on the
files alone. Paths are text, so that each of them has an absolute form and no job is turned down before
its file is read.
-/

namespace CodeImpact

/-- A file to extract. -/
structure Job where
  /-- The path under the root; a file that lies elsewhere keeps its whole path. -/
  relative : String
  absolute : String
  deriving DecidableEq, Repr, Inhabited

namespace Job

/-- The job of a path that is absolute or relative to the root. -/
def ofPath (root path : String) : Job :=
  let absolute := Path.absolutize path root
  ⟨FileRules.pathUnder root absolute, absolute⟩

def notAfter (a b : Job) : Bool :=
  a.relative < b.relative || (a.relative = b.relative && a.absolute ≤ b.absolute)

/-- The jobs for a list of paths, each file once, in order. -/
def plan (root : String) (paths : List String) : List Job :=
  (appendUnique [] (paths.map (ofPath root))).mergeSort notAfter

end Job

/-- The tree of a file that has none. -/
def emptyTree : Tree where
  kind := ""
  named := true
  field := none
  start := 0
  stop := 0
  children := []

/-- What becomes of a job. -/
abbrev Outcome := Except ExtractionError Extraction

/-- Reads and extracts one file. -/
def Disk.extract (d : Disk) (maxFileSize : Nat) (project : ProjectFiles) (job : Job) : Outcome := do
  match Language.ofPath? job.absolute with
  | none => .error (.unsupportedLanguage job.relative)
  | some language =>
    match d.size job.absolute with
    | .error e => .error (.unreadable job.relative e.message)
    | .ok size =>
      if maxFileSize < size then .error (.oversized job.relative size maxFileSize)
      else
        match d.read job.absolute with
        | .error e => .error (.unreadable job.relative e.message)
        | .ok f =>
          let parsed : ParsedFile := {
            grammar := language.grammar
            source := f.source
            tree := f.tree.getD emptyTree
            path := job.relative
            absolutePath := job.absolute
            resolve := resolveImport (some project) job.absolute language }
          .ok parsed.extract

/-- How the work is divided, and how the results of a batch come in. -/
structure Schedule where
  batchSize : Nat
  arrival : List (Nat × Outcome) → List (Nat × Outcome) := id

/-- The result of an assembly. -/
structure Assembly where
  graph : CodeGraph
  nodes : Table NodeRecord
  fileCount : Nat
  /-- The files that could not be extracted, in report order. -/
  failures : List Diagnostic

namespace Assembly

def isPartial (a : Assembly) : Bool :=
  !a.failures.isEmpty

/-- Cuts a list into pieces of `size` items, but of at least one. -/
def batches {α : Type} (size : Nat) : List α → List (List α)
  | [] => []
  | a :: rest => (a :: rest.take (size - 1)) :: batches size (rest.drop (size - 1))
termination_by items => items.length
decreasing_by simp only [List.length_drop, List.length_cons]; omega

/-- A merger with the failures so far. -/
structure Progress where
  merger : Merger := {}
  failures : List Diagnostic := []

/-- Takes an outcome in. -/
def Progress.add (p : Progress) : Outcome → Progress
  | .ok x => { p with merger := p.merger.addFile x }
  | .error e => { p with failures := p.failures ++ [.ofError e] }

/-- The outcomes of a batch in the order of their numbers. -/
def inOrder (outcomes : List (Nat × Outcome)) : List Outcome :=
  (outcomes.mergeSort fun a b => a.1 ≤ b.1).map (·.2)

/-- Runs the jobs of a batch and takes the outcomes in. -/
def runBatch (schedule : Schedule) (extract : Job → Outcome) (p : Progress)
    (batch : List (Job × Nat)) : Progress :=
  let outcomes := batch.map fun (job, i) => (i, extract job)
  (inOrder (schedule.arrival outcomes)).foldl Progress.add p

/-- Runs all jobs and completes the graph. -/
def run (schedule : Schedule) (extract : Job → Outcome) (jobs : List Job) : Assembly :=
  let p := (batches schedule.batchSize jobs.zipIdx).foldl (runBatch schedule extract) {}
  { graph := p.merger.graph.finalizeRelations
    nodes := p.merger.nodes
    fileCount := p.merger.fileCount
    failures := Diagnostic.sorted p.failures }

end Assembly

/-- Why nothing can be assembled. -/
inductive AssemblyError
  | missingRoot (path : String)
  | rootNotADirectory (path : String)
  | noFiles (root : String)
  | invalidPath (cause : Path.Error)
  deriving DecidableEq, Repr

def AssemblyError.message : AssemblyError → String
  | .missingRoot path => "project root does not exist: " ++ path
  | .rootNotADirectory path => "project root is not a directory: " ++ path
  | .noFiles root => "no files to analyze under " ++ root
  | .invalidPath cause => cause.message

namespace Disk

/-- The root without links, if it is a directory. -/
def validRoot (d : Disk) (root : String) : Except AssemblyError String :=
  if !d.hasPath root then .error (.missingRoot root)
  else if !d.isDirectory root then .error (.rootNotADirectory root)
  else
    match d.canonicalRoot root with
    | .ok root => .ok root
    | .error e => .error (.invalidPath e)

/-- Extracts files and assembles their graph. -/
def assemble (d : Disk) (s : Settings) (root : String) (paths : List String) :
    Except AssemblyError Assembly := do
  let root ← d.validRoot root
  let jobs := Job.plan root paths
  if jobs.isEmpty then .error (.noFiles root)
  else
    let project := ProjectFiles.ofPaths root (jobs.map (·.absolute))
    let schedule : Schedule := { batchSize := s.batchSize.toNat }
    return .run schedule (d.extract s.maxFileSize.toNat project) jobs

end Disk

end CodeImpact
