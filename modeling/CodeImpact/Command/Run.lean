import CodeImpact.Command.Arguments
import CodeImpact.Command.Usage
import CodeImpact.Project.Analysis
import CodeImpact.Wire.Change
import CodeImpact.Wire.Diagnostic
import CodeImpact.Wire.Impact

/-!
# Running commands

A command reads a snapshot of the disk and gives what it prints, its exit code, and the disk as it
leaves it. JSON answers are wrapped in an envelope that names the run.
-/

namespace CodeImpact

/-- What tells one run from others. -/
structure Stamp where
  executionId : String
  timestamp : String
  deriving DecidableEq, Repr, Inhabited

/-- Why a command fails. -/
inductive CommandError
  | analysis (cause : AnalysisError)
  | unreadableDiff (path : String) (cause : DiskError)
  | noHunks (path : String)
  | unwritable (path : String) (cause : DiskError)

namespace CommandError

def code : CommandError → ErrorCode
  | .analysis (.assembly (.missingRoot _)) => .missingRoot
  | .analysis (.assembly (.rootNotADirectory _)) => .rootNotADirectory
  | .analysis (.assembly (.noFiles _)) => .noFiles
  | .analysis (.assembly (.invalidPath _)) => .invalidPath
  | .analysis (.discovery _ (.invalidPath _)) => .invalidPath
  | .analysis (.discovery _ (.invalidPattern _)) => .writeFailed
  | .unreadableDiff _ _ => .unreadableDiff
  | .noHunks _ => .noHunks
  | .unwritable _ _ => .writeFailed

/-- The kind of an error in one word. -/
def category : CommandError → String
  | .analysis (.assembly _) => "analysis_failed"
  | .analysis (.discovery _ (.invalidPath _)) => "invalid_path"
  | .analysis (.discovery _ (.invalidPattern _)) => "io_error"
  | .unreadableDiff _ _ | .noHunks _ => "invalid_diff"
  | .unwritable _ _ => "io_error"

def message : CommandError → String
  | .analysis cause => cause.message
  | .unreadableDiff path cause => "cannot read diff " ++ path ++ ": " ++ cause.message
  | .noHunks path => path ++ " contains no valid hunk"
  | .unwritable path cause => "creating " ++ path ++ ": " ++ cause.message

/-- The line that reports an error to people. -/
def line (e : CommandError) : String :=
  "Error [" ++ e.code.text ++ "]: " ++ e.message ++ "\n"

def report (e : CommandError) : ErrorReport :=
  ⟨e.code.text, e.category, e.message⟩

end CommandError

/-- What a command prints and leaves. -/
structure Transcript where
  exit : Nat := 0
  stdout : String := ""
  stderr : String := ""
  /-- The path of the file that was written. -/
  written : Option String := none
  disk : Disk

/-- Lines that each end in a line feed. -/
def linesText (lines : List String) : String :=
  "".intercalate (lines.map (· ++ "\n"))

/-- The envelope of a JSON answer. Only an incomplete answer says so. -/
def Stamp.envelope (stamp : Stamp) (data : Json) (isPartial : Bool) : Json :=
  .obj ([("schema_version", .str "1.0.0"), ("execution_id", .str stamp.executionId),
    ("tool", .str "blastmap"), ("timestamp", .str stamp.timestamp), ("data", data)] ++
    Json.optionalField "partial" (if isPartial then some (.bool true) else none))

/-- The line of a JSON answer. -/
def Stamp.answer (stamp : Stamp) (output : OutputFormat) (data : Json) (isPartial : Bool) :
    String :=
  output.render (stamp.envelope data isPartial) ++ "\n"

/-- A text filled up with spaces on the right. -/
def padRight (width : Nat) (s : String) : String :=
  s ++ String.ofList (List.replicate (width - s.length) ' ')

def diagnosticsJson (ds : List Diagnostic) : Json :=
  .arr (ds.map Diagnostic.toJson)

def diagnosticsText (ds : List Diagnostic) : String :=
  linesText (ds.map Diagnostic.text)

namespace GraphCommand

/-- The numbers of edges by the words of their kinds, in the order of the words. -/
def edgesByKind (g : RelationGraph) : List (String × Nat) :=
  (Table.ofList (g.edgeCounts.map fun (r, n) => (r.word, n))).entries

/-- The sizes of the relation graph. -/
def relationsJson (g : RelationGraph) : Json :=
  .obj [("nodes", .nat g.nodes.length), ("edges", .nat g.edges.length),
    ("edges_by_kind", .obj ((edgesByKind g).map fun (kind, n) => (kind, .nat n)))]

/-- The sizes of a project. -/
def json (a : Analysis) (relations : Option RelationGraph) : Json :=
  let g := a.assembly.graph
  .obj ([("root", .str a.root), ("files_analyzed", .nat a.assembly.fileCount),
    ("types", .nat g.typeCount), ("functions", .nat g.functionCount), ("calls", .nat g.callCount)] ++
    Json.optionalField "enriched" (relations.map relationsJson) ++
    [("diagnostics", diagnosticsJson a.diagnostics)])

/-- The sizes of a project for people. -/
def text (a : Analysis) (relations : Option RelationGraph) : String :=
  let g := a.assembly.graph
  let sizes := ["Root: " ++ a.root, "Files analyzed: " ++ a.assembly.fileCount.repr,
    "Types: " ++ g.typeCount.repr, "Functions: " ++ g.functionCount.repr,
    "Calls: " ++ g.callCount.repr]
  let edges :=
    match relations with
    | some r =>
      ["Enriched nodes: " ++ r.nodes.length.repr, "Enriched edges: " ++ r.edges.length.repr] ++
        (edgesByKind r).map fun (kind, n) => "  " ++ padRight 22 kind ++ " " ++ n.repr
    | none => []
  let failed :=
    if a.isPartial then ["Partial: " ++ a.assembly.failures.length.repr ++ " files failed"] else []
  linesText (sizes ++ edges ++ failed)

/-- Prints the sizes of a project. -/
def run (d : Disk) (stamp : Stamp) (root : String) (enrich : Bool) (s : Settings)
    (output : OutputFormat) : Except CommandError Transcript := do
  let a ← (d.analyse s root).mapError .analysis
  let relations := if enrich then some a.relations else none
  if output.isJson then
    return { stdout := stamp.answer output (json a relations) a.isPartial, disk := d }
  else
    return { stdout := text a relations, stderr := diagnosticsText a.diagnostics, disk := d }

end GraphCommand

namespace ExportCommand

/-- Prints the relation graph or writes it into a file. What is printed ends in a line feed. -/
def run (d : Disk) (root : String) (format : ExportFormat) (minify cluster : Bool)
    (out : Option String) (s : Settings) : Except CommandError Transcript := do
  let a ← (d.analyse s root).mapError .analysis
  let text := a.relations.exportAs format minify cluster
  let stderr := diagnosticsText a.assembly.failures
  match out with
  | none =>
    let stdout := if Text.hasTail "\n" text then text else text ++ "\n"
    return { stdout := stdout, stderr := stderr, disk := d }
  | some path =>
    match d.writeText path text with
    | .ok disk => return { stderr := stderr, written := some path, disk := disk }
    | .error e =>
      return { exit := 1, stderr := stderr ++ (CommandError.unwritable path e).line, disk := d }

end ExportCommand

/-- Two analysed projects and the change between them. -/
structure LoadedChange where
  head : Analysis
  base : Analysis
  change : ChangeAnalysis

namespace LoadedChange

/-- Reads the diff and analyses both projects. A diff without a hunk is refused only if it has a hunk
header that cannot be read. -/
def load (d : Disk) (source : DiffSource) (s : Settings) : Except CommandError LoadedChange := do
  let diff ← (d.readText source.diff).mapError (.unreadableDiff source.diff)
  let head ← (d.analyse s source.head).mapError .analysis
  let base ← (d.analyse s source.base).mapError .analysis
  let change := ChangeAnalysis.ofDiff head.assembly.graph base.assembly.graph diff source.file
  if !change.hasHunks && !change.errors.isEmpty then .error (.noHunks source.diff)
  else return ⟨head, base, change⟩

/-- The remarks on both projects. -/
def diagnostics (c : LoadedChange) : List Diagnostic :=
  c.head.diagnostics ++ c.base.diagnostics

def isPartial (c : LoadedChange) : Bool :=
  c.head.isPartial || c.base.isPartial

end LoadedChange

namespace ChangesCommand

/-- The changed functions. -/
def json (c : LoadedChange) (file : Option String) : Json :=
  .obj ([("head", .str c.head.root), ("base", .str c.base.root)] ++
    Json.optionalField "file" (file.map .str) ++
    [("changes", c.change.changes.toJson),
      ("diff_errors", .texts (c.change.errors.map PatchError.message)),
      ("diagnostics", diagnosticsJson c.diagnostics)])

/-- The lines of one bucket. -/
def bucketLines (label : String) (functions : List ChangedFunction) : List String :=
  (label ++ " (" ++ functions.length.repr ++ "):") ::
    functions.map fun f => "  " ++ f.fullName ++ "  " ++ f.id

/-- The changed functions for people. -/
def text (c : ChangeSet) : String :=
  linesText (bucketLines "Added" c.added ++ bucketLines "Modified" c.modified ++
    bucketLines "Deleted" c.deleted)

/-- Prints the functions that a diff changes. -/
def run (d : Disk) (stamp : Stamp) (source : DiffSource) (s : Settings) (output : OutputFormat) :
    Except CommandError Transcript := do
  let c ← LoadedChange.load d source s
  if output.isJson then
    return { stdout := stamp.answer output (json c source.file) c.isPartial, disk := d }
  else
    return { stdout := text c.change.changes, stderr := diagnosticsText c.diagnostics, disk := d }

end ChangesCommand

namespace ImpactCommand

/-- The options of the traversal. -/
def options (direction : Direction) (kinds : Option (List Relation)) (maxDepth : Option UInt64) :
    TraversalOptions :=
  ⟨direction, kinds, maxDepth.map UInt64.toNat⟩

/-- The words of the kinds of edges in the answer. -/
def kindWords (kinds : Option (List Relation)) : List String :=
  (kinds.getD []).map Relation.word

/-- The impact of a change. -/
def json (c : LoadedChange) (impact : ImpactAnalysis) (direction : Direction)
    (kinds : Option (List Relation)) (maxDepth : Option UInt64) : Json :=
  .obj ([("direction", .str direction.word)] ++
    Json.optionalField "max_depth" (maxDepth.map fun n => .nat n.toNat) ++
    [("kinds", .texts (kindWords kinds)), ("changes", c.change.changes.toJson),
      ("results", .arr (impact.results.map ImpactResult.toJson)),
      ("report", impact.report.toJson), ("diagnostics", diagnosticsJson c.diagnostics)])

/-- The lines of one level. -/
def levelLines (l : ImpactLevel) : List String :=
  ("Level " ++ l.level.repr ++ ":") :: l.nodes.map fun n =>
    "  [" ++ n.severity.word ++ "] " ++ n.name ++ "  (" ++ n.filePath ++ ")"

/-- The lines of one changed function. -/
def resultLines (r : ImpactResult) : List String :=
  ["", r.seed ++ " (" ++ r.summary.total.repr ++ " impacted)"] ++ r.levels.flatMap levelLines

/-- The impact of a change for people. -/
def text (changes : ChangeSet) (impact : ImpactAnalysis) (direction : Direction) : String :=
  let summary := impact.report.summary
  linesText (
    ["Changed: " ++ changes.added.length.repr ++ " added, " ++ changes.modified.length.repr ++
      " modified, " ++ changes.deleted.length.repr ++ " deleted"] ++
    impact.results.flatMap resultLines ++
    ["", "Total: " ++ summary.total.repr ++ " impacted functions across " ++
      summary.maxLevel.repr ++ " levels (" ++ direction.word ++ ")"] ++
    summary.bySeverity.reverse.map fun (severity, n) => "  " ++ severity.word ++ " " ++ n.repr)

/-- Prints the functions that a change reaches. -/
def run (d : Disk) (stamp : Stamp) (source : DiffSource) (direction : Direction)
    (kinds : Option (List Relation)) (maxDepth : Option UInt64) (s : Settings)
    (output : OutputFormat) : Except CommandError Transcript := do
  let c ← LoadedChange.load d source s
  let changes := c.change.changes
  let impact := ImpactAnalysis.ofChanges c.head.relations c.base.relations changes
    (options direction kinds maxDepth)
  if output.isJson then
    let data := json c impact direction kinds maxDepth
    return { stdout := stamp.answer output data c.isPartial, disk := d }
  else
    return {
      stdout := text changes impact direction
      stderr := diagnosticsText c.diagnostics
      disk := d }

end ImpactCommand

namespace Command

/-- How a command writes its errors. -/
def errorFormat : Command → OutputFormat
  | .graph _ _ _ output | .changes _ _ output | .impact _ _ _ _ _ output => output
  | _ => .human

/-- What a command prints when it fails. -/
def failed (d : Disk) (stamp : Stamp) (output : OutputFormat) (e : CommandError) : Transcript :=
  if output.isJson then
    { exit := 1, stdout := stamp.answer output e.report.toJson false, disk := d }
  else
    { exit := 1, stderr := e.line, disk := d }

def run (d : Disk) (stamp : Stamp) (c : Command) : Transcript :=
  let result : Except CommandError Transcript :=
    match c with
    | .help => .ok { stderr := usage, disk := d }
    | .version => .ok { stdout := "blastmap 0.4.0 (unknown unknown)\n", disk := d }
    | .graph root enrich s output => GraphCommand.run d stamp root enrich s output
    | .exportGraph root format minify cluster out s =>
      ExportCommand.run d root format minify cluster out s
    | .changes source s output => ChangesCommand.run d stamp source s output
    | .impact source direction kinds maxDepth s output =>
      ImpactCommand.run d stamp source direction kinds maxDepth s output
  match result with
  | .ok t => t
  | .error e => failed d stamp c.errorFormat e

end Command

/-- Reads a command line and runs it. A command line that cannot be read gets the usage text. -/
def runCommandLine (d : Disk) (stamp : Stamp) (env : Environment) (args : List String) :
    Transcript :=
  match Invocation.ofArguments (Settings.withEnvironment {} env) args with
  | .ok i => i.command.run d stamp
  | .error e =>
    { exit := 2
      stderr := "Error [" ++ ErrorCode.invalidArguments.text ++ "]: " ++ e.message ++ "\n\n" ++ usage
      disk := d }

end CodeImpact
