import CodeImpact.Command.Format
import CodeImpact.Impact.Basic
import CodeImpact.RelationGraph.Export
import CodeImpact.Settings

/-!
# Arguments

The first argument names a command. After it come options: switches, and flags that take the next
argument as their value, whatever that looks like. The last value of a flag counts, but patterns of
files add up.
-/

namespace CodeImpact

/-- A command that analyses projects. -/
inductive Verb
  | graph
  | exportGraph
  | changes
  | impact
  deriving DecidableEq, Repr, Inhabited

namespace Verb

def all : List Verb :=
  [.graph, .exportGraph, .changes, .impact]

def word : Verb → String
  | .graph => "graph"
  | .exportGraph => "export"
  | .changes => "changes"
  | .impact => "impact"

/-- Whether the command looks at one project. -/
def takesRoot : Verb → Bool
  | .graph | .exportGraph => true
  | _ => false

/-- Whether the command looks at a change between two projects. -/
def takesDiff : Verb → Bool
  | .changes | .impact => true
  | _ => false

end Verb

/-- An option without a value. -/
inductive Switch
  | noIgnoreFiles
  | verbose
  | enrich
  | minify
  | cluster
  deriving DecidableEq, Repr

namespace Switch

def ofWord? : String → Option Switch
  | "--no-gitignore" => some .noIgnoreFiles
  | "--verbose" | "-v" => some .verbose
  | "--enrich" => some .enrich
  | "--minify" => some .minify
  | "--cluster" => some .cluster
  | _ => none

/-- Whether a command takes the switch. -/
def belongsTo (verb : Verb) : Switch → Bool
  | .noIgnoreFiles | .verbose => true
  | .enrich => verb = .graph
  | .minify | .cluster => verb = .exportGraph

end Switch

/-- An option with a value. -/
inductive Flag
  | includes
  | excludes
  | timeoutSeconds
  | maxFileSize
  | workers
  | output
  | root
  | format
  | out
  | head
  | base
  | diff
  | file
  | direction
  | kinds
  | maxDepth
  deriving DecidableEq, Repr

namespace Flag

def all : List Flag :=
  [.includes, .excludes, .timeoutSeconds, .maxFileSize, .workers, .output, .root, .format, .out,
    .head, .base, .diff, .file, .direction, .kinds, .maxDepth]

def word : Flag → String
  | .includes => "--include"
  | .excludes => "--exclude"
  | .timeoutSeconds => "--timeout-secs"
  | .maxFileSize => "--max-file-size"
  | .workers => "--workers"
  | .output => "--output"
  | .root => "--root"
  | .format => "--format"
  | .out => "--out"
  | .head => "--head"
  | .base => "--base"
  | .diff => "--diff"
  | .file => "--file"
  | .direction => "--direction"
  | .kinds => "--kinds"
  | .maxDepth => "--max-depth"

def ofWord? (text : String) : Option Flag :=
  all.find? fun f => f.word = text

/-- Whether a command takes the flag. -/
def belongsTo (verb : Verb) : Flag → Bool
  | .includes | .excludes | .timeoutSeconds | .maxFileSize | .workers | .output => true
  | .root => verb.takesRoot
  | .format | .out => verb = .exportGraph
  | .head | .base | .diff | .file => verb.takesDiff
  | .direction | .kinds | .maxDepth => verb = .impact

end Flag

/-- Why arguments are refused. -/
inductive UsageError
  | missingCommand
  | unknownCommand (word : String)
  | unknownArgument (word : String)
  | missingValue (flag : Flag)
  | notANumber (flag : Flag) (text : String)
  | notPositive (flag : Flag)
  | unknownOutput (text : String)
  | unknownFormat (text : String)
  | unknownDirection (text : String)
  | unknownKind (text : String)
  | missingOption (flag : Flag)
  deriving DecidableEq, Repr

def UsageError.message : UsageError → String
  | .missingCommand => "Missing command"
  | .unknownCommand word => "Unknown command: " ++ word
  | .unknownArgument word => "Unknown argument: " ++ word
  | .missingValue flag => flag.word ++ " requires an argument"
  | .notANumber flag text => flag.word ++ " expects a number, got " ++ text
  | .notPositive flag => flag.word ++ " must be positive"
  | .unknownOutput text => OutputFormat.unknownText text
  | .unknownFormat text => ExportFormat.unknownText text
  | .unknownDirection text => Direction.unknownText text
  | .unknownKind text => Relation.unknownText text
  | .missingOption flag => flag.word ++ " is required"

/-- The options of a command line. -/
structure Options where
  includes : List String := []
  excludes : List String := []
  noIgnoreFiles : Bool := false
  timeoutSeconds : Option UInt64 := none
  maxFileSize : Option UInt64 := none
  workers : Option UInt64 := none
  verbose : Bool := false
  output : OutputFormat := .human
  root : Option String := none
  enrich : Bool := false
  format : ExportFormat := .json
  minify : Bool := false
  cluster : Bool := false
  out : Option String := none
  head : Option String := none
  base : Option String := none
  diff : Option String := none
  file : Option String := none
  direction : Direction := .backward
  kinds : Option (List Relation) := none
  maxDepth : Option UInt64 := none
  deriving DecidableEq, Repr, Inhabited

namespace Options

/-- A value that has to be there. -/
def orFail {α : Type} (e : UsageError) : Option α → Except UsageError α
  | some a => .ok a
  | none => .error e

/-- The number that is the value of a flag. -/
def number (flag : Flag) (text : String) : Except UsageError UInt64 :=
  orFail (.notANumber flag text) (Text.plusWord64? text.toList)

/-- The positive number that is the value of a flag. -/
def positive (flag : Flag) (text : String) : Except UsageError UInt64 :=
  (number flag text).bind fun n => if n = 0 then .error (.notPositive flag) else .ok n

/-- The kinds of edges that a list separated by commas names; empty items do not count. -/
def kindList (text : String) : Except UsageError (List Relation) :=
  let items := ((text.toList.splitOn ',').map Text.trimBoth).filter (· ≠ [])
  items.mapM fun item =>
    let word := String.ofList item
    orFail (.unknownKind word) (Relation.ofText? word)

def turnOn (o : Options) : Switch → Options
  | .noIgnoreFiles => { o with noIgnoreFiles := true }
  | .verbose => { o with verbose := true }
  | .enrich => { o with enrich := true }
  | .minify => { o with minify := true }
  | .cluster => { o with cluster := true }

def assign (o : Options) (flag : Flag) (text : String) : Except UsageError Options :=
  match flag with
  | .includes => .ok { o with includes := o.includes ++ [text] }
  | .excludes => .ok { o with excludes := o.excludes ++ [text] }
  | .timeoutSeconds => (positive flag text).map fun n => { o with timeoutSeconds := some n }
  | .maxFileSize => (number flag text).map fun n => { o with maxFileSize := some n }
  | .workers => (positive flag text).map fun n => { o with workers := some n }
  | .output =>
    (orFail (.unknownOutput text) (OutputFormat.ofText? text)).map fun f => { o with output := f }
  | .root => .ok { o with root := some text }
  | .format =>
    (orFail (.unknownFormat text) (ExportFormat.ofText? text)).map fun f => { o with format := f }
  | .out => .ok { o with out := some text }
  | .head => .ok { o with head := some text }
  | .base => .ok { o with base := some text }
  | .diff => .ok { o with diff := some text }
  | .file => .ok { o with file := some text }
  | .direction =>
    (orFail (.unknownDirection text) (Direction.ofText? text)).map fun d =>
      { o with direction := d }
  | .kinds => (kindList text).map fun ks => { o with kinds := some ks }
  | .maxDepth => (number flag text).map fun n => { o with maxDepth := some n }

/-- Reads the arguments after the command. -/
def read (verb : Verb) (o : Options) : List String → Except UsageError Options
  | [] => .ok o
  | word :: rest =>
    match (Switch.ofWord? word).filter (Switch.belongsTo verb) with
    | some switch => read verb (o.turnOn switch) rest
    | none =>
      match (Flag.ofWord? word).filter (Flag.belongsTo verb), rest with
      | none, _ => .error (.unknownArgument word)
      | some flag, [] => .error (.missingValue flag)
      | some flag, value :: rest =>
        match o.assign flag value with
        | .ok o => read verb o rest
        | .error e => .error e

/-- The settings that the options ask for. -/
def settings (o : Options) (base : Settings) : Settings :=
  let changes : List Setting :=
    [.includes o.includes, .excludes o.excludes, .useIgnoreFiles !o.noIgnoreFiles] ++
      (o.timeoutSeconds.map .timeoutSeconds).toList ++ (o.maxFileSize.map .maxFileSize).toList ++
      (o.workers.map .workers).toList
  changes.foldl Settings.set base

end Options

/-- Where a change is found. -/
structure DiffSource where
  /-- The root of the project after the change. -/
  head : String
  /-- The root of the project before the change. -/
  base : String
  /-- The file with the diff. -/
  diff : String
  /-- The only file to look at. -/
  file : Option String
  deriving DecidableEq, Repr, Inhabited

/-- What a command line asks for. -/
inductive Command
  | help
  | version
  | graph (root : String) (enrich : Bool) (settings : Settings) (output : OutputFormat)
  | exportGraph (root : String) (format : ExportFormat) (minify cluster : Bool)
    (out : Option String) (settings : Settings)
  | changes (source : DiffSource) (settings : Settings) (output : OutputFormat)
  | impact (source : DiffSource) (direction : Direction) (kinds : Option (List Relation))
    (maxDepth : Option UInt64) (settings : Settings) (output : OutputFormat)
  deriving DecidableEq, Repr, Inhabited

/-- A command with what holds for every command. -/
structure Invocation where
  command : Command
  verbose : Bool
  deriving DecidableEq, Repr, Inhabited

namespace Options

/-- The value of an option that has to be given. -/
def need (flag : Flag) (value : Option String) : Except UsageError String :=
  orFail (.missingOption flag) value

/-- Where the change is found. -/
def diffSource (o : Options) : Except UsageError DiffSource := do
  let head ← need .head o.head
  let base ← need .base o.base
  let diff ← need .diff o.diff
  return ⟨head, base, diff, o.file⟩

/-- The command that the options complete. -/
def command (o : Options) (verb : Verb) (base : Settings) : Except UsageError Command := do
  let settings := o.settings base
  match verb with
  | .graph => return .graph (← need .root o.root) o.enrich settings o.output
  | .exportGraph =>
    return .exportGraph (← need .root o.root) o.format o.minify o.cluster o.out settings
  | .changes => return .changes (← o.diffSource) settings o.output
  | .impact => return .impact (← o.diffSource) o.direction o.kinds o.maxDepth settings o.output

end Options

def Invocation.ofArguments (base : Settings) : List String → Except UsageError Invocation
  | [] => .error .missingCommand
  | word :: rest =>
    if ["--help", "-h", "help"].contains word then .ok ⟨.help, false⟩
    else if ["--version", "-V", "version"].contains word then .ok ⟨.version, false⟩
    else
      match Verb.all.find? fun v => v.word = word with
      | none => .error (.unknownCommand word)
      | some verb => do
        let o ← Options.read verb {} rest
        let command ← o.command verb base
        return ⟨command, o.verbose⟩

end CodeImpact
