import CodeImpact.Text.Blank
import CodeImpact.Text.Number

/-!
# Settings of an analysis

Limits, the number of workers and which files take part. The environment changes the defaults, and
arguments change both.
-/

namespace CodeImpact

/-- The settings of an analysis. -/
structure Settings where
  /-- Files with more bytes are not extracted. -/
  maxFileSize : UInt64 := 1048576
  /-- The time that one file may take. -/
  timeoutSeconds : UInt64 := 60
  workers : UInt64 := 4
  /-- The number of files in one batch. -/
  batchSize : UInt64 := 16
  /-- Patterns of files to take; none takes all. -/
  includes : List String := []
  /-- Patterns of files to leave out. -/
  excludes : List String := []
  /-- Whether ignore files at the root count. -/
  useIgnoreFiles : Bool := true
  deriving DecidableEq, Repr, Inhabited

/-- The texts of the environment variables that change settings. -/
structure Environment where
  timeoutSeconds : Option String := none
  maxFileSize : Option String := none
  deriving DecidableEq, Repr, Inhabited

/-- A change of one setting. -/
inductive Setting
  | maxFileSize (bytes : UInt64)
  | timeoutSeconds (seconds : UInt64)
  | workers (count : UInt64)
  | batchSize (count : UInt64)
  | includes (patterns : List String)
  | excludes (patterns : List String)
  | useIgnoreFiles (on : Bool)
  deriving DecidableEq, Repr

namespace Settings

/-- How many files of a batch each worker gets. -/
def filesPerWorker : UInt64 := 4

def atLeastOne (n : UInt64) : UInt64 :=
  if n = 0 then 1 else n

/-- Changes a setting. The batch size follows the number of workers. -/
def set (s : Settings) : Setting → Settings
  | .maxFileSize bytes => { s with maxFileSize := bytes }
  | .timeoutSeconds seconds => { s with timeoutSeconds := seconds }
  | .workers count =>
    { s with workers := atLeastOne count, batchSize := atLeastOne count * filesPerWorker }
  | .batchSize count => { s with batchSize := atLeastOne count }
  | .includes patterns => { s with includes := patterns }
  | .excludes patterns => { s with excludes := patterns }
  | .useIgnoreFiles on => { s with useIgnoreFiles := on }

/-- The most threads that extraction holds at a time: a worker may start its next file while one
that ran out of time still holds a thread. -/
def threadLimit (s : Settings) : UInt64 :=
  atLeastOne s.workers * 2

/-- The positive number that a text spells, with blanks around it. -/
def positive? (text : String) : Option UInt64 :=
  (Text.plusWord64? (Text.trimBoth text.toList)).filter (0 < ·)

/-- Takes the values of the environment that are positive numbers. -/
def withEnvironment (s : Settings) (env : Environment) : Settings :=
  { s with
    timeoutSeconds := (env.timeoutSeconds.bind positive?).getD s.timeoutSeconds
    maxFileSize := (env.maxFileSize.bind positive?).getD s.maxFileSize }

end Settings

end CodeImpact
