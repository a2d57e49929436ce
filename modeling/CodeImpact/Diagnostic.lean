import CodeImpact.Table

/-!
# Diagnostics

What is said about a file that contributes nothing: it was left out on purpose, or its extraction
failed. Diagnostics are ordered by path, failures first, and then by rank.
-/

namespace CodeImpact

/-- Why a file is left out. -/
inductive SkipReason
  | notAFile
  | unsupportedLanguage
  | ignoredInternal
  | ignoredByGitignore
  | excludedByGlob
  deriving DecidableEq, Repr, Inhabited

namespace SkipReason

def all : List SkipReason :=
  [.notAFile, .unsupportedLanguage, .ignoredInternal, .ignoredByGitignore, .excludedByGlob]

def word : SkipReason → String
  | .notAFile => "not_a_file"
  | .unsupportedLanguage => "unsupported_language"
  | .ignoredInternal => "ignored_internal"
  | .ignoredByGitignore => "ignored_by_gitignore"
  | .excludedByGlob => "excluded_by_glob"

/-- The place in the order of reports. -/
def rank : SkipReason → Nat
  | .ignoredInternal => 0
  | .ignoredByGitignore => 1
  | .excludedByGlob => 2
  | .unsupportedLanguage => 3
  | .notAFile => 4

def description : SkipReason → String
  | .notAFile => "not a regular file"
  | .unsupportedLanguage => "language not supported"
  | .ignoredInternal => "internal ignore rule"
  | .ignoredByGitignore => "matched by gitignore"
  | .excludedByGlob => "excluded by pattern"

/-- The reasons in the order of reports. -/
def sorted (reasons : List SkipReason) : List SkipReason :=
  reasons.mergeSort fun a b => a.rank ≤ b.rank

end SkipReason

/-- Where the extraction of a file fails. -/
inductive Stage
  | read
  | parse
  | timeout
  | other
  deriving DecidableEq, Repr, Inhabited

namespace Stage

def all : List Stage :=
  [.read, .parse, .timeout, .other]

def word : Stage → String
  | .read => "read"
  | .parse => "parse"
  | .timeout => "timeout"
  | .other => "other"

/-- The place in the order of reports. -/
def rank : Stage → Nat
  | .read => 0
  | .parse => 1
  | .timeout => 2
  | .other => 3

def description : Stage → String
  | .read => "reading file"
  | .parse => "parsing source"
  | .timeout => "extraction timeout"
  | .other => "processing"

/-- The stages in the order of reports. -/
def sorted (stages : List Stage) : List Stage :=
  stages.mergeSort fun a b => a.rank ≤ b.rank

end Stage

/-- Why a file could not be extracted. -/
inductive ExtractionError
  | unreadable (path reason : String)
  | oversized (path : String) (size limit : Nat)
  | parseFailed (path reason : String)
  | unsupportedLanguage (path : String)
  | timeout (path : String) (seconds : Nat)
  | workerFailed (path reason : String)
  deriving DecidableEq, Repr

namespace ExtractionError

def path : ExtractionError → String
  | .unreadable path _ | .oversized path _ _ | .parseFailed path _ | .unsupportedLanguage path
  | .timeout path _ | .workerFailed path _ => path

def stage : ExtractionError → Stage
  | .unreadable _ _ | .oversized _ _ _ => .read
  | .parseFailed _ _ | .unsupportedLanguage _ => .parse
  | .timeout _ _ => .timeout
  | .workerFailed _ _ => .other

def message : ExtractionError → String
  | .unreadable path reason => "cannot read " ++ path ++ ": " ++ reason
  | .oversized path size limit =>
    path ++ " is " ++ size.repr ++ " bytes, over the " ++ limit.repr ++ " byte limit"
  | .parseFailed path reason => "failed to parse " ++ path ++ ": " ++ reason
  | .unsupportedLanguage path => "no extraction rules for " ++ path
  | .timeout path seconds =>
    "extraction of " ++ path ++ " timed out after " ++ seconds.repr ++ "s"
  | .workerFailed path reason => "extraction worker for " ++ path ++ " failed: " ++ reason

end ExtractionError

/-- A remark about a file. -/
inductive Diagnostic
  | skipped (path : String) (reason : SkipReason)
  | error (path : String) (stage : Stage) (message : String)
  deriving DecidableEq, Repr, Inhabited

namespace Diagnostic

/-- The file under the root. -/
def path : Diagnostic → String
  | .skipped path _ | .error path _ _ => path

/-- The remark about a failed extraction. -/
def ofError (e : ExtractionError) : Diagnostic :=
  .error e.path e.stage e.message

/-- Failures before files left out. -/
def kindRank : Diagnostic → Nat
  | .error _ _ _ => 0
  | .skipped _ _ => 1

/-- The place among remarks of one kind about one file. -/
def detailRank : Diagnostic → Nat
  | .error _ stage _ => stage.rank
  | .skipped _ reason => reason.rank

/-- The order of reports: by path, by kind, and by detail. -/
def notAfter (a b : Diagnostic) : Bool :=
  a.path < b.path ||
    (a.path = b.path &&
      (a.kindRank < b.kindRank || (a.kindRank = b.kindRank && a.detailRank ≤ b.detailRank)))

/-- The remarks in order; those that tie keep their order. -/
def sorted (ds : List Diagnostic) : List Diagnostic :=
  ds.mergeSort notAfter

/-- Whether an extraction took too long. -/
def isTimeout : Diagnostic → Bool
  | .error _ .timeout _ => true
  | _ => false

/-- The line that reports a remark. -/
def text : Diagnostic → String
  | .skipped path reason => "SKIP " ++ path ++ ": " ++ reason.description
  | .error path stage message => "ERROR " ++ path ++ ": " ++ stage.description ++ ": " ++ message

end Diagnostic

end CodeImpact
