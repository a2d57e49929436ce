import CodeImpact.Json.Writer

/-!
# Output formats and error codes

How a command writes its answer, and the stable codes of its errors.
-/

namespace CodeImpact

/-- How a command writes its answer. -/
inductive OutputFormat
  /-- Text for people. -/
  | human
  /-- JSON on one line. -/
  | json
  /-- Indented JSON. -/
  | pretty
  deriving DecidableEq, Repr, Inhabited

namespace OutputFormat

def name : OutputFormat → String
  | .human => "Human"
  | .json => "Json"
  | .pretty => "Pretty"

/-- The format that a word names, in any case. -/
def ofText? (text : String) : Option OutputFormat :=
  let word := String.ofList (text.toList.map Char.toLower)
  if ["human", "text"].contains word then some .human
  else if word = "json" then some .json
  else if word = "pretty" then some .pretty
  else none

/-- Why a text names no format. -/
def unknownText (text : String) : String :=
  "Invalid output format: " ++ text ++ ". Must be human, json, or pretty"

def isJson (f : OutputFormat) : Bool :=
  f ≠ .human

/-- The text of a JSON value; only the indented form has line breaks. -/
def render (f : OutputFormat) (v : Json) : String :=
  match f with
  | .pretty => v.pretty
  | _ => v.compact

end OutputFormat

/-- A kind of error with a stable code. -/
inductive ErrorCode
  | missingRoot
  | rootNotADirectory
  | noFiles
  | unreadableDiff
  | noHunks
  | invalidArguments
  | invalidPath
  | writeFailed
  deriving DecidableEq, Repr, Inhabited

namespace ErrorCode

def text : ErrorCode → String
  | .missingRoot => "BLM-ROOT-001"
  | .rootNotADirectory => "BLM-ROOT-002"
  | .noFiles => "BLM-ROOT-003"
  | .unreadableDiff => "BLM-DIF-001"
  | .noHunks => "BLM-DIF-002"
  | .invalidArguments => "BLM-ARG-001"
  | .invalidPath => "BLM-IO-001"
  | .writeFailed => "BLM-IO-002"

/-- The category that a code names: three parts, the first one fixed, the last one of three digits.
-/
def category? (code : String) : Option String :=
  match code.toList.splitOn '-' with
  | [lead, category, number] =>
    if lead = "BLM".toList && number.length = 3 && number.all Char.isDigit then
      some (String.ofList category)
    else none
  | _ => none

end ErrorCode

/-- An error as it is reported in JSON. -/
structure ErrorReport where
  code : String
  /-- The kind of the error in one word. -/
  error : String
  message : String
  deriving DecidableEq, Repr, Inhabited

namespace ErrorReport

def toJson (e : ErrorReport) : Json :=
  .obj [("code", .str e.code), ("error", .str e.error), ("message", .str e.message)]

def ofJson? (v : Json) : Option ErrorReport := do
  let code ← v.required? "code" Json.asText?
  let error ← v.required? "error" Json.asText?
  let message ← v.required? "message" Json.asText?
  some ⟨code, error, message⟩

end ErrorReport

end CodeImpact
