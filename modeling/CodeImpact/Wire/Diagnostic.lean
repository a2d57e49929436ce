import CodeImpact.Diagnostic
import CodeImpact.Wire.Source

/-!
# Diagnostics as JSON
-/

namespace CodeImpact

namespace Diagnostic

/-- A remark, tagged with its kind. -/
def toJson : Diagnostic → Json
  | .skipped path reason =>
    .obj [("type", .str "skipped"), ("path", .str path), ("reason", .str reason.word)]
  | .error path stage message =>
    .obj [("type", .str "error"), ("path", .str path), ("stage", .str stage.word),
      ("message", .str message)]

def ofJson? (v : Json) : Option Diagnostic := do
  let kind ← v.required? "type" Json.asText?
  let path ← v.required? "path" Json.asText?
  if kind = "skipped" then
    some (.skipped path (← v.required? "reason" (ofWord? SkipReason.all SkipReason.word)))
  else if kind = "error" then
    let stage ← v.required? "stage" (ofWord? Stage.all Stage.word)
    some (.error path stage (← v.required? "message" Json.asText?))
  else none

/-- Remarks with the lines that report them. -/
def describe (ds : List Diagnostic) : Json :=
  .obj [("list", .arr (ds.map toJson)), ("text", .texts (ds.map text))]

end Diagnostic

/-- Reads an extraction error, named by its field `error`. -/
def ExtractionError.ofJson? (v : Json) : Option ExtractionError := do
  let kind ← v.required? "error" Json.asText?
  let path ← v.required? "path" Json.asText?
  match kind with
  | "unreadable" => some (.unreadable path (← v.required? "reason" Json.asText?))
  | "oversized" =>
    let size ← v.required? "size" Json.asNat?
    some (.oversized path size (← v.required? "limit" Json.asNat?))
  | "parse_failed" => some (.parseFailed path (← v.required? "reason" Json.asText?))
  | "unsupported" => some (.unsupportedLanguage path)
  | "timeout" => some (.timeout path (← v.required? "seconds" Json.asNat?))
  | "worker" => some (.workerFailed path (← v.required? "reason" Json.asText?))
  | _ => none

end CodeImpact
