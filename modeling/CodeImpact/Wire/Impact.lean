import CodeImpact.Impact.Report
import CodeImpact.Wire.Source

/-!
# Impacts as JSON
-/

namespace CodeImpact

namespace ImpactedNode

def toJson (n : ImpactedNode) : Json :=
  .obj [("id", .str n.id), ("name", .str n.name), ("kind", .str n.kind.word),
    ("severity", .str n.severity.word), ("level", .nat n.level), ("file_path", .str n.filePath),
    ("called_by", .texts n.calledBy), ("imported_by", .texts n.importedBy)]

def ofJson? (v : Json) : Option ImpactedNode := do
  let id ← v.required? "id" Json.asText?
  let name ← v.required? "name" Json.asText?
  let kind ← v.required? "kind" (ofWord? NodeKind.all NodeKind.word)
  let severity ← v.required? "severity" (ofWord? Severity.all Severity.word)
  let level ← v.required? "level" Json.asNat?
  let filePath ← v.required? "file_path" Json.asText?
  let calledBy ← v.required? "called_by" (Json.listOf? Json.asText?)
  let importedBy ← v.required? "imported_by" (Json.listOf? Json.asText?)
  some ⟨id, name, kind, severity, level, filePath, calledBy, importedBy⟩

end ImpactedNode

namespace ImpactLevel

def toJson (l : ImpactLevel) : Json :=
  .obj [("level", .nat l.level), ("nodes", .arr (l.nodes.map ImpactedNode.toJson))]

def ofJson? (v : Json) : Option ImpactLevel := do
  let level ← v.required? "level" Json.asNat?
  let nodes ← v.required? "nodes" (Json.listOf? ImpactedNode.ofJson?)
  some ⟨level, nodes⟩

end ImpactLevel

namespace ImpactSummary

/-- Counts as an object with the words of what is counted. -/
def countsToJson {α : Type} (word : α → String) (counts : List (α × Nat)) : Json :=
  .obj (counts.map fun (a, n) => (word a, .nat n))

/-- Reads counts; the last one counts if a word is repeated. -/
def countsOfJson? {α : Type} (all : List α) (word : α → String) : Json → Option (List (α × Nat))
  | .obj fields => do
    let known ← fields.mapM fun (e : String × Json) => do
      let a ← all.find? fun a => word a = e.1
      let n ← e.2.asNat?
      some (word a, a, n)
    some (all.filterMap fun a =>
      (known.reverse.find? fun e => e.1 = word a).map fun e => (a, e.2.2))
  | _ => none

def toJson (s : ImpactSummary) : Json :=
  .obj [("total", .nat s.total), ("max_level", .nat s.maxLevel),
    ("by_kind", countsToJson NodeKind.word s.byKind),
    ("by_severity", countsToJson Severity.word s.bySeverity)]

def ofJson? (v : Json) : Option ImpactSummary := do
  let total ← v.required? "total" Json.asNat?
  let maxLevel ← v.required? "max_level" Json.asNat?
  let byKind ← v.required? "by_kind" (countsOfJson? NodeKind.all NodeKind.word)
  let bySeverity ← v.required? "by_severity" (countsOfJson? Severity.all Severity.word)
  some ⟨total, maxLevel, byKind, bySeverity⟩

end ImpactSummary

namespace ImpactResult

def toJson (r : ImpactResult) : Json :=
  .obj [("seed", .str r.seed), ("levels", .arr (r.levels.map ImpactLevel.toJson)),
    ("summary", r.summary.toJson)]

def ofJson? (v : Json) : Option ImpactResult := do
  let seed ← v.required? "seed" Json.asText?
  let levels ← v.required? "levels" (Json.listOf? ImpactLevel.ofJson?)
  let summary ← v.required? "summary" ImpactSummary.ofJson?
  some ⟨seed, levels, summary⟩

end ImpactResult

def ImpactReport.toJson (r : ImpactReport) : Json :=
  .obj [("seeds", .texts r.seeds), ("levels", .arr (r.levels.map ImpactLevel.toJson)),
    ("summary", r.summary.toJson)]

end CodeImpact
