import CodeImpact.Command.Arguments

/-!
# Settings and command lines as JSON
-/

namespace CodeImpact

namespace Settings

def toJson (s : Settings) : Json :=
  .obj [("max_file_size", .nat s.maxFileSize.toNat), ("timeout_secs", .nat s.timeoutSeconds.toNat),
    ("workers", .nat s.workers.toNat), ("batch_size", .nat s.batchSize.toNat),
    ("include", .texts s.includes), ("exclude", .texts s.excludes),
    ("gitignore", .bool s.useIgnoreFiles)]

end Settings

namespace Setting

def word? (v : Json) : Option UInt64 :=
  v.asNat?.map UInt64.ofNat

/-- Reads the change of the setting with this name. -/
def ofJson? (name : String) (v : Json) : Option Setting :=
  match name with
  | "max_file_size" => (word? v).map .maxFileSize
  | "timeout_secs" => (word? v).map .timeoutSeconds
  | "workers" => (word? v).map .workers
  | "batch_size" => (word? v).map .batchSize
  | "include" => (Json.listOf? Json.asText? v).map .includes
  | "exclude" => (Json.listOf? Json.asText? v).map .excludes
  | "gitignore" => v.asBool?.map .useIgnoreFiles
  | _ => none

end Setting

/-- Reads the texts of the environment; a field that is no text counts as unset. -/
def Environment.ofJson (v : Json) : Environment :=
  ⟨(v.field? "timeout_secs").bind Json.asText?, (v.field? "max_file_size").bind Json.asText?⟩

def ExportFormat.name : ExportFormat → String
  | .json => "Json"
  | .jsonLines => "JsonL"
  | .dot => "Dot"
  | .csv => "Csv"

/-- Where a change is found. -/
def DiffSource.toJson (d : DiffSource) : Json :=
  .obj [("head", .str d.head), ("base", .str d.base), ("diff", .str d.diff),
    ("file", .orNull (d.file.map .str))]

/-- A command with its options. -/
def Command.toJson : Command → Json
  | .help => .obj [("command", .str "help")]
  | .version => .obj [("command", .str "version")]
  | .graph root enrich settings output =>
    .obj [("command", .str "graph"), ("root", .str root), ("enrich", .bool enrich),
      ("config", settings.toJson), ("output", .str output.name)]
  | .exportGraph root format minify cluster out settings =>
    .obj [("command", .str "export"), ("root", .str root), ("format", .str format.name),
      ("minify", .bool minify), ("cluster", .bool cluster), ("out", .orNull (out.map .str)),
      ("config", settings.toJson)]
  | .changes source settings output =>
    .obj [("command", .str "changes"), ("diff", source.toJson), ("config", settings.toJson),
      ("output", .str output.name)]
  | .impact source direction kinds maxDepth settings output =>
    .obj [("command", .str "impact"), ("diff", source.toJson), ("direction", .str direction.word),
      ("kinds", .orNull (kinds.map fun ks => .texts (ks.map Relation.word))),
      ("max_depth", .orNull (maxDepth.map fun n => .nat n.toNat)), ("config", settings.toJson),
      ("output", .str output.name)]

def Invocation.toJson (i : Invocation) : Json :=
  .obj [("invocation", i.command.toJson), ("verbose", .bool i.verbose)]

end CodeImpact
