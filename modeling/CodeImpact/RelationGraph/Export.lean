import CodeImpact.Json.Writer
import CodeImpact.RelationGraph.Basic
import CodeImpact.Table
import CodeImpact.Wire.Source

/-!
# Exporting relation graphs

A graph as one JSON document, as JSON lines, as a list of edges in comma-separated values, or as a
digraph in the DOT language.
-/

namespace CodeImpact

namespace GraphNode

def jsonFields (n : GraphNode) : List (String × Json) :=
  [("id", .str n.id), ("name", .str n.name), ("kind", .str n.kind.word), ("file", .str n.file),
    ("file_path", .str n.filePath)] ++
  Json.optionalField "position" (n.position.map Position.toJson)

def toJson (n : GraphNode) : Json :=
  .obj n.jsonFields

def ofJson? (v : Json) : Option GraphNode := do
  let id ← v.required? "id" Json.asText?
  let name ← v.required? "name" Json.asText?
  let kind ← v.required? "kind" (ofWord? NodeKind.all NodeKind.word)
  let file ← v.required? "file" Json.asText?
  let filePath ← v.required? "file_path" Json.asText?
  let position ← v.optional? "position" Position.ofJson?
  some ⟨id, name, kind, file, filePath, position⟩

end GraphNode

namespace GraphEdge

def jsonFields (e : GraphEdge) : List (String × Json) :=
  [("from", .str e.source), ("to", .str e.target), ("kind", .str e.kind.word),
    ("from_path", .str e.sourcePath), ("to_path", .str e.targetPath)]

def toJson (e : GraphEdge) : Json :=
  .obj e.jsonFields

def ofJson? (v : Json) : Option GraphEdge := do
  let source ← v.required? "from" Json.asText?
  let target ← v.required? "to" Json.asText?
  let kind ← v.required? "kind" (ofWord? Relation.all Relation.word)
  let sourcePath ← v.required? "from_path" Json.asText?
  let targetPath ← v.required? "to_path" Json.asText?
  some ⟨source, target, kind, sourcePath, targetPath⟩

end GraphEdge

/-- A way to write a graph. -/
inductive ExportFormat
  | json
  | jsonLines
  | dot
  | csv
  deriving DecidableEq, Repr, Inhabited

namespace ExportFormat

/-- The format that a word names, in any case. -/
def ofText? (text : String) : Option ExportFormat :=
  let word := text.toList.map Char.toLower
  if word = "json".toList then some .json
  else if word = "jsonl".toList then some .jsonLines
  else if word = "dot".toList then some .dot
  else if word = "csv".toList then some .csv
  else none

/-- Why a text names no format. -/
def unknownText (text : String) : String :=
  "unknown export format: " ++ text ++ " (expected json, jsonl, csv or dot)"

end ExportFormat

namespace RelationGraph

def toJson (g : RelationGraph) : Json :=
  .obj [("nodes", .arr (g.nodes.map GraphNode.toJson)),
    ("edges", .arr (g.edges.map GraphEdge.toJson))]

def ofJson? (v : Json) : Option RelationGraph := do
  let nodes ← v.required? "nodes" (Json.listOf? GraphNode.ofJson?)
  let edges ← v.required? "edges" (Json.listOf? GraphEdge.ofJson?)
  some ⟨nodes, edges⟩

/-- One JSON document. -/
def exportJson (g : RelationGraph) (minify : Bool) : String :=
  if minify then g.toJson.compact else g.toJson.pretty

/-- One record per node and then per edge, tagged with what it is. -/
def jsonRecords (g : RelationGraph) : List Json :=
  (g.nodes.map fun n => .obj (("type", .str "node") :: n.jsonFields)) ++
    g.edges.map fun e => .obj (("type", .str "edge") :: e.jsonFields)

def exportJsonLines (g : RelationGraph) : String :=
  "\n".intercalate (g.jsonRecords.map Json.compact)

/-- A field of a line; one with a comma, a quote or a line break is quoted, with quotes doubled. -/
def csvField (s : String) : String :=
  if s.toList.any fun c => c = ',' || c = '\"' || c = '\r' || c = '\n' then
    "\"" ++ Text.replaceChar '\"' ['\"', '\"'] s ++ "\""
  else s

def csvLine (fields : List String) : String :=
  ",".intercalate (fields.map csvField) ++ "\n"

/-- The edges with the names of their ends. -/
def exportCsv (g : RelationGraph) : String :=
  let nameOf (id : String) := ((g.node? id).map (·.name)).getD ""
  let header := ["from", "from_name", "kind", "to", "to_name", "from_path", "to_path"]
  "".intercalate ((header :: g.edges.map fun e =>
    [e.source, nameOf e.source, e.kind.word, e.target, nameOf e.target, e.sourcePath,
      e.targetPath]).map csvLine)

/-- A text between quotes: backslashes are escaped, and then quotes. -/
def dotEscape (s : String) : String :=
  Text.replaceChar '\"' ['\\', '\"'] (Text.replaceChar '\\' ['\\', '\\'] s)

def dotShape : NodeKind → String
  | .file => "folder"
  | .classLike => "box"
  | .interface => "component"
  | .function => "ellipse"

def dotNode (n : GraphNode) : String :=
  "\"" ++ dotEscape n.id ++ "\" [label=\"" ++ dotEscape n.name ++ "\", shape=" ++
    dotShape n.kind ++ "];"

def dotEdge (e : GraphEdge) : String :=
  "\"" ++ dotEscape e.source ++ "\" -> \"" ++ dotEscape e.target ++ "\" [label=\"" ++
    e.kind.word ++ "\"];"

/-- The files of the nodes in order. -/
def filesOfNodes (g : RelationGraph) : List String :=
  sortedSet (g.nodes.map (·.file))

/-- The lines of the subgraph of a file. -/
def dotCluster (g : RelationGraph) (file : String) (number : Nat) : List String :=
  ["  subgraph cluster_" ++ number.repr ++ " \x7b", "    label=\"" ++ dotEscape file ++ "\";"] ++
    ((g.nodes.filter (·.file = file)).map fun n => "    " ++ dotNode n) ++ ["  \x7d"]

/-- A digraph; with clusters, the nodes of each file are in one subgraph. -/
def exportDot (g : RelationGraph) (cluster : Bool) : String :=
  let nodes :=
    if cluster then g.filesOfNodes.zipIdx.flatMap fun (file, i) => g.dotCluster file i
    else g.nodes.map fun n => "  " ++ dotNode n
  "".intercalate (([
    "digraph blastmap \x7b", "  rankdir=LR;", "  node [fontname=\"Helvetica\"];"] ++ nodes ++
    (g.edges.map fun e => "  " ++ dotEdge e) ++ ["\x7d"]).map (· ++ "\n"))

/-- The text of a graph in a format. -/
def exportAs (g : RelationGraph) (format : ExportFormat) (minify cluster : Bool) : String :=
  match format with
  | .json => g.exportJson minify
  | .jsonLines => g.exportJsonLines
  | .csv => g.exportCsv
  | .dot => g.exportDot cluster

end RelationGraph

end CodeImpact
