import CodeImpact.CodeGraph.Basic
import CodeImpact.Extraction.Basic
import CodeImpact.Wire.Source

/-!
# Code graphs as JSON

The forms of the records of a code graph. Identifiers of syntax nodes can be left out.
-/

namespace CodeImpact

def Table.toJson {α : Type} (f : α → Json) (t : Table α) : Json :=
  .obj (t.entries.map fun (k, a) => (k, f a))

/-- Reads a table from an object. -/
def Table.ofJson? {α : Type} (decode : Json → Option α) : Json → Option (Table α)
  | .obj fields =>
    (fields.mapM fun (e : String × Json) => (decode e.2).map fun a => (e.1, a)).map Table.ofList
  | _ => none

/-- The identifier of a record's node, if identifiers are wanted. -/
def nodeIdField (ids : Bool) (id : String) : List (String × Json) :=
  if ids then [("node_id", .str id)] else []

namespace ImportRecord

def toJson (ids : Bool) (r : ImportRecord) : Json :=
  .obj (nodeIdField ids r.nodeId ++
    [("origin", .str r.origin), ("symbols", .arr (r.symbols.map ImportedSymbol.toJson)),
      ("normalized_path", .str r.path), ("is_external", .bool r.isExternal),
      ("line", .nat r.line)])

def ofJson? (v : Json) : Option ImportRecord := do
  let nodeId ← v.required? "node_id" Json.asText?
  let origin ← v.required? "origin" Json.asText?
  let symbols ← v.required? "symbols" (Json.listOf? ImportedSymbol.ofJson?)
  let path ← v.required? "normalized_path" Json.asText?
  let isExternal ← v.required? "is_external" Json.asBool?
  let line ← v.required? "line" Json.asNat?
  some ⟨nodeId, origin, symbols, path, isExternal, line⟩

end ImportRecord

namespace CallRecord

def toJson (ids : Bool) (c : CallRecord) : Json :=
  .obj (nodeIdField ids c.nodeId ++ [("function", .str c.function), ("file", .str c.file)] ++
    Json.optionalField "caller" (c.caller.map .str) ++
    Json.optionalField "caller_type" (c.callerType.map .str) ++ [("line", .nat c.line)])

def ofJson? (v : Json) : Option CallRecord := do
  let nodeId ← v.required? "node_id" Json.asText?
  let function ← v.required? "function" Json.asText?
  let file ← v.required? "file" Json.asText?
  let caller ← v.optional? "caller" Json.asText?
  let callerType ← v.optional? "caller_type" Json.asText?
  let line ← v.required? "line" Json.asNat?
  some ⟨nodeId, function, file, caller, callerType, line⟩

end CallRecord

namespace FunctionRecord

def toJson (ids : Bool) (f : FunctionRecord) : Json :=
  .obj (nodeIdField ids f.nodeId ++
    [("file", .str f.file), ("name", .str f.name), ("scope", .str f.scope),
      ("params", .arr (f.params.map Param.toJson))] ++
    Json.optionalField "return_type" (f.returnType.map .str) ++
    [("lines", .nat f.lines), ("start_line", .nat f.startLine), ("end_line", .nat f.endLine),
      ("function_hash", .str f.functionHash), ("signature_hash", .str f.signatureHash),
      ("calls", .arr (f.calls.map (CallRecord.toJson ids)))] ++
    Json.optionalField "class_name" (f.className.map .str) ++ [("full_text", .str f.fullText)])

def ofJson? (v : Json) : Option FunctionRecord := do
  let nodeId ← v.required? "node_id" Json.asText?
  let file ← v.required? "file" Json.asText?
  let name ← v.required? "name" Json.asText?
  let scope ← v.required? "scope" Json.asText?
  let params ← v.required? "params" (Json.listOf? Param.ofJson?)
  let returnType ← v.optional? "return_type" Json.asText?
  let lines ← v.required? "lines" Json.asNat?
  let startLine ← v.required? "start_line" Json.asNat?
  let endLine ← v.required? "end_line" Json.asNat?
  let functionHash ← v.required? "function_hash" Json.asText?
  let signatureHash ← v.required? "signature_hash" Json.asText?
  let calls ← v.required? "calls" (Json.listOf? CallRecord.ofJson?)
  let className ← v.optional? "class_name" Json.asText?
  let fullText ← v.required? "full_text" Json.asText?
  some ⟨nodeId, file, name, scope, params, returnType, lines, startLine, endLine, functionHash,
    signatureHash, calls, className, fullText⟩

end FunctionRecord

namespace TypeRecord

def toJson (ids : Bool) (t : TypeRecord) : Json :=
  .obj (nodeIdField ids t.nodeId ++
    [("file", .str t.file), ("kind", .str t.kind.word), ("name", .str t.name),
      ("fields", t.fields.toJson .str), ("extends", .texts t.supers),
      ("extended_by", .texts t.extendedBy), ("implements", .texts t.interfaces),
      ("implemented_by", .texts t.implementedBy), ("scope", .str t.scope),
      ("position", t.position.toJson)])

def ofJson? (v : Json) : Option TypeRecord := do
  let nodeId ← v.required? "node_id" Json.asText?
  let file ← v.required? "file" Json.asText?
  let kind ← v.required? "kind" (ofWord? TypeKind.all TypeKind.word)
  let name ← v.required? "name" Json.asText?
  let fields ← v.required? "fields" (Table.ofJson? Json.asText?)
  let supers ← v.required? "extends" (Json.listOf? Json.asText?)
  let extendedBy ← v.required? "extended_by" (Json.listOf? Json.asText?)
  let interfaces ← v.required? "implements" (Json.listOf? Json.asText?)
  let implementedBy ← v.required? "implemented_by" (Json.listOf? Json.asText?)
  let scope ← v.required? "scope" Json.asText?
  let position ← v.required? "position" Position.ofJson?
  some ⟨nodeId, file, kind, name, fields, supers, extendedBy, interfaces, implementedBy, scope,
    position⟩

end TypeRecord

namespace FileRecord

def toJson (ids : Bool) (f : FileRecord) : Json :=
  .obj [("path", .str f.path), ("absolute_path", .str f.absolutePath),
    ("language", .str f.language.name), ("imports", .arr (f.imports.map (ImportRecord.toJson ids))),
    ("functions", .texts f.functions), ("types", .texts f.types),
    ("top_level_calls", .arr (f.topLevelCalls.map (CallRecord.toJson ids)))]

def ofJson? (v : Json) : Option FileRecord := do
  let path ← v.required? "path" Json.asText?
  let absolutePath ← v.required? "absolute_path" Json.asText?
  let language ← v.required? "language" Language.ofJson?
  let imports ← v.required? "imports" (Json.listOf? ImportRecord.ofJson?)
  let functions ← v.required? "functions" (Json.listOf? Json.asText?)
  let types ← v.required? "types" (Json.listOf? Json.asText?)
  let topLevelCalls ← v.required? "top_level_calls" (Json.listOf? CallRecord.ofJson?)
  some ⟨path, absolutePath, language, imports, functions, types, topLevelCalls⟩

end FileRecord

namespace CodeGraph

def toJson (ids : Bool) (g : CodeGraph) : Json :=
  .obj [("files", g.files.toJson (FileRecord.toJson ids)),
    ("functions", g.functions.toJson (FunctionRecord.toJson ids)),
    ("types", g.types.toJson (TypeRecord.toJson ids))]

def ofJson? (v : Json) : Option CodeGraph := do
  let files ← v.required? "files" (Table.ofJson? FileRecord.ofJson?)
  let functions ← v.required? "functions" (Table.ofJson? FunctionRecord.ofJson?)
  let types ← v.required? "types" (Table.ofJson? TypeRecord.ofJson?)
  some ⟨files, functions, types⟩

end CodeGraph

def NodeRecord.toJson (n : NodeRecord) : Json :=
  .obj ([("id", .str n.id)] ++ Json.optionalField "name" (n.name.map .str) ++
    [("kind", .str n.kind), ("text", .str n.text), ("position", n.position.toJson),
      ("children", .texts n.children)])

def Extraction.toJson (x : Extraction) : Json :=
  .obj [("file", x.file.toJson true),
    ("types", .arr (x.types.map fun t =>
      .obj [("analysis", t.record.toJson true), ("provisional", .bool t.provisional)])),
    ("functions", .arr (x.functions.map (FunctionRecord.toJson true))),
    ("calls", .arr (x.calls.map (CallRecord.toJson true))),
    ("nodes", x.nodes.toJson NodeRecord.toJson)]

end CodeImpact
