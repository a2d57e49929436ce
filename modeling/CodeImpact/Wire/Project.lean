import CodeImpact.Project.Analysis
import CodeImpact.Wire.Diagnostic
import CodeImpact.Wire.Record

/-!
# Snapshots of file systems and analyses as JSON
-/

namespace CodeImpact

/-- Reads a file with its path. -/
def StoredFile.ofJson? (v : Json) : Option (String × StoredFile) := do
  let path ← v.required? "path" Json.asText?
  let source ← SourceText.ofJson? v
  let tree ← v.optional? "tree" Tree.ofJson?
  some (path, ⟨source, tree⟩)

/-- Reads a link with its path. -/
def linkOfJson? (v : Json) : Option (String × String) := do
  let path ← v.required? "path" Json.asText?
  let target ← v.required? "target" Json.asText?
  some (path, target)

/-- The value of a field that is a list of values; a missing list is empty. -/
def listField? {α : Type} (name : String) (decode : Json → Option α) (v : Json) :
    Option (List α) :=
  (v.optional? name (Json.listOf? decode)).map (·.getD [])

/-- Reads a snapshot: files, directories and links. -/
def Disk.ofJson? (v : Json) : Option Disk := do
  let files ← listField? "files" StoredFile.ofJson? v
  let dirs ← listField? "dirs" Json.asText? v
  let links ← listField? "links" linkOfJson? v
  let d := files.foldl (fun (d : Disk) (path, f) => d.add path (.file f)) {}
  let d := dirs.foldl (fun (d : Disk) path => d.add path (.directory [])) d
  some (links.foldl (fun (d : Disk) (path, target) => d.add path (.link target)) d)

def Discovery.toJson (found : Discovery) : Json :=
  .obj [("root", .str found.root), ("files", .texts found.files),
    ("diagnostics", Diagnostic.describe found.skipped)]

/-- The fields of an assembly, with remarks. -/
def Assembly.jsonFields (a : Assembly) (ds : List Diagnostic) : List (String × Json) :=
  [("graph", a.graph.toJson false), ("files_analyzed", .nat a.fileCount),
    ("node_count", .nat a.nodes.size), ("partial", .bool a.isPartial),
    ("diagnostics", Diagnostic.describe ds)]

end CodeImpact
