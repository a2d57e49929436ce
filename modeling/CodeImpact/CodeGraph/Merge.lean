import CodeImpact.CodeGraph.Basic
import CodeImpact.Extraction.Basic

/-!
# Merging extractions

The contributions of the files of a project become one code graph. Declarations of a type with one
key are merged; the first one that is not provisional decides the kind, the position and the node.
-/

namespace CodeImpact

/-- A code graph in the making. -/
structure Merger where
  graph : CodeGraph := {}
  nodes : Table NodeRecord := .empty
  /-- The keys of types that only provisional blocks have declared so far. -/
  provisional : List String := []
  /-- The number of merged files. -/
  fileCount : Nat := 0

namespace Merger

/-- Takes the kind, position and node of a declaration. -/
def adopt (t declared : TypeRecord) : TypeRecord :=
  { t with kind := declared.kind, position := declared.position, nodeId := declared.nodeId }

def addType (m : Merger) (x : ExtractedType) : Merger :=
  let key := x.record.key
  match m.graph.types.get? key with
  | none =>
    { m with
      graph := { m.graph with types := m.graph.types.insert key x.record }
      provisional := if x.provisional then key :: m.provisional else m.provisional }
  | some t =>
    let adopts := !x.provisional && m.provisional.contains key
    let t := if adopts then adopt t x.record else t
    { m with
      graph := { m.graph with types := m.graph.types.insert key (t.mergeFrom x.record) }
      provisional := if adopts then m.provisional.filter (· ≠ key) else m.provisional }

/-- Adds a function; a later one replaces an earlier one with the same key. -/
def addFunction (g : CodeGraph) (f : FunctionRecord) : CodeGraph :=
  { g with functions := g.functions.insert f.key f }

/-- Adds all that a file contributes. -/
def addFile (m : Merger) (x : Extraction) : Merger :=
  let m := x.types.foldl addType m
  let graph := x.functions.foldl addFunction m.graph
  { m with
    graph := { graph with files := graph.files.insert x.file.absolutePath x.file }
    nodes := m.nodes.insertAll x.nodes
    fileCount := m.fileCount + 1 }

end Merger

end CodeImpact
