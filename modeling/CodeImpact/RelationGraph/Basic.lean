import CodeImpact.Source.Tree
import CodeImpact.Text.Affix
import CodeImpact.Text.Blank

/-!
# Relation graphs

Files, types and functions as nodes, with one edge for each way in which one of them is related to
another.
-/

namespace CodeImpact

/-- The kind of a node. -/
inductive NodeKind
  | file
  | classLike
  | interface
  | function
  deriving DecidableEq, Repr, Inhabited

namespace NodeKind

def all : List NodeKind :=
  [.file, .classLike, .interface, .function]

def word : NodeKind → String
  | .file => "FILE"
  | .classLike => "CLASS"
  | .interface => "INTERFACE"
  | .function => "FUNCTION"

end NodeKind

/-- The kind of an edge. -/
inductive Relation
  | calls
  | callsImplementation
  | hasMethod
  | imports
  | implements
  | implementedBy
  | extendsType
  | extendedBy
  deriving DecidableEq, Repr, Inhabited

namespace Relation

def all : List Relation :=
  [.calls, .callsImplementation, .hasMethod, .imports, .implements, .implementedBy, .extendsType,
    .extendedBy]

def word : Relation → String
  | .calls => "CALLS"
  | .callsImplementation => "CALLS_IMPLEMENTATION"
  | .hasMethod => "HAS_METHOD"
  | .imports => "IMPORTS"
  | .implements => "IMPLEMENTS"
  | .implementedBy => "IMPLEMENTED_BY"
  | .extendsType => "EXTENDS"
  | .extendedBy => "EXTENDED_BY"

theorem word_injective : Function.Injective word := by
  intro a b h
  cases a <;> cases b <;> first | rfl | exact absurd h (by decide)

/-- The kind that a text names, in any case, with `-` or `_`, and with blanks around. -/
def ofText? (text : String) : Option Relation :=
  let wanted := (Text.trimBoth text.toList).map fun c => if c = '-' then '_' else c.toUpper
  all.find? fun r => r.word.toList = wanted

/-- Why a text names no kind. -/
def unknownText (text : String) : String :=
  "unknown relationship kind: " ++ text

end Relation

/-- A file, a type or a function. -/
structure GraphNode where
  /-- The key, or the absolute path of a file. -/
  id : String
  name : String
  kind : NodeKind
  /-- The path under the project root. -/
  file : String
  /-- The absolute path. -/
  filePath : String
  position : Option Position
  deriving DecidableEq, Repr, Inhabited

/-- A relation between two nodes. -/
structure GraphEdge where
  source : String
  target : String
  kind : Relation
  sourcePath : String
  targetPath : String
  deriving DecidableEq, Repr, Inhabited

/-- Nodes and edges in order. -/
structure RelationGraph where
  nodes : List GraphNode := []
  edges : List GraphEdge := []
  deriving DecidableEq, Repr, Inhabited

namespace RelationGraph

/-- The node with this identifier; the last one counts if it is repeated. -/
def node? (g : RelationGraph) (id : String) : Option GraphNode :=
  g.nodes.reverse.find? fun n => n.id = id

/-- How many edges there are of each kind that occurs. -/
def edgeCounts (g : RelationGraph) : List (Relation × Nat) :=
  (Relation.all.map fun r => (r, g.edges.countP fun e => e.kind = r)).filter fun c => 0 < c.2

end RelationGraph

end CodeImpact
