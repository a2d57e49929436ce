import CodeImpact.RelationGraph.Basic
import CodeImpact.Table

/-!
# Impact of changes

The functions that a change can reach in a relation graph, grouped by their distance from it, with a
severity that says how tightly they are coupled to what was reached.
-/

namespace CodeImpact

/-- Which way edges are followed. -/
inductive Direction
  /-- From the source to the target: what the change depends on. -/
  | forward
  /-- From the target to the source: what depends on the change. -/
  | backward
  | both
  deriving DecidableEq, Repr, Inhabited

namespace Direction

def word : Direction → String
  | .forward => "forward"
  | .backward => "backward"
  | .both => "both"

/-- A text in lower case without blanks at its ends. -/
def plain (text : String) : String :=
  String.ofList ((Text.trimBoth text.toList).map Char.toLower)

/-- The direction that a word names. -/
def ofText? (text : String) : Option Direction :=
  let word := plain text
  if ["forward", "out", "outgoing", "downstream"].contains word then some .forward
  else if ["backward", "in", "incoming", "upstream"].contains word then some .backward
  else if ["both", "all", "any"].contains word then some .both
  else none

/-- Why a text names no direction. -/
def unknownText (text : String) : String :=
  "unknown direction: " ++ plain text ++ " (expected forward, backward or both)"

end Direction

/-- How tightly a node is coupled to what was reached. -/
inductive Severity
  | low
  | medium
  | high
  deriving DecidableEq, Repr, Inhabited

namespace Severity

def all : List Severity :=
  [.low, .medium, .high]

def word : Severity → String
  | .low => "low"
  | .medium => "medium"
  | .high => "high"

/-- The place in the order. -/
def rank : Severity → Nat
  | .low => 0
  | .medium => 1
  | .high => 2

def max (a b : Severity) : Severity :=
  if a.rank ≤ b.rank then b else a

/-- The severity that one relation brings. -/
def ofRelation : Relation → Severity
  | .calls | .callsImplementation => .high
  | .implements | .extendsType | .implementedBy => .medium
  | _ => .low

end Severity

/-- What a traversal follows and how far. -/
structure TraversalOptions where
  direction : Direction := .backward
  /-- The kinds of edges to follow; none stands for all. -/
  kinds : Option (List Relation) := none
  /-- The last level to report; none stands for no limit. -/
  maxDepth : Option Nat := none
  deriving DecidableEq, Repr, Inhabited

/-- Whether edges of a kind are followed. -/
def TraversalOptions.follows (o : TraversalOptions) (kind : Relation) : Bool :=
  o.kinds.all (·.contains kind)

/-- A function that a change reaches. -/
structure ImpactedNode where
  id : String
  name : String
  kind : NodeKind
  severity : Severity
  /-- The distance from the seed. -/
  level : Nat
  filePath : String
  /-- The sources of its incoming call edges. -/
  calledBy : List String
  /-- The sources of its incoming import edges. -/
  importedBy : List String
  deriving DecidableEq, Repr, Inhabited

/-- The nodes at one distance. -/
structure ImpactLevel where
  level : Nat
  nodes : List ImpactedNode
  deriving DecidableEq, Repr, Inhabited

/-- Counts over reported nodes; kinds and severities that do not occur are left out. -/
structure ImpactSummary where
  total : Nat := 0
  /-- The greatest level, or zero. -/
  maxLevel : Nat := 0
  byKind : List (NodeKind × Nat) := []
  bySeverity : List (Severity × Nat) := []
  deriving DecidableEq, Repr, Inhabited

/-- The counts over all nodes of the levels. -/
def ImpactSummary.ofLevels (levels : List ImpactLevel) : ImpactSummary :=
  let nodes := levels.flatMap (·.nodes)
  { total := nodes.length
    maxLevel := nodes.foldl (fun m n => Nat.max m n.level) 0
    byKind := (NodeKind.all.map fun k => (k, nodes.countP (·.kind = k))).filter (0 < ·.2)
    bySeverity :=
      (Severity.all.map fun s => (s, nodes.countP (·.severity = s))).filter (0 < ·.2) }

/-- The impact of one changed function. -/
structure ImpactResult where
  seed : String
  levels : List ImpactLevel
  summary : ImpactSummary
  deriving DecidableEq, Repr, Inhabited

def ImpactResult.nodes (r : ImpactResult) : List ImpactedNode :=
  r.levels.flatMap (·.nodes)

/-- Level first, then identifier. -/
def ImpactedNode.notAfter (a b : ImpactedNode) : Bool :=
  a.level < b.level || (a.level = b.level && a.id ≤ b.id)

/-- Puts neighbouring nodes of one level together. -/
def gatherLevels : List ImpactedNode → List ImpactLevel
  | [] => []
  | n :: rest =>
    match gatherLevels rest with
    | g :: groups =>
      if g.level = n.level then ⟨n.level, n :: g.nodes⟩ :: groups
      else ⟨n.level, [n]⟩ :: g :: groups
    | [] => [⟨n.level, [n]⟩]

/-- The nodes grouped by level, ordered by level and then by identifier. -/
def groupLevels (nodes : List ImpactedNode) : List ImpactLevel :=
  gatherLevels (nodes.mergeSort ImpactedNode.notAfter)

end CodeImpact
