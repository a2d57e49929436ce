import CodeImpact.Impact.Basic

/-!
# The combined impact of several changes

A node that several seeds reach is reported once, at its lowest level and with its highest severity.
Seeds are never reported.
-/

namespace CodeImpact

/-- The impact of a whole change. -/
structure ImpactReport where
  seeds : List String
  levels : List ImpactLevel
  summary : ImpactSummary
  deriving DecidableEq, Repr, Inhabited

namespace ImpactReport

/-- Joins two reports on one node. -/
def join (a b : ImpactedNode) : ImpactedNode :=
  { a with
    level := Nat.min a.level b.level
    severity := a.severity.max b.severity
    calledBy := sortedSet (a.calledBy ++ b.calledBy)
    importedBy := sortedSet (a.importedBy ++ b.importedBy) }

/-- Adds a report on a node. -/
def addNode (t : Table ImpactedNode) (n : ImpactedNode) : Table ImpactedNode :=
  t.insert n.id (((t.get? n.id).map (join · n)).getD n)

/-- The combined report of several results. -/
def ofResults (results : List ImpactResult) : ImpactReport :=
  let seeds := sortedSet (results.map (·.seed))
  let nodes := (results.flatMap ImpactResult.nodes).filter fun n => !seeds.contains n.id
  let levels := groupLevels (nodes.foldl addNode .empty).values
  ⟨seeds, levels, .ofLevels levels⟩

def nodes (r : ImpactReport) : List ImpactedNode :=
  r.levels.flatMap (·.nodes)

def isEmpty (r : ImpactReport) : Bool :=
  r.summary.total = 0

end ImpactReport

end CodeImpact
