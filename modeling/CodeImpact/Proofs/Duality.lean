import CodeImpact.Proofs.DepthLimit

/-!
# Duality of directions

To follow edges backward is to follow the edges of the reversed graph forward. A walk therefore
finds the same distances on a graph as in the opposite direction on its reversal. A node is coupled
by an edge at either end, so the severities agree too; only the sources of a reported node tell the
two graphs apart. In both directions every path can be walked back, and distances are symmetric.
-/

namespace CodeImpact

/-! ## Reversal -/

/-- The edge with its ends exchanged. -/
def GraphEdge.reversed (e : GraphEdge) : GraphEdge :=
  { e with source := e.target, target := e.source }

/-- The graph with the same nodes and every edge reversed. -/
def RelationGraph.reversed (g : RelationGraph) : RelationGraph :=
  { g with edges := g.edges.map GraphEdge.reversed }

/-- The other way along an edge. -/
def Direction.opposite : Direction → Direction
  | .forward => .backward
  | .backward => .forward
  | .both => .both

theorem Direction.opposite_eq_iff {d d' : Direction} : d.opposite = d' ↔ d = d'.opposite := by
  cases d <;> cases d' <;> decide

/-- The same traversal in the opposite direction. -/
def TraversalOptions.turned (o : TraversalOptions) : TraversalOptions :=
  { o with direction := o.direction.opposite }

@[simp] theorem TraversalOptions.turned_turned (o : TraversalOptions) : o.turned.turned = o := by
  obtain ⟨direction, kinds, maxDepth⟩ := o
  cases direction <;> rfl

/-- Whether an edge joins a node to others does not depend on its direction. -/
theorem GraphEdge.couples_reversed {e : GraphEdge} {x : String} {reached : Set String} :
    e.reversed.Couples x reached ↔ e.Couples x reached :=
  Or.comm

namespace RelationGraph

variable {g : RelationGraph} {o : TraversalOptions} {seed x y z : String} {n d : Nat}

@[simp] theorem reversed_reversed (g : RelationGraph) : g.reversed.reversed = g := by
  have hedges : g.edges.map (GraphEdge.reversed ∘ GraphEdge.reversed) = g.edges :=
    List.map_id'' (fun _ => rfl) g.edges
  rw [reversed, reversed, List.map_map, hedges]

theorem Hop.reversed (h : g.Hop o x y) : g.reversed.Hop o.turned x y := by
  cases h with
  | @ahead e mem kind direction =>
    refine Hop.back (e := e.reversed) (List.mem_map_of_mem mem) kind fun hforward => ?_
    exact direction (Direction.opposite_eq_iff.1 hforward)
  | @back e mem kind direction =>
    refine Hop.ahead (e := e.reversed) (List.mem_map_of_mem mem) kind fun hbackward => ?_
    exact direction (Direction.opposite_eq_iff.1 hbackward)

theorem Path.reversed (h : g.Path o n x y) : g.reversed.Path o.turned n x y := by
  induction h with
  | nil x => exact .nil x
  | snoc _ hop ih => exact .snoc ih hop.reversed

/-- The opposite direction has the same paths on the reversed graph. -/
theorem path_reversed : g.reversed.Path o.turned n x y ↔ g.Path o n x y := by
  refine ⟨fun h => ?_, Path.reversed⟩
  simpa using h.reversed

theorem isDistance_reversed : g.reversed.IsDistance o.turned x y d ↔ g.IsDistance o x y d := by
  simp only [IsDistance, path_reversed]

theorem reachable_reversed : g.reversed.reachable o.turned seed = g.reachable o seed := by
  simp only [reachable, path_reversed]

/-- Turning the graph and the direction changes no severity. -/
theorem severity_reversed (g : RelationGraph) (o : TraversalOptions) (seed x : String) :
    g.reversed.severity (g.reversed.visited o.turned seed) x =
      g.severity (g.visited o seed) x := by
  have hrank : ∀ rank, 0 < rank →
      (rank ≤ (g.reversed.severity (g.reversed.visited o.turned seed) x).rank ↔
        rank ≤ (g.severity (g.visited o seed) x).rank) := by
    intro rank hpos
    rw [le_rank_severity hpos, le_rank_severity hpos, reachable_reversed]
    simp only [reversed, List.mem_map, exists_exists_and_eq_and, GraphEdge.couples_reversed]
    rfl
  apply Severity.rank_injective
  apply eq_of_forall_le_iff
  intro rank
  obtain rfl | hpos := Nat.eq_zero_or_pos rank
  · simp
  · exact hrank rank hpos

end RelationGraph

/-! ## Results without sources -/

/-- A report without the sources of the edges into the node. -/
def ImpactedNode.withoutSources (n : ImpactedNode) : ImpactedNode :=
  { n with calledBy := [], importedBy := [] }

theorem ImpactedNode.place_withoutSources (n : ImpactedNode) : n.withoutSources.place = n.place :=
  rfl

/-- A result whose reports have no sources; all else is kept: the seed, the levels with the
identifiers and severities, and the summary. -/
def ImpactResult.withoutSources (r : ImpactResult) : ImpactResult :=
  { r with levels := r.levels.map (·.map ImpactedNode.withoutSources) }

/-- The summary reads no sources. -/
theorem ImpactSummary.ofLevels_withoutSources (levels : List ImpactLevel) :
    ofLevels (levels.map (·.map ImpactedNode.withoutSources)) = ofLevels levels := by
  have hnodes : (levels.map (·.map ImpactedNode.withoutSources)).flatMap (·.nodes) =
      (levels.flatMap (·.nodes)).map ImpactedNode.withoutSources := by
    rw [List.flatMap_map, List.map_flatMap]
    rfl
  simp only [ofLevels, hnodes, List.length_map, List.foldl_map, List.countP_map]
  rfl

namespace RelationGraph

variable {g : RelationGraph} {o : TraversalOptions} {seed x y z : String} {n d : Nat}

/-- The opposite direction on the reversed graph finds each node with its level and severity. -/
theorem mem_found_reversed {n : ImpactedNode}
    (h : n ∈ (g.found o seed).map ImpactedNode.withoutSources) :
    n ∈ (g.reversed.found o.turned seed).map ImpactedNode.withoutSources := by
  obtain ⟨report, hreport, rfl⟩ := List.mem_map.1 h
  obtain ⟨hseed, m, d, hm, hkind, hne, hdist, hadmits, rfl⟩ :=
    mem_nodes_impact.1 (mem_found.1 hreport)
  refine List.mem_map.2 ⟨g.reversed.reportOn o.turned seed m d, ?_, ?_⟩
  · exact mem_found.2 (mem_nodes_impact.2
      ⟨hseed, m, d, hm, hkind, hne, isDistance_reversed.2 hdist, hadmits, rfl⟩)
  · simp only [reportOn, ImpactedNode.withoutSources, severity_reversed]

/-- Turning the graph and the direction changes nothing but the sources that reports name. -/
theorem impact_reversed (g : RelationGraph) (o : TraversalOptions) (seed : String) :
    (g.reversed.impact o.turned seed).withoutSources = (g.impact o seed).withoutSources := by
  have hdistinct : ∀ (g : RelationGraph) o,
      (((g.found o seed).map ImpactedNode.withoutSources).map (·.id)).Nodup := by
    intro g o
    rw [List.map_map]
    exact nodup_ids_found g o seed
  have hlevels : (groupLevels (g.reversed.found o.turned seed)).map
        (·.map ImpactedNode.withoutSources) =
      (groupLevels (g.found o seed)).map (·.map ImpactedNode.withoutSources) := by
    rw [map_groupLevels ImpactedNode.place_withoutSources,
      map_groupLevels ImpactedNode.place_withoutSources]
    refine groupLevels_congr (hdistinct _ _) (hdistinct _ _) fun n => ⟨fun h => ?_, ?_⟩
    · -- The reversal of the reversal is the graph itself.
      simpa using mem_found_reversed h
    · exact mem_found_reversed
  rw [impact_eq, impact_eq, ImpactResult.withoutSources, ImpactResult.withoutSources]
  simp only [hlevels, ← ImpactSummary.ofLevels_withoutSources (groupLevels _)]

theorem traverse_reversed (g : RelationGraph) (o : TraversalOptions) (seeds : List String) :
    (g.reversed.traverse seeds o.turned).map (·.withoutSources) =
      (g.traverse seeds o).map (·.withoutSources) := by
  rw [traverse, traverse, List.map_map, List.map_map]
  exact List.map_congr_left fun seed _ => impact_reversed g o seed

/-! ## Both directions -/

theorem Hop.symm (hboth : o.direction = .both) (h : g.Hop o x y) : g.Hop o y x := by
  cases h with
  | ahead mem kind _ => exact .back mem kind (by simp [hboth])
  | back mem kind _ => exact .ahead mem kind (by simp [hboth])

theorem Path.cons (hop : g.Hop o x y) (h : g.Path o n y z) : g.Path o (n + 1) x z := by
  induction h with
  | nil y => exact .snoc (.nil x) hop
  | snoc _ last ih => exact .snoc (ih hop) last

/-- In both directions a path leads back over the same hops. -/
theorem Path.symm (hboth : o.direction = .both) (h : g.Path o n x y) : g.Path o n y x := by
  induction h with
  | nil x => exact .nil x
  | snoc _ hop ih => exact .cons (hop.symm hboth) ih

theorem IsDistance.symm (hboth : o.direction = .both) (h : g.IsDistance o x y d) :
    g.IsDistance o y x d :=
  ⟨h.1.symm hboth, fun _ hn => h.2 (Path.symm hboth hn)⟩

/-- A traversal from a seed reports an identifier at a level. -/
def ReportsAt (g : RelationGraph) (o : TraversalOptions) (seed x : String) (level : Nat) : Prop :=
  ∃ r ∈ g.traverse [seed] o, ∃ n ∈ r.nodes, n.id = x ∧ n.level = level

/-- A node is reported at a distance iff it is a function other than the seed there, within the
limit. -/
theorem reportsAt_iff : g.ReportsAt o seed x d ↔ (∃ s ∈ g.nodes, s.id = seed) ∧ g.IsFunction x ∧
    x ≠ seed ∧ g.IsDistance o seed x d ∧ o.Admits d := by
  simp only [ReportsAt, traverse, List.map_singleton, List.mem_singleton, exists_eq_left,
    mem_nodes_impact]
  constructor
  · rintro ⟨_, ⟨hseed, m, d, hm, hkind, hne, hdist, hadmits, rfl⟩, rfl, rfl⟩
    exact ⟨hseed, ⟨m, hm, hkind⟩, hne, hdist, hadmits⟩
  · rintro ⟨hseed, ⟨m, hm, hkind⟩, hne, hdist, hadmits⟩
    obtain rfl := id_of_node? hm
    exact ⟨_, ⟨hseed, m, d, hm, hkind, hne, hdist, hadmits, rfl⟩, rfl, rfl⟩

theorem IsFunction.exists_node (h : g.IsFunction x) : ∃ s ∈ g.nodes, s.id = x := by
  obtain ⟨m, hm, -⟩ := h
  exact exists_node?_iff.1 ⟨m, hm⟩

/-- If edges are followed both ways, functions report each other. -/
theorem ReportsAt.symm (hboth : o.direction = .both) (hx : g.IsFunction x)
    (h : g.ReportsAt o x y d) : g.ReportsAt o y x d := by
  obtain ⟨-, hy, hne, hdist, hadmits⟩ := reportsAt_iff.1 h
  exact reportsAt_iff.2 ⟨hy.exists_node, hx, hne.symm, hdist.symm hboth, hadmits⟩

/-- Forward on a graph and backward on its reversal, or in both directions on either, a traversal
gives the same results up to the sources of the reported nodes. In both directions, with or without
a limit, a function is reported from another one at the level at which that one is reported from
it. -/
theorem directions_dual (g : RelationGraph) (seeds : List String) (kinds : Option (List Relation))
    (limit : Option Nat) :
    (g.reversed.traverse seeds ⟨.backward, kinds, limit⟩).map (·.withoutSources) =
        (g.traverse seeds ⟨.forward, kinds, limit⟩).map (·.withoutSources) ∧
      (g.reversed.traverse seeds ⟨.both, kinds, limit⟩).map (·.withoutSources) =
        (g.traverse seeds ⟨.both, kinds, limit⟩).map (·.withoutSources) ∧
      ∀ x y level, g.IsFunction x → g.IsFunction y →
        (g.ReportsAt ⟨.both, kinds, limit⟩ x y level ↔
          g.ReportsAt ⟨.both, kinds, limit⟩ y x level) := by
  refine ⟨g.traverse_reversed ⟨.forward, kinds, limit⟩ seeds,
    g.traverse_reversed ⟨.both, kinds, limit⟩ seeds, fun x y level hx hy => ?_⟩
  exact ⟨ReportsAt.symm rfl hx, ReportsAt.symm rfl hy⟩

/-- The imports from `f` to `y` are walked back from `y`. -/
theorem callbackGraph_reports_both_ways :
    let o : TraversalOptions := ⟨.both, some [.imports], none⟩
    callbackGraph.IsFunction "f" ∧ callbackGraph.IsFunction "y" ∧
      callbackGraph.ReportsAt o "f" "y" 2 ∧ callbackGraph.ReportsAt o "y" "f" 2 := by
  intro o
  have hf : callbackGraph.IsFunction "f" := ⟨_, rfl, rfl⟩
  have hy : callbackGraph.IsFunction "y" := ⟨_, rfl, rfl⟩
  have hdist : callbackGraph.IsDistance o "f" "y" 2 := mem_distances.1 (by decide)
  have hadmits : o.Admits 2 := by simp [TraversalOptions.Admits, o]
  have hreport : callbackGraph.ReportsAt o "f" "y" 2 :=
    reportsAt_iff.2 ⟨hf.exists_node, hy, by decide, hdist, hadmits⟩
  obtain ⟨-, -, hsymm⟩ := directions_dual callbackGraph [] (some [.imports]) none
  exact ⟨hf, hy, hreport, (hsymm "f" "y" 2 hf hy).1 hreport⟩

end RelationGraph

end CodeImpact
