import CodeImpact.Proofs.Searches
import Mathlib.Data.List.Forall2
import Mathlib.Data.List.Sort

/-!
# What a traversal reports

The functions that followed edges lead to, each once and at its distance. Identifiers of other
kinds, or of no node at all, are walked through and never reported.
-/

namespace CodeImpact

/-- The limit does not cut this level. -/
def TraversalOptions.Admits (o : TraversalOptions) (level : Nat) : Prop :=
  ∀ last, o.maxDepth = some last → level ≤ last

/-! ## Groups of one level -/

@[simp] theorem nodes_gatherLevels (nodes : List ImpactedNode) :
    (gatherLevels nodes).flatMap (·.nodes) = nodes := by
  fun_induction gatherLevels nodes with
  | case1 => rfl
  | case2 n rest g groups hrest _ ih =>
    rw [hrest, List.flatMap_cons] at ih
    rw [List.flatMap_cons, List.cons_append, ih]
  | case3 n rest g groups hrest _ ih =>
    rw [hrest] at ih
    rw [List.flatMap_cons, ih, List.singleton_append]
  | case4 n rest hrest ih =>
    rw [hrest] at ih
    rw [← ih]
    rfl

theorem level_of_mem_gatherLevels (nodes : List ImpactedNode) :
    ∀ l ∈ gatherLevels nodes, ∀ n ∈ l.nodes, n.level = l.level := by
  fun_induction gatherLevels nodes with
  | case1 => simp
  | case2 m rest g groups hrest hlevel ih =>
    rw [hrest] at ih
    intro l hl n hn
    rcases List.mem_cons.1 hl with rfl | hl
    · rcases List.mem_cons.1 hn with rfl | hn
      · rfl
      · exact (ih g List.mem_cons_self n hn).trans hlevel
    · exact ih l (List.mem_cons_of_mem g hl) n hn
  | case3 m rest g groups hrest _ ih =>
    intro l hl n hn
    rcases List.mem_cons.1 hl with rfl | hl
    · rw [List.mem_singleton.1 hn]
    · exact ih l (hrest ▸ hl) n hn
  | case4 m rest hrest ih =>
    intro l hl n hn
    obtain rfl := List.mem_singleton.1 hl
    rw [List.mem_singleton.1 hn]

theorem groupLevels_perm (nodes : List ImpactedNode) :
    ((groupLevels nodes).flatMap (·.nodes)).Perm nodes := by
  rw [groupLevels, nodes_gatherLevels]
  exact List.mergeSort_perm nodes _

theorem TraversalOptions.any_maxDepth_eq_false_iff {o : TraversalOptions} {d : Nat} :
    o.maxDepth.any (· < d) = false ↔ o.Admits d := by
  cases h : o.maxDepth <;> simp [Admits, h]

namespace RelationGraph

variable {g : RelationGraph} {o : TraversalOptions} {seed x : String}

/-! ## Nodes by identifier -/

theorem id_of_node? {n : GraphNode} (h : g.node? x = some n) : n.id = x := by
  simpa using List.find?_some h

theorem exists_node?_iff : (∃ n, g.node? x = some n) ↔ ∃ n ∈ g.nodes, n.id = x := by
  rw [← Option.isSome_iff_exists, node?, List.find?_isSome]
  simp

/-- The node that counts for an identifier is a function. -/
def IsFunction (g : RelationGraph) (x : String) : Prop :=
  ∃ n, g.node? x = some n ∧ n.kind = .function

/-! ## The impact of one seed -/

/-- The report on a function at a distance from a seed. -/
def reportOn (g : RelationGraph) (o : TraversalOptions) (seed : String) (m : GraphNode) (d : Nat) :
    ImpactedNode where
  id := m.id
  name := m.name
  kind := m.kind
  severity := g.severity (g.visited o seed) m.id
  level := d
  filePath := m.filePath
  calledBy := g.sources .calls m.id
  importedBy := g.sources .imports m.id

/-- A visited identifier is reported iff it is a function other than the seed at an admitted
distance. -/
theorem impacted?_eq_some_iff {d : Nat} {n : ImpactedNode} :
    g.impacted? o seed (g.visited o seed) (x, d) = some n ↔
      x ≠ seed ∧ o.Admits d ∧
        ∃ m, g.node? x = some m ∧ m.kind = .function ∧ g.reportOn o seed m d = n := by
  rw [← TraversalOptions.any_maxDepth_eq_false_iff]
  unfold impacted?
  by_cases hx : x = seed
  · simp [hx]
  · cases hany : o.maxDepth.any (· < d) with
    | true => simp [hany]
    | false =>
      cases hnode : g.node? x with
      | none => simp [hnode]
      | some m =>
        obtain rfl := id_of_node? hnode
        by_cases hkind : m.kind = .function <;> simp [hx, hany, hnode, hkind, reportOn]

theorem nodes_impact_of_none (h : g.node? seed = none) : (g.impact o seed).nodes = [] := by
  simp [impact, h, ImpactResult.nodes]

/-- The reports are those on the visited identifiers. -/
theorem nodes_impact_perm {s : GraphNode} (h : g.node? seed = some s) :
    (g.impact o seed).nodes.Perm
      ((g.distances o seed).filterMap (g.impacted? o seed (g.visited o seed))) := by
  rw [impact, h, ← levels_visited]
  exact groupLevels_perm _

@[simp] theorem seed_impact (g : RelationGraph) (o : TraversalOptions) (seed : String) :
    (g.impact o seed).seed = seed := by
  unfold impact
  split <;> rfl

theorem seeds_traverse (g : RelationGraph) (o : TraversalOptions) (seeds : List String) :
    (g.traverse seeds o).map (·.seed) = seeds := by
  rw [traverse, List.map_map]
  exact List.map_id'' (seed_impact g o) seeds

/-- Two traversals from the same seeds are compared seed by seed. -/
theorem forall₂_traverse {g' : RelationGraph} {o' : TraversalOptions}
    {R : ImpactResult → ImpactResult → Prop} {seeds : List String}
    (h : ∀ seed ∈ seeds, R (g.impact o seed) (g'.impact o' seed)) :
    List.Forall₂ R (g.traverse seeds o) (g'.traverse seeds o') := by
  rw [traverse, traverse, List.forall₂_map_left_iff, List.forall₂_map_right_iff, List.forall₂_same]
  exact h

/-- Membership in the report: the seed is a node, and the report is on a function at an admitted
distance from it. -/
theorem mem_nodes_impact {n : ImpactedNode} : n ∈ (g.impact o seed).nodes ↔
    (∃ s ∈ g.nodes, s.id = seed) ∧ ∃ m d, g.node? m.id = some m ∧ m.kind = .function ∧
      m.id ≠ seed ∧ g.IsDistance o seed m.id d ∧ o.Admits d ∧ g.reportOn o seed m d = n := by
  rw [← exists_node?_iff]
  cases hseed : g.node? seed with
  | none => simp [nodes_impact_of_none hseed]
  | some s =>
    rw [(nodes_impact_perm hseed).mem_iff, List.mem_filterMap]
    constructor
    · rintro ⟨⟨x, d⟩, hmem, hn⟩
      obtain ⟨hx, hd, m, hm, hkind, rfl⟩ := impacted?_eq_some_iff.1 hn
      obtain rfl := id_of_node? hm
      exact ⟨⟨s, rfl⟩, m, d, hm, hkind, hx, mem_distances.1 hmem, hd, rfl⟩
    · rintro ⟨-, m, d, hm, hkind, hx, hdist, hd, rfl⟩
      exact ⟨(m.id, d), mem_distances.2 hdist,
        impacted?_eq_some_iff.2 ⟨hx, hd, m, hm, hkind, rfl⟩⟩

/-- No identifier is reported twice. -/
theorem nodup_ids_impact (g : RelationGraph) (o : TraversalOptions) (seed : String) :
    ((g.impact o seed).nodes.map (·.id)).Nodup := by
  cases hseed : g.node? seed with
  | none => simp [nodes_impact_of_none hseed]
  | some s =>
    rw [((nodes_impact_perm hseed).map (·.id)).nodup_iff]
    -- Reports keep the identifier they are made for, and those are distinct.
    refine List.pairwise_map.2 (List.Pairwise.filterMap _ ?_
      (List.pairwise_map.1 (nodup_distances g o seed)))
    rintro ⟨x, d⟩ ⟨y, e⟩ hne n hn m hm
    obtain ⟨-, -, a, ha, -, rfl⟩ := impacted?_eq_some_iff.1 hn
    obtain ⟨-, -, b, hb, -, rfl⟩ := impacted?_eq_some_iff.1 hm
    rw [← id_of_node? ha, ← id_of_node? hb] at hne
    exact hne

/-- Which identifiers are reported on. -/
theorem ids_impact_iff : x ∈ (g.impact o seed).nodes.map (·.id) ↔
    (∃ s ∈ g.nodes, s.id = seed) ∧ x ≠ seed ∧ g.IsFunction x ∧
      ∃ d, g.IsDistance o seed x d ∧ o.Admits d := by
  simp only [List.mem_map, mem_nodes_impact]
  constructor
  · rintro ⟨_, ⟨hseed, m, d, hm, hkind, hx, hdist, hd, rfl⟩, rfl⟩
    exact ⟨hseed, hx, ⟨m, hm, hkind⟩, d, hdist, hd⟩
  · rintro ⟨hseed, hx, ⟨m, hm, hkind⟩, d, hdist, hd⟩
    obtain rfl := id_of_node? hm
    exact ⟨_, ⟨hseed, m, d, hm, hkind, hx, hdist, hd, rfl⟩, rfl⟩

theorem level_of_mem_impact {l : ImpactLevel} (hl : l ∈ (g.impact o seed).levels)
    {n : ImpactedNode} (hn : n ∈ l.nodes) : n.level = l.level := by
  unfold impact at hl
  split at hl
  · cases hl
  · exact level_of_mem_gatherLevels _ l hl n hn

theorem distance_of_mem_impact {n : ImpactedNode} (h : n ∈ (g.impact o seed).nodes) :
    g.IsDistance o seed n.id n.level := by
  obtain ⟨-, m, d, -, -, -, hdist, -, rfl⟩ := mem_nodes_impact.1 h
  exact hdist

theorem admits_of_mem_impact {n : ImpactedNode} (h : n ∈ (g.impact o seed).nodes) :
    o.Admits n.level := by
  obtain ⟨-, m, d, -, -, -, -, hd, rfl⟩ := mem_nodes_impact.1 h
  exact hd

/-- From a seed that is a node, a traversal reports exactly the other functions that a path of
followed edges leads to within the limit, each once and at the length of the shortest path. -/
theorem traverse_reports_functions_at_distance (g : RelationGraph) (o : TraversalOptions)
    (seeds : List String) :
    (g.traverse seeds o).map (·.seed) = seeds ∧
      ∀ r ∈ g.traverse seeds o, (∃ s ∈ g.nodes, s.id = r.seed) →
        (∀ x, (r.nodes.map (·.id)).count x = 1 ↔
          x ≠ r.seed ∧ g.IsFunction x ∧ ∃ d, g.IsDistance o r.seed x d ∧ o.Admits d) ∧
        (r.nodes.map (·.id)).Nodup ∧
        ∀ l ∈ r.levels, ∀ n ∈ l.nodes, n.level = l.level ∧ g.IsDistance o r.seed n.id n.level := by
  refine ⟨seeds_traverse g o seeds, fun r hr hnode => ?_⟩
  obtain ⟨seed, -, rfl⟩ := List.mem_map.1 hr
  rw [seed_impact] at hnode ⊢
  have hnodup := nodup_ids_impact g o seed
  refine ⟨fun x => ?_, hnodup, fun l hl n hn => ⟨level_of_mem_impact hl hn, ?_⟩⟩
  · refine Iff.trans ?_ (ids_impact_iff.trans (and_iff_right hnode))
    constructor
    · intro hcount
      exact List.count_pos_iff.1 (by omega)
    · exact List.count_eq_one_of_mem hnodup
  · exact distance_of_mem_impact (List.mem_flatMap.2 ⟨l, hl, hn⟩)

/-- Two functions that reach each other through an identifier of no node; the second identifier is
repeated, and one edge is a loop. -/
def relayGraph : RelationGraph where
  nodes := [⟨"f", "f", .function, "a", "/a", none⟩, ⟨"g", "g", .file, "a", "/a", none⟩,
    ⟨"g", "g", .function, "a", "/a", none⟩]
  edges := [⟨"f", "f", .calls, "/a", "/a"⟩, ⟨"f", "relay", .calls, "/a", "/a"⟩,
    ⟨"relay", "g", .imports, "/a", "/a"⟩, ⟨"g", "f", .calls, "/a", "/a"⟩]

theorem relayGraph_reports_second_function :
    (((relayGraph.impact { direction := .forward, maxDepth := some 2 } "f").nodes.map (·.id)).count
      "g" = 1) := by
  have h := (traverse_reports_functions_at_distance relayGraph
    { direction := .forward, maxDepth := some 2 } ["f"]).2 _ (List.mem_singleton_self _)
    ⟨_, List.mem_cons_self, rfl⟩
  refine (h.1 "g").2 ⟨by decide, ⟨_, rfl, rfl⟩, 2, mem_distances.1 (by decide), ?_⟩
  rintro last ⟨⟩
  exact Nat.le_refl 2

end RelationGraph

end CodeImpact
