import CodeImpact.Proofs.Coupling
import CodeImpact.Proofs.LevelGroups
import Mathlib.Data.List.Infix

/-!
# Depth limits

The limit cuts the report and not the walk, so a node within the limit is reported as it is without
one. A limited result has the levels of the unlimited result up to the limit, and a summary of
these.
-/

namespace CodeImpact

/-- A result without the levels beyond the last one. -/
def ImpactResult.upTo (last : Nat) (r : ImpactResult) : ImpactResult :=
  let levels := r.levels.filter (·.level ≤ last)
  ⟨r.seed, levels, .ofLevels levels⟩

namespace RelationGraph

variable {g : RelationGraph} {o : TraversalOptions} {seed : String} {last : Nat}
  {limit : Option Nat}

/-- The reports on what was reached, in the order of the walk. -/
def found (g : RelationGraph) (o : TraversalOptions) (seed : String) : List ImpactedNode :=
  match g.node? seed with
  | none => []
  | some _ => (g.distances o seed).filterMap (g.impacted? o seed (g.visited o seed))

/-- The impact is made from the reports that are found, and nothing else. -/
theorem impact_eq (g : RelationGraph) (o : TraversalOptions) (seed : String) :
    g.impact o seed =
      ⟨seed, groupLevels (g.found o seed), .ofLevels (groupLevels (g.found o seed))⟩ := by
  cases hseed : g.node? seed with
  | none =>
    have hempty : groupLevels [] = [] := by rw [groupLevels, List.mergeSort_nil, gatherLevels]
    simp only [impact, found, hseed, hempty]
    rfl
  | some _ => simp only [impact, found, hseed, levels_visited]

theorem mem_found {n : ImpactedNode} : n ∈ g.found o seed ↔ n ∈ (g.impact o seed).nodes := by
  rw [impact_eq]
  exact (groupLevels_perm _).mem_iff.symm

theorem nodup_ids_found (g : RelationGraph) (o : TraversalOptions) (seed : String) :
    ((g.found o seed).map (·.id)).Nodup := by
  have hnodup := nodup_ids_impact g o seed
  rw [impact_eq] at hnodup
  exact ((groupLevels_perm _).map ImpactedNode.id).nodup_iff.1 hnodup

/-- The depth limit does not change the search. -/
theorem Search.run_limit (g : RelationGraph) (o : TraversalOptions) (limit other : Option Nat)
    (s : Search) :
    run g { o with maxDepth := limit } s = run g { o with maxDepth := other } s := by
  fun_induction run g { o with maxDepth := limit } s with
  | case1 visited => rw [run]
  | case2 visited current rest ih =>
    rw [ih]
    conv_rhs => rw [run]
    rfl

/-- No limit changes what is visited. -/
theorem visited_limit (g : RelationGraph) (o : TraversalOptions) (limit other : Option Nat)
    (seed : String) :
    g.visited { o with maxDepth := limit } seed = g.visited { o with maxDepth := other } seed :=
  Search.run_limit g o limit other ⟨[seed], [seed]⟩

/-- A limit drops the reports beyond it and changes no other. -/
theorem impacted?_limit (h : ∀ m ∈ limit, last ≤ m) (entry : String × Nat) :
    g.impacted? { o with maxDepth := some last } seed
        (g.visited { o with maxDepth := some last } seed) entry =
      (g.impacted? { o with maxDepth := limit } seed
        (g.visited { o with maxDepth := limit } seed) entry).filter (·.level ≤ last) := by
  obtain ⟨x, d⟩ := entry
  have hreport : ∀ m, g.reportOn { o with maxDepth := some last } seed m d =
      g.reportOn { o with maxDepth := limit } seed m d := fun m => by
    rw [reportOn, reportOn, visited_limit g o (some last) limit]
  ext n
  rw [Option.filter_eq_some_iff, impacted?_eq_some_iff, impacted?_eq_some_iff]
  constructor
  · rintro ⟨hx, hadmits, m, hm, hkind, rfl⟩
    have hd : d ≤ last := hadmits last rfl
    exact ⟨⟨hx, fun k hk => hd.trans (h k hk), m, hm, hkind, (hreport m).symm⟩,
      decide_eq_true hd⟩
  · rintro ⟨⟨hx, -, m, hm, hkind, rfl⟩, hd⟩
    refine ⟨hx, ?_, m, hm, hkind, hreport m⟩
    rintro k ⟨⟩
    exact of_decide_eq_true hd

theorem found_limit (h : ∀ m ∈ limit, last ≤ m) :
    g.found { o with maxDepth := some last } seed =
      (g.found { o with maxDepth := limit } seed).filter (·.level ≤ last) := by
  -- The rounds are the same under both limits.
  have hwalk : g.distances { o with maxDepth := some last } seed =
      g.distances { o with maxDepth := limit } seed := rfl
  unfold found
  split
  · rfl
  · rw [List.filter_filterMap, ← hwalk]
    exact List.filterMap_congr fun entry _ => impacted?_limit h entry

theorem impact_limit (h : ∀ m ∈ limit, last ≤ m) :
    g.impact { o with maxDepth := some last } seed =
      (g.impact { o with maxDepth := limit } seed).upTo last := by
  rw [impact_eq, impact_eq, ImpactResult.upTo, found_limit h,
    filter_groupLevels (nodup_ids_found _ _ _)]

/-- The levels up to a limit come first. -/
theorem levels_upTo_impact_prefix (g : RelationGraph) (o : TraversalOptions) (seed : String)
    (last : Nat) : ((g.impact o seed).upTo last).levels <+: (g.impact o seed).levels := by
  have hnodup := nodup_ids_found g o seed
  rw [impact_eq, ImpactResult.upTo, filter_groupLevels hnodup, groupLevels_split hnodup last]
  exact List.prefix_append _ _

/-- A limit hides the levels beyond it: the results are those without a limit, cut after the last
level, with the summary of what is left. So the results for a lower limit begin those for a higher
one or none. -/
theorem depth_limit_hides_levels (g : RelationGraph) (o : TraversalOptions) (seeds : List String)
    (last : Nat) :
    g.traverse seeds { o with maxDepth := some last } =
        (g.traverse seeds { o with maxDepth := none }).map (·.upTo last) ∧
      ∀ limit : Option Nat, (∀ m ∈ limit, last ≤ m) →
        List.Forall₂ (fun r s => r.seed = s.seed ∧ r.levels <+: s.levels ∧ r.nodes <+: s.nodes)
          (g.traverse seeds { o with maxDepth := some last })
          (g.traverse seeds { o with maxDepth := limit }) := by
  constructor
  · rw [traverse, traverse, List.map_map]
    exact List.map_congr_left fun seed _ => impact_limit (by simp)
  · intro limit h
    refine forall₂_traverse fun seed _ => ?_
    have hlevels := levels_upTo_impact_prefix g { o with maxDepth := limit } seed last
    rw [← impact_limit h] at hlevels
    exact ⟨by rw [seed_impact, seed_impact], hlevels, hlevels.flatMap _⟩

/-- The function beyond the limit is hidden; the one that it calls is still there. -/
theorem callbackGraph_limits_nested :
    let o : TraversalOptions :=
      { direction := .forward, kinds := some [.imports], maxDepth := some 1 }
    (callbackGraph.impact o "f").levels <+:
        (callbackGraph.impact { o with maxDepth := some 2 } "f").levels ∧
      "x" ∈ (callbackGraph.impact o "f").nodes.map (·.id) ∧
      "y" ∉ (callbackGraph.impact o "f").nodes.map (·.id) ∧
      "y" ∈ (callbackGraph.impact { o with maxDepth := some 2 } "f").nodes.map (·.id) := by
  intro o
  have hseed : ∃ s ∈ callbackGraph.nodes, s.id = "f" := ⟨_, List.mem_cons_self, rfl⟩
  have hlimits : ∀ m ∈ some 2, 1 ≤ m := by
    rintro m ⟨⟩
    decide
  obtain ⟨⟨-, hlevels, -⟩, -⟩ := List.forall₂_cons.1
    ((depth_limit_hides_levels callbackGraph o ["f"] 1).2 (some 2) hlimits)
  refine ⟨hlevels, ids_impact_iff.2 ⟨hseed, by decide, ⟨_, rfl, rfl⟩, 1, ?_, ?_⟩, fun hy => ?_,
    ids_impact_iff.2 ⟨hseed, by decide, ⟨_, rfl, rfl⟩, 2, ?_, ?_⟩⟩
  · exact mem_distances.1 (by decide)
  · rintro last ⟨⟩
    exact Nat.le_refl 1
  · obtain ⟨-, -, -, d, hdist, hadmits⟩ := ids_impact_iff.1 hy
    have hfar : callbackGraph.IsDistance o "f" "y" 2 := mem_distances.1 (by decide)
    have hle := hadmits 1 rfl
    rw [hdist.unique hfar] at hle
    exact absurd hle (by decide)
  · exact mem_distances.1 (by decide)
  · rintro last ⟨⟩
    exact Nat.le_refl 2

end RelationGraph

end CodeImpact
