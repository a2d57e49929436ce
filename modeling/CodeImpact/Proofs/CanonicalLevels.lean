import CodeImpact.Proofs.DepthLimit

/-!
# One grouping for each set of reports

Sorted reports are grouped in one pass that looks at the last group only. Reports on distinct
identifiers have one grouping: whatever order they come in, no other list of groups holds the same
reports in order. What a walk reaches may thus be listed in any order before it is reported.
-/

namespace CodeImpact

/-! ## One pass -/

/-- Adds a report to the last group if it has the same level, and else as a group of its own. -/
def addToLast (levels : List ImpactLevel) (n : ImpactedNode) : List ImpactLevel :=
  match levels with
  | [] => [⟨n.level, [n]⟩]
  | [l] => if l.level = n.level then [⟨l.level, l.nodes ++ [n]⟩] else [l, ⟨n.level, [n]⟩]
  | l :: next :: rest => l :: addToLast (next :: rest) n

/-- The last report joins the last group or follows it. -/
theorem gatherLevels_concat (ms : List ImpactedNode) (n : ImpactedNode) :
    gatherLevels (ms ++ [n]) = addToLast (gatherLevels ms) n := by
  induction ms with
  | nil => rfl
  | cons m ms ih =>
    rw [List.cons_append, gatherLevels, gatherLevels, ih]
    cases gatherLevels ms with
    | nil => by_cases h : n.level = m.level <;> simp [addToLast, h, eq_comm]
    | cons g groups =>
      cases groups with
      | nil =>
        by_cases hlast : g.level = n.level <;> by_cases hfirst : g.level = m.level <;>
          simp_all [addToLast]
      | cons next rest => by_cases hfirst : g.level = m.level <;> simp [addToLast, hfirst]

/-- The pass goes on from the groups of what it has seen. -/
theorem foldl_addToLast (ms ns : List ImpactedNode) :
    ns.foldl addToLast (gatherLevels ms) = gatherLevels (ms ++ ns) := by
  induction ns generalizing ms with
  | nil => simp
  | cons n ns ih => rw [List.foldl_cons, ← gatherLevels_concat, ih, List.append_assoc,
    List.singleton_append]

/-- The groups are formed by one pass over the sorted reports. -/
theorem groupLevels_eq_foldl (nodes : List ImpactedNode) :
    groupLevels nodes = (nodes.mergeSort ImpactedNode.notAfter).foldl addToLast [] := by
  rw [groupLevels, ← List.nil_append (nodes.mergeSort _), ← foldl_addToLast]
  rfl

/-! ## The only grouping -/

/-- Reports of one level are one group. -/
theorem gatherLevels_of_level {nodes : List ImpactedNode} {level : Nat} (hne : nodes ≠ [])
    (h : ∀ n ∈ nodes, n.level = level) : gatherLevels nodes = [⟨level, nodes⟩] := by
  induction nodes with
  | nil => exact absurd rfl hne
  | cons n rest ih =>
    have hn := h n List.mem_cons_self
    cases rest with
    | nil => simp [gatherLevels, hn]
    | cons m rest =>
      have hrest := ih (List.cons_ne_nil m rest) fun k hk => h k (List.mem_cons_of_mem n hk)
      rw [gatherLevels, hrest]
      simp [hn]

namespace Grouped

variable {l : ImpactLevel} {levels : List ImpactLevel}

theorem tail (h : Grouped (l :: levels)) : Grouped levels where
  increasing := (List.pairwise_cons.1 h.increasing).2
  nonempty k hk := h.nonempty k (List.mem_cons_of_mem l hk)
  level_eq k hk := h.level_eq k (List.mem_cons_of_mem l hk)
  ids_increasing k hk := h.ids_increasing k (List.mem_cons_of_mem l hk)

/-- Groups are found again in the list of their reports. -/
theorem gatherLevels_nodes (h : Grouped levels) :
    gatherLevels (levels.flatMap (·.nodes)) = levels := by
  induction levels with
  | nil => rfl
  | cons l levels ih =>
    have hfirst : gatherLevels l.nodes = [l] :=
      gatherLevels_of_level (h.nonempty l List.mem_cons_self) (h.level_eq l List.mem_cons_self)
    rw [List.flatMap_cons, gatherLevels_append, hfirst, ih h.tail, List.singleton_append]
    -- the reports of the first group have its level, and all others a greater one
    intro m hm n hn heq
    obtain ⟨k, hk, hn⟩ := List.mem_flatMap.1 hn
    have hlt := (List.pairwise_cons.1 h.increasing).1 k hk
    have hm := h.level_eq l List.mem_cons_self m hm
    have hn := h.level_eq k (List.mem_cons_of_mem l hk) n hn
    omega

theorem pairwise_nodes (h : Grouped levels) :
    (levels.flatMap (·.nodes)).Pairwise ImpactedNode.Before := by
  refine List.pairwise_flatMap.2 ⟨fun l hl => ?_, ?_⟩
  · refine (h.ids_increasing l hl).imp_of_mem fun {a b} ha hb hlt => ?_
    have hlevel : a.level = b.level := (h.level_eq l hl a ha).trans (h.level_eq l hl b hb).symm
    exact Prod.Lex.toLex_lt_toLex.2 (.inr ⟨hlevel, hlt⟩)
  · refine h.increasing.imp_of_mem fun {l k} hl hk hlt a ha b hb => ?_
    rw [← h.level_eq l hl a ha, ← h.level_eq k hk b hb] at hlt
    exact Prod.Lex.toLex_lt_toLex.2 (.inl hlt)

/-- No other groups hold the same reports in order. -/
theorem eq_groupLevels {nodes : List ImpactedNode} (hdistinct : (nodes.map (·.id)).Nodup)
    (h : Grouped levels) (hperm : (levels.flatMap (·.nodes)).Perm nodes) :
    levels = groupLevels nodes := by
  have hsorted : levels.flatMap (·.nodes) = nodes.mergeSort ImpactedNode.notAfter := by
    refine h.pairwise_nodes.eq_of_mem_iff (ImpactedNode.pairwise_mergeSort hdistinct) fun n => ?_
    rw [List.mem_mergeSort, hperm.mem_iff]
  rw [groupLevels, ← hsorted, h.gatherLevels_nodes]

end Grouped

/-! ## Walks listed in any order -/

namespace RelationGraph

variable {g : RelationGraph} {o : TraversalOptions} {seed : String}
  {reached entries : List (String × Nat)}

/-- The list has what can be reached from the seed, each identifier with its distance and once, in
any order. -/
structure Lists (g : RelationGraph) (o : TraversalOptions) (seed : String)
    (entries : List (String × Nat)) : Prop where
  nodup : entries.Nodup
  mem_iff : ∀ x d, (x, d) ∈ entries ↔ g.IsDistance o seed x d

/-- The reports on the entries of one list, rated by what another list has. -/
def foundAmong (g : RelationGraph) (o : TraversalOptions) (seed : String)
    (reached entries : List (String × Nat)) : List ImpactedNode :=
  if (g.node? seed).isSome then
    entries.filterMap (g.impacted? o seed (reached.map (·.1)))
  else []

/-- The impact of a seed as reported from two lists of what it reaches. -/
def impactAmong (g : RelationGraph) (o : TraversalOptions) (seed : String)
    (reached entries : List (String × Nat)) : ImpactResult :=
  let levels := groupLevels (g.foundAmong o seed reached entries)
  ⟨seed, levels, .ofLevels levels⟩

theorem lists_iff : g.Lists o seed entries ↔ entries.Perm (g.distances o seed) := by
  have hdistances := (nodup_distances g o seed).of_map
  constructor
  · intro h
    refine (List.perm_ext_iff_of_nodup h.nodup hdistances).2 ?_
    rintro ⟨x, d⟩
    rw [h.mem_iff, mem_distances]
  · intro h
    exact ⟨h.nodup_iff.2 hdistances, fun x d => h.mem_iff.trans mem_distances⟩

theorem Lists.mem_keys_iff (h : g.Lists o seed reached) (x : String) :
    x ∈ reached.map (·.1) ↔ x ∈ g.visited o seed := by
  rw [mem_visited, List.mem_map]
  constructor
  · rintro ⟨⟨y, d⟩, hmem, rfl⟩
    exact ⟨d, ((h.mem_iff y d).1 hmem).1⟩
  · rintro ⟨n, hpath⟩
    obtain ⟨d, -, hdist⟩ := hpath.exists_distance
    exact ⟨(x, d), (h.mem_iff x d).2 hdist, rfl⟩

/-- Reports depend only on which identifiers were visited. -/
theorem impacted?_congr {visited other : List String} (h : ∀ x, x ∈ visited ↔ x ∈ other) :
    g.impacted? o seed visited = g.impacted? o seed other := by
  have hcontains : ∀ x, visited.contains x = other.contains x := fun x => by
    rw [Bool.eq_iff_iff, List.contains_iff_mem, List.contains_iff_mem, h]
  funext entry
  simp only [impacted?, severity, hcontains]

/-- The order of the lists does not change what is found. -/
theorem foundAmong_perm (hreached : g.Lists o seed reached) (hentries : g.Lists o seed entries) :
    (g.foundAmong o seed reached entries).Perm (g.found o seed) := by
  unfold foundAmong found
  cases g.node? seed with
  | none => exact .refl _
  | some s =>
    rw [impacted?_congr hreached.mem_keys_iff]
    exact (lists_iff.1 hentries).filterMap _

/-- The order of the lists does not change the impact. -/
theorem impactAmong_eq (hreached : g.Lists o seed reached) (hentries : g.Lists o seed entries) :
    g.impactAmong o seed reached entries = g.impact o seed := by
  have hperm := foundAmong_perm hreached hentries
  have hdistinct := nodup_ids_found g o seed
  rw [impact_eq, impactAmong,
    groupLevels_congr ((hperm.map _).nodup_iff.2 hdistinct) hdistinct fun n => hperm.mem_iff]

end RelationGraph

/-- Reports on distinct identifiers have one grouping. It is made in one pass over the sorted
reports, holds each of them, in strict order, in a group of its level, and is the same for every
order in which they come. So a traversal gives the same results in whatever order what it reaches is
listed. -/
theorem grouping_ignores_order :
    (∀ nodes : List ImpactedNode, (nodes.map (·.id)).Nodup →
      groupLevels nodes = (nodes.mergeSort ImpactedNode.notAfter).foldl addToLast [] ∧
      (∀ other : List ImpactedNode, other.Perm nodes → groupLevels other = groupLevels nodes) ∧
      ((groupLevels nodes).flatMap (·.nodes)).Perm nodes ∧
      ((groupLevels nodes).flatMap (·.nodes)).Pairwise ImpactedNode.Before ∧
      Grouped (groupLevels nodes) ∧
      ∀ levels : List ImpactLevel, Grouped levels → (levels.flatMap (·.nodes)).Perm nodes →
        levels = groupLevels nodes) ∧
    ∀ (g : RelationGraph) (o : TraversalOptions) (seeds : List String)
      (reached entries : String → List (String × Nat)),
      (∀ seed ∈ seeds, g.Lists o seed (reached seed) ∧ g.Lists o seed (entries seed)) →
      g.traverse seeds o =
        seeds.map fun seed => g.impactAmong o seed (reached seed) (entries seed) := by
  constructor
  · intro nodes hdistinct
    have hgrouped := grouped_groupLevels hdistinct
    refine ⟨groupLevels_eq_foldl nodes, ?_, groupLevels_perm nodes, hgrouped.pairwise_nodes,
      hgrouped, fun levels h hperm => h.eq_groupLevels hdistinct hperm⟩
    intro other hperm
    exact groupLevels_congr ((hperm.map _).nodup_iff.2 hdistinct) hdistinct fun n => hperm.mem_iff
  · intro g o seeds reached entries h
    refine List.map_congr_left fun seed hseed => ?_
    obtain ⟨hreached, hentries⟩ := h seed hseed
    exact (RelationGraph.impactAmong_eq hreached hentries).symm

/-- A report with a level and nothing else of note. -/
def reportAt (level : Nat) (id : String) : ImpactedNode :=
  ⟨id, id, .function, .low, level, "/a", [], []⟩

/-- Reports out of order, and a walk that is listed from its end. -/
theorem scattered_reports_grouped :
    let nodes := [reportAt 2 "b", reportAt 1 "c", reportAt 2 "a"]
    let levels : List ImpactLevel :=
      [⟨1, [reportAt 1 "c"]⟩, ⟨2, [reportAt 2 "a", reportAt 2 "b"]⟩]
    let o : TraversalOptions := { direction := .forward, kinds := some [.imports] }
    groupLevels nodes = levels ∧ groupLevels nodes.reverse = levels ∧
      RelationGraph.callbackGraph.traverse ["f"] o =
        [RelationGraph.callbackGraph.impactAmong o "f" [("x", 1), ("f", 0), ("y", 2)]
          [("y", 2), ("x", 1), ("f", 0)]] := by
  intro nodes levels o
  obtain ⟨-, hsame, -, -, -, honly⟩ := grouping_ignores_order.1 nodes (by decide)
  have hgrouped : Grouped levels := ⟨by decide, by decide, by decide, by decide⟩
  have hlevels := honly levels hgrouped (by decide)
  refine ⟨hlevels.symm, (hsame _ nodes.reverse_perm).trans hlevels.symm, ?_⟩
  refine grouping_ignores_order.2 RelationGraph.callbackGraph o ["f"]
    (fun _ => [("x", 1), ("f", 0), ("y", 2)]) (fun _ => [("y", 2), ("x", 1), ("f", 0)]) ?_
  intro seed hseed
  obtain rfl := List.mem_singleton.1 hseed
  exact ⟨RelationGraph.lists_iff.2 (by decide), RelationGraph.lists_iff.2 (by decide)⟩

end CodeImpact
