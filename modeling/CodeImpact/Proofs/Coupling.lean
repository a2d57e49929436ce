import CodeImpact.Proofs.Report

/-!
# Coupling to what was reached

The severity of a reported function is that of the strongest edge between it and what the walk
reached. All edges count here, also those of kinds that the walk does not follow, and all that was
reached, also beyond the depth limit.
-/

namespace CodeImpact

namespace Severity

/-- The highest severity over edges has a rank if the first one or that of an edge has it. -/
theorem le_rank_foldl {edges : List GraphEdge} {s : Severity} {rank : Nat} :
    rank ≤ (edges.foldl (fun s e => s.max (.ofRelation e.kind)) s).rank ↔
      rank ≤ s.rank ∨ ∃ e ∈ edges, rank ≤ (ofRelation e.kind).rank := by
  induction edges generalizing s with
  | nil => simp
  | cons e edges ih =>
    rw [List.foldl_cons, ih, rank_max, le_max_iff, List.exists_mem_cons_iff, or_assoc]

theorem eq_high_iff {s : Severity} : s = .high ↔ 2 ≤ s.rank := by
  cases s <;> decide

theorem eq_medium_iff {s : Severity} : s = .medium ↔ ¬ 2 ≤ s.rank ∧ 1 ≤ s.rank := by
  cases s <;> decide

theorem eq_low_iff {s : Severity} : s = .low ↔ ¬ 1 ≤ s.rank := by
  cases s <;> decide

theorem two_le_rank_ofRelation {kind : Relation} :
    2 ≤ (ofRelation kind).rank ↔ kind ∈ [Relation.calls, .callsImplementation] := by
  cases kind <;> decide

/-- Calls and inheritance are rated above low. -/
theorem one_le_rank_ofRelation {kind : Relation} :
    1 ≤ (ofRelation kind).rank ↔ kind ∈ [Relation.calls, .callsImplementation] ∨
      kind ∈ [Relation.implements, .extendsType, .implementedBy] := by
  cases kind <;> decide

end Severity

/-- The edge joins an identifier, at either end, to a member of a set. -/
def GraphEdge.Couples (e : GraphEdge) (x : String) (reached : Set String) : Prop :=
  (e.source = x ∧ e.target ∈ reached) ∨ (e.target = x ∧ e.source ∈ reached)

theorem GraphEdge.Couples.mono {e : GraphEdge} {x : String} {reached more : Set String}
    (h : e.Couples x reached) (hsub : reached ⊆ more) : e.Couples x more :=
  h.imp (And.imp_right fun hmem => hsub hmem) (And.imp_right fun hmem => hsub hmem)

namespace RelationGraph

variable {g : RelationGraph} {o : TraversalOptions} {seed x : String}

/-- An edge of one of these kinds joins an identifier to a member of a set. -/
def CoupledBy (g : RelationGraph) (kinds : List Relation) (x : String) (reached : Set String) :
    Prop :=
  ∃ e ∈ g.edges, e.kind ∈ kinds ∧ e.Couples x reached

/-- The severity of an identifier has a rank above the lowest exactly if an edge that joins it to
what was reached has it. -/
theorem le_rank_severity {rank : Nat} (hrank : 0 < rank) :
    rank ≤ (g.severity (g.visited o seed) x).rank ↔
      ∃ e ∈ g.edges, rank ≤ (Severity.ofRelation e.kind).rank ∧
        e.Couples x (g.reachable o seed) := by
  have hlow : ¬ rank ≤ Severity.low.rank := Nat.not_le.2 hrank
  simp only [severity, Severity.le_rank_foldl, hlow, false_or, List.mem_filter, Bool.or_eq_true,
    Bool.and_eq_true, decide_eq_true_eq, List.contains_iff_mem, mem_visited, GraphEdge.Couples, and_assoc,
    and_comm (a := rank ≤ _)]

/-- A node is rated high iff a call joins it to what is reached. -/
theorem two_le_rank_severity : 2 ≤ (g.severity (g.visited o seed) x).rank ↔
    g.CoupledBy [.calls, .callsImplementation] x (g.reachable o seed) := by
  simp only [le_rank_severity Nat.two_pos, Severity.two_le_rank_ofRelation, CoupledBy]

/-- A node is rated above low iff a call or inheritance joins it to what is reached. -/
theorem one_le_rank_severity : 1 ≤ (g.severity (g.visited o seed) x).rank ↔
    g.CoupledBy [.calls, .callsImplementation] x (g.reachable o seed) ∨
      g.CoupledBy [.implements, .extendsType, .implementedBy] x (g.reachable o seed) := by
  simp only [le_rank_severity Nat.one_pos, Severity.one_le_rank_ofRelation, CoupledBy,
    or_and_right, and_or_left, exists_or]

theorem mem_sources {kind : Relation} {s : String} :
    s ∈ g.sources kind x ↔ ∃ e ∈ g.edges, e.kind = kind ∧ e.source = s ∧ e.target = x := by
  simp only [sources, mem_sortedSet, List.mem_map, List.mem_filter, Bool.and_eq_true,
    decide_eq_true_eq]
  constructor
  · rintro ⟨e, ⟨he, hkind, htarget⟩, hsource⟩
    exact ⟨e, he, hkind, hsource, htarget⟩
  · rintro ⟨e, he, hkind, hsource, htarget⟩
    exact ⟨e, ⟨he, hkind, htarget⟩, hsource⟩

/-- A reported function is rated by the edges of any kind between it and what the walk from the seed
reached at any distance. Its sources are those of the call and import edges into it, in order. -/
theorem traverse_rates_by_coupling (g : RelationGraph) (o : TraversalOptions)
    (seeds : List String) :
    ∀ r ∈ g.traverse seeds o, ∀ n ∈ r.nodes,
      (n.severity = .high ↔
        g.CoupledBy [.calls, .callsImplementation] n.id (g.reachable o r.seed)) ∧
      (n.severity = .medium ↔
        ¬ g.CoupledBy [.calls, .callsImplementation] n.id (g.reachable o r.seed) ∧
          g.CoupledBy [.implements, .extendsType, .implementedBy] n.id (g.reachable o r.seed)) ∧
      (n.severity = .low ↔
        ¬ g.CoupledBy [.calls, .callsImplementation] n.id (g.reachable o r.seed) ∧
          ¬ g.CoupledBy [.implements, .extendsType, .implementedBy] n.id
            (g.reachable o r.seed)) ∧
      n.Sorted ∧
      (∀ s, s ∈ n.calledBy ↔
        ∃ e ∈ g.edges, e.kind = .calls ∧ e.source = s ∧ e.target = n.id) ∧
      ∀ s, s ∈ n.importedBy ↔
        ∃ e ∈ g.edges, e.kind = .imports ∧ e.source = s ∧ e.target = n.id := by
  intro r hr n hn
  obtain ⟨seed, -, rfl⟩ := List.mem_map.1 hr
  obtain ⟨-, m, d, -, -, -, -, -, rfl⟩ := mem_nodes_impact.1 hn
  rw [seed_impact]
  refine ⟨?_, ?_, ?_, ⟨pairwise_sortedSet _, pairwise_sortedSet _⟩, fun s => mem_sources,
    fun s => mem_sources⟩
  · rw [Severity.eq_high_iff]
    exact two_le_rank_severity
  · rw [Severity.eq_medium_iff]
    refine (and_congr (not_congr two_le_rank_severity) one_le_rank_severity).trans ?_
    exact and_congr_right fun hcalls => or_iff_right hcalls
  · rw [Severity.eq_low_iff]
    exact (not_congr one_le_rank_severity).trans not_or

/-- Imports lead from `f` to `x` and on to `y`, which calls `x`. -/
def callbackGraph : RelationGraph where
  nodes := [⟨"f", "f", .function, "a", "/a", none⟩, ⟨"x", "x", .function, "a", "/a", none⟩,
    ⟨"y", "y", .function, "a", "/a", none⟩]
  edges := [⟨"f", "x", .imports, "/a", "/a"⟩, ⟨"x", "y", .imports, "/a", "/a"⟩,
    ⟨"y", "x", .calls, "/a", "/a"⟩]

/-- The call that rates `x` is of no followed kind and comes from beyond the limit. -/
theorem callbackGraph_rated_by_call :
    let o : TraversalOptions :=
      { direction := .forward, kinds := some [.imports], maxDepth := some 1 }
    ∃ r ∈ callbackGraph.traverse ["f"] o, ∃ n ∈ r.nodes,
      n.id = "x" ∧ n.severity = .high ∧ "y" ∈ n.calledBy := by
  intro o
  have hnear : ("x", 1) ∈ callbackGraph.distances o "f" := by decide
  have hbeyond : ("y", 2) ∈ callbackGraph.distances o "f" := by decide
  have hadmits : o.Admits 1 := by
    rintro last ⟨⟩
    exact Nat.le_refl 1
  have hreported : "x" ∈ (callbackGraph.impact o "f").nodes.map (·.id) :=
    ids_impact_iff.2 ⟨⟨_, List.mem_cons_self, rfl⟩, by decide, ⟨_, rfl, rfl⟩, 1,
      mem_distances.1 hnear, hadmits⟩
  obtain ⟨n, hn, hid⟩ := List.mem_map.1 hreported
  obtain ⟨hhigh, -, -, -, hcalledBy, -⟩ := traverse_rates_by_coupling callbackGraph o ["f"]
    (callbackGraph.impact o "f") (List.mem_singleton_self _) n hn
  rw [seed_impact, hid] at hhigh
  rw [hid] at hcalledBy
  let call : GraphEdge := ⟨"y", "x", .calls, "/a", "/a"⟩
  have hcall : call ∈ callbackGraph.edges := by decide
  exact ⟨_, List.mem_singleton_self _, n, hn, hid,
    hhigh.2 ⟨call, hcall, by decide, .inr ⟨rfl, 2, (mem_distances.1 hbeyond).1⟩⟩,
    (hcalledBy "y").2 ⟨call, hcall, rfl, rfl, rfl⟩⟩

end RelationGraph

end CodeImpact
