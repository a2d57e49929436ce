import CodeImpact.Proofs.Coupling

/-!
# Wider traversals

A traversal that follows more kinds, or both directions in place of one, keeps every path of the
narrower one. So it reaches no less, its distances are no longer, and what it couples a function to
is no less either.
-/

namespace CodeImpact

/-- The kinds that are followed; these are all if none are chosen. -/
def TraversalOptions.followed (o : TraversalOptions) : Set Relation :=
  {kind | ∀ kinds, o.kinds = some kinds → kind ∈ kinds}

/-- The second options follow every kind and direction that the first ones do. -/
structure TraversalOptions.WidenedBy (o wide : TraversalOptions) : Prop where
  kinds : o.followed ⊆ wide.followed
  direction : o.direction = wide.direction ∨ wide.direction = .both

namespace RelationGraph

variable {g : RelationGraph} {o wide : TraversalOptions} {seed x y : String}

theorem Hop.widen (h : o.WidenedBy wide) (hop : g.Hop o x y) : g.Hop wide x y := by
  have hdirection : ∀ d, d ≠ .both → o.direction ≠ d → wide.direction ≠ d := by
    intro d hboth hne heq
    obtain hsame | hwide := h.direction
    · exact hne (hsame.trans heq)
    · exact hboth (heq.symm.trans hwide)
  cases hop with
  | ahead he hkind hd => exact .ahead he (h.kinds hkind) (hdirection _ nofun hd)
  | back he hkind hd => exact .back he (h.kinds hkind) (hdirection _ nofun hd)

theorem Path.widen {n : Nat} (h : o.WidenedBy wide) (hpath : g.Path o n x y) :
    g.Path wide n x y := by
  induction hpath with
  | nil x => exact .nil x
  | snoc _ hop ih => exact .snoc ih (hop.widen h)

theorem reachable_mono (h : o.WidenedBy wide) : g.reachable o seed ⊆ g.reachable wide seed := by
  rintro x ⟨n, hpath⟩
  exact ⟨n, hpath.widen h⟩

/-- Severities do not fall if more is followed. -/
theorem rank_severity_le (h : o.WidenedBy wide) :
    (g.severity (g.visited o seed) x).rank ≤ (g.severity (g.visited wide seed) x).rank := by
  obtain hzero | hpos := Nat.eq_zero_or_pos (g.severity (g.visited o seed) x).rank
  · rw [hzero]
    exact Nat.zero_le _
  · obtain ⟨e, he, hrank, hcouples⟩ := (le_rank_severity hpos).1 (Nat.le_refl _)
    exact (le_rank_severity hpos).2 ⟨e, he, hrank, hcouples.mono (reachable_mono h)⟩

/-- A wider traversal without a limit reports a function again, no further away and no lower. -/
theorem exists_report_of_widenedBy (h : o.WidenedBy wide) (hlimit : wide.maxDepth = none)
    {n : ImpactedNode} (hn : n ∈ (g.impact o seed).nodes) :
    ∃ m ∈ (g.impact wide seed).nodes,
      m.id = n.id ∧ m.level ≤ n.level ∧ n.severity.rank ≤ m.severity.rank := by
  obtain ⟨hseed, m, d, hm, hkind, hne, hdist, -, rfl⟩ := mem_nodes_impact.1 hn
  obtain ⟨d', hle, hdist'⟩ := (hdist.1.widen h).exists_distance
  have hadmits : wide.Admits d' := by
    intro last hlast
    rw [hlimit] at hlast
    cases hlast
  exact ⟨g.reportOn wide seed m d',
    mem_nodes_impact.2 ⟨hseed, m, d', hm, hkind, hne, hdist', hadmits, rfl⟩, rfl, hle,
    rank_severity_le h⟩

/-- Following more kinds, or both directions in place of one, hides no reported function. Each is
reported with a level no higher and a severity no lower. -/
theorem wider_traversal_hides_nothing (g : RelationGraph) (seeds : List String)
    (o wide : TraversalOptions) (h : o.WidenedBy wide) (hlimit : wide.maxDepth = none) :
    List.Forall₂ (fun r s => r.seed = s.seed ∧ ∀ n ∈ r.nodes, ∃ m ∈ s.nodes,
        m.id = n.id ∧ m.level ≤ n.level ∧ n.severity.rank ≤ m.severity.rank)
      (g.traverse seeds o) (g.traverse seeds wide) := by
  refine forall₂_traverse fun seed _ => ⟨?_, fun n hn => exists_report_of_widenedBy h hlimit hn⟩
  rw [seed_impact, seed_impact]

/-- Imports lead from `f` to `y` through `x`; other relations lead there directly and through
`z`. -/
def detourGraph : RelationGraph where
  nodes := [⟨"f", "f", .function, "a", "/a", none⟩, ⟨"x", "x", .function, "a", "/a", none⟩,
    ⟨"y", "y", .function, "a", "/a", none⟩, ⟨"z", "z", .function, "a", "/a", none⟩]
  edges := [⟨"f", "x", .imports, "/a", "/a"⟩, ⟨"x", "y", .imports, "/a", "/a"⟩,
    ⟨"f", "y", .implements, "/a", "/a"⟩, ⟨"f", "z", .calls, "/a", "/a"⟩,
    ⟨"z", "y", .calls, "/a", "/a"⟩]

theorem detourGraph_shortened :
    let o : TraversalOptions := { direction := .forward, kinds := some [.imports] }
    let wide : TraversalOptions := { direction := .both }
    o.WidenedBy wide ∧ wide.maxDepth = none ∧
      ∃ n ∈ (detourGraph.impact o "f").nodes, ∃ m ∈ (detourGraph.impact wide "f").nodes,
        n.id = "y" ∧ m.id = "y" ∧ n.level = 2 ∧ m.level = 1 ∧
          n.severity.rank ≤ m.severity.rank := by
  intro o wide
  have hwidened : o.WidenedBy wide := ⟨fun _ _ => nofun, .inr rfl⟩
  have hfar : detourGraph.IsDistance o "f" "y" 2 := mem_distances.1 (by decide)
  have hnear : detourGraph.IsDistance wide "f" "y" 1 := mem_distances.1 (by decide)
  have hreported : "y" ∈ (detourGraph.impact o "f").nodes.map (·.id) :=
    ids_impact_iff.2 ⟨⟨_, List.mem_cons_self, rfl⟩, by decide, ⟨_, rfl, rfl⟩, 2, hfar, nofun⟩
  obtain ⟨n, hn, hid⟩ := List.mem_map.1 hreported
  have hwider := wider_traversal_hides_nothing detourGraph ["f"] o wide hwidened rfl
  obtain ⟨⟨-, hkept⟩, -⟩ := List.forall₂_cons.1 hwider
  obtain ⟨m, hm, hmid, -, hseverity⟩ := hkept n hn
  have hn2 := distance_of_mem_impact hn
  have hm1 := distance_of_mem_impact hm
  rw [hid] at hn2 hmid
  rw [hmid] at hm1
  exact ⟨hwidened, rfl, n, hn, m, hm, hid, hmid, hn2.unique hfar, hm1.unique hnear, hseverity⟩

end RelationGraph

end CodeImpact
