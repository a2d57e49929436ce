import CodeImpact.Impact.Report
import CodeImpact.Proofs.Table
import CodeImpact.Proofs.Traversal

/-!
# The combined report of several seeds

Reports on one identifier are joined one after the other. The result says no more than the set of
the joined reports does: the least level, the greatest severity and all sources. The reports of a
graph on one identifier agree in all that is not joined, so the combined report depends on the set
of the seeds only.
-/

namespace CodeImpact

namespace Severity

theorem rank_max (a b : Severity) : (a.max b).rank = Max.max a.rank b.rank := by
  cases a <;> cases b <;> rfl

theorem rank_injective {a b : Severity} (h : a.rank = b.rank) : a = b := by
  revert h
  cases a <;> cases b <;> decide

end Severity

/-- Sources in strictly increasing order. -/
def ImpactedNode.Sorted (n : ImpactedNode) : Prop :=
  n.calledBy.Pairwise (· < ·) ∧ n.importedBy.Pairwise (· < ·)

namespace ImpactReport

/-! ## Joining reports on one identifier -/

/-- A report that joins some others. -/
structure Joins (n : ImpactedNode) (ms : List ImpactedNode) : Prop where
  named : ∃ m ∈ ms, n.id = m.id ∧ n.name = m.name ∧ n.kind = m.kind ∧ n.filePath = m.filePath
  level : IsLeast {d | ∃ m ∈ ms, m.level = d} n.level
  severity : IsGreatest {r | ∃ m ∈ ms, m.severity.rank = r} n.severity.rank
  calledBy : ∀ s, s ∈ n.calledBy ↔ ∃ m ∈ ms, s ∈ m.calledBy
  importedBy : ∀ s, s ∈ n.importedBy ↔ ∃ m ∈ ms, s ∈ m.importedBy
  /-- A report that stands alone is kept as it is. -/
  sorted : ms = [n] ∨ n.Sorted

theorem joins_singleton (n : ImpactedNode) : Joins n [n] where
  named := ⟨n, List.mem_singleton_self n, rfl, rfl, rfl, rfl⟩
  level := by simp
  severity := by simp
  calledBy := by simp
  importedBy := by simp
  sorted := .inl rfl

theorem values_snoc (f : ImpactedNode → Nat) (ms : List ImpactedNode) (m : ImpactedNode) :
    {d | ∃ a ∈ ms ++ [m], f a = d} = insert (f m) {d | ∃ a ∈ ms, f a = d} := by
  ext d
  simp only [List.mem_append, List.mem_singleton, Set.mem_ofPred_eq, Set.mem_insert_iff]
  constructor
  · rintro ⟨a, ha | rfl, rfl⟩
    · exact .inr ⟨a, ha, rfl⟩
    · exact .inl rfl
  · rintro (rfl | ⟨a, ha, rfl⟩)
    · exact ⟨m, .inr rfl, rfl⟩
    · exact ⟨a, .inl ha, rfl⟩

/-- One report more: the joined report covers it. -/
theorem Joins.join {n : ImpactedNode} {ms : List ImpactedNode} (h : Joins n ms) (m : ImpactedNode) :
    Joins (join n m) (ms ++ [m]) where
  named := by
    obtain ⟨a, ha, hnamed⟩ := h.named
    exact ⟨a, List.mem_append_left _ ha, hnamed⟩
  level := by
    change IsLeast _ (min n.level m.level)
    rw [values_snoc, min_comm]
    exact h.level.insert m.level
  severity := by
    change IsGreatest _ (n.severity.max m.severity).rank
    rw [values_snoc (·.severity.rank), Severity.rank_max, max_comm]
    exact h.severity.insert m.severity.rank
  calledBy s := by
    simp [ImpactReport.join, h.calledBy s, or_and_right, exists_or]
  importedBy s := by
    simp [ImpactReport.join, h.importedBy s, or_and_right, exists_or]
  sorted := .inr ⟨pairwise_sortedSet _, pairwise_sortedSet _⟩

/-- Reports that agree, for each identifier, in what is not joined. -/
structure Coherent (ms : List ImpactedNode) : Prop where
  agree : ∀ a ∈ ms, ∀ b ∈ ms, a.id = b.id →
    a.name = b.name ∧ a.kind = b.kind ∧ a.filePath = b.filePath
  sorted : ∀ a ∈ ms, a.Sorted

theorem Coherent.of_subset {ms ks : List ImpactedNode} (h : Coherent ms) (hsub : ks ⊆ ms) :
    Coherent ks where
  agree a ha b hb := h.agree a (hsub ha) b (hsub hb)
  sorted a ha := h.sorted a (hsub ha)

/-- Reports with callers in order are joined to one. -/
theorem Joins.sorted_of {n : ImpactedNode} {ms : List ImpactedNode} (h : Joins n ms)
    (hms : ∀ a ∈ ms, a.Sorted) : n.Sorted := by
  rcases h.sorted with rfl | hn
  · exact hms n (List.mem_singleton_self n)
  · exact hn

/-- Reports on one identifier that are coherent have only one join, whatever their order and their
number. -/
theorem Joins.unique {n k : ImpactedNode} {ms ks : List ImpactedNode} (hn : Joins n ms)
    (hk : Joins k ks) (hid : n.id = k.id) (hms : Coherent ms) (h : ∀ a, a ∈ ms ↔ a ∈ ks) :
    n = k := by
  obtain ⟨a, ha, haid, haname, hakind, hafile⟩ := hn.named
  obtain ⟨b, hb, hbid, hbname, hbkind, hbfile⟩ := hk.named
  obtain ⟨hname, hkind, hfile⟩ :=
    hms.agree a ha b ((h b).2 hb) (haid.symm.trans (hid.trans hbid))
  have hlevel : n.level = k.level := by
    have := hn.level
    simp only [h] at this
    exact this.unique hk.level
  have hseverity : n.severity = k.severity := by
    have := hn.severity
    simp only [h] at this
    exact Severity.rank_injective (this.unique hk.severity)
  obtain ⟨hncalled, hnimported⟩ := hn.sorted_of hms.sorted
  obtain ⟨hkcalled, hkimported⟩ := hk.sorted_of fun a ha => hms.sorted a ((h a).2 ha)
  have hcalled : n.calledBy = k.calledBy := by
    refine hncalled.eq_of_mem_iff hkcalled fun s => ?_
    simp only [hn.calledBy, hk.calledBy, h]
  have himported : n.importedBy = k.importedBy := by
    refine hnimported.eq_of_mem_iff hkimported fun s => ?_
    simp only [hn.importedBy, hk.importedBy, h]
  cases n
  cases k
  simp_all

/-! ## The table of joined reports -/

/-- The reports on an identifier. -/
def reportsOn (x : String) (ms : List ImpactedNode) : List ImpactedNode :=
  ms.filter (·.id = x)

theorem mem_reportsOn {x : String} {ms : List ImpactedNode} {m : ImpactedNode} :
    m ∈ reportsOn x ms ↔ m ∈ ms ∧ m.id = x := by
  simp [reportsOn]

/-- The table joins the reports on each identifier. -/
structure Holds (t : Table ImpactedNode) (ms : List ImpactedNode) : Prop where
  none : ∀ x, t.get? x = none → reportsOn x ms = []
  some : ∀ x n, t.get? x = some n → Joins n (reportsOn x ms)

theorem holds_empty : Holds .empty [] where
  none _ _ := rfl
  some x n h := by cases h

/-- One report changes the entry of its own identifier only. -/
theorem Holds.addNode {t : Table ImpactedNode} {ms : List ImpactedNode} (h : Holds t ms)
    (m : ImpactedNode) : Holds (addNode t m) (ms ++ [m]) := by
  have hother : ∀ x, m.id ≠ x → reportsOn x (ms ++ [m]) = reportsOn x ms := by
    intro x hx
    simp [reportsOn, hx]
  have hown : reportsOn m.id (ms ++ [m]) = reportsOn m.id ms ++ [m] := by
    simp [reportsOn]
  constructor
  · intro x hx
    rw [ImpactReport.addNode, Table.get?_insert] at hx
    split at hx
    · cases hx
    next hne => rw [hother x hne, h.none x hx]
  · intro x n hx
    rw [ImpactReport.addNode, Table.get?_insert] at hx
    split at hx
    next heq =>
      subst heq
      rw [hown]
      cases hget : t.get? m.id with
      | none =>
        rw [hget] at hx
        obtain rfl := Option.some.inj hx
        rw [h.none _ hget]
        exact joins_singleton m
      | some earlier =>
        rw [hget] at hx
        obtain rfl := Option.some.inj hx
        exact (h.some _ _ hget).join m
    next hne => exact hother x hne ▸ h.some x n hx

theorem holds_foldl (ms : List ImpactedNode) : Holds (ms.foldl ImpactReport.addNode .empty) ms := by
  induction ms using List.reverseRecOn with
  | nil => exact holds_empty
  | append_singleton ms m ih =>
    rw [List.foldl_append]
    exact ih.addNode m

theorem Holds.id_eq {t : Table ImpactedNode} {ms : List ImpactedNode} (h : Holds t ms)
    {x : String} {n : ImpactedNode} (hx : t.get? x = .some n) : n.id = x := by
  obtain ⟨m, hm, hid, -⟩ := (h.some x n hx).named
  exact hid.trans (mem_reportsOn.1 hm).2

/-- The table has the identifiers that are reported on. -/
theorem Holds.mem_keys {t : Table ImpactedNode} {ms : List ImpactedNode} (h : Holds t ms)
    {x : String} : x ∈ t.keys ↔ ∃ m ∈ ms, m.id = x := by
  rw [Table.mem_keys]
  constructor
  · rintro ⟨n, hn⟩
    obtain ⟨m, hm, -⟩ := (h.some x n hn).named
    exact ⟨m, mem_reportsOn.1 hm⟩
  · rintro ⟨m, hm⟩
    cases hget : t.get? x with
    | none =>
      have hmem := mem_reportsOn.2 hm
      rw [h.none x hget] at hmem
      cases hmem
    | some n => exact ⟨n, rfl⟩

/-- The joined reports depend on the set of the reports only. -/
theorem foldl_addNode_congr {ms ks : List ImpactedNode} (hms : Coherent ms)
    (h : ∀ a, a ∈ ms ↔ a ∈ ks) :
    ms.foldl addNode .empty = ks.foldl addNode .empty := by
  have hm := holds_foldl ms
  have hk := holds_foldl ks
  have hkeys : ∀ x, x ∈ (ms.foldl addNode .empty).keys ↔ x ∈ (ks.foldl addNode .empty).keys := by
    intro x
    simp only [hm.mem_keys, hk.mem_keys, h]
  simp only [Table.mem_keys] at hkeys
  refine Table.ext_get? fun x => ?_
  cases hn : (ms.foldl addNode .empty).get? x with
  | none =>
    cases hl : (ks.foldl addNode .empty).get? x with
    | none => rfl
    | some k =>
      obtain ⟨n, hsome⟩ := (hkeys x).2 ⟨k, hl⟩
      rw [hn] at hsome
      cases hsome
  | some n =>
    obtain ⟨k, hl⟩ := (hkeys x).1 ⟨n, hn⟩
    have hon : ∀ a, a ∈ reportsOn x ms ↔ a ∈ reportsOn x ks := by
      intro a
      rw [mem_reportsOn, mem_reportsOn, h]
    have hid : n.id = k.id := (hm.id_eq hn).trans (hk.id_eq hl).symm
    have hcoherent : Coherent (reportsOn x ms) :=
      hms.of_subset fun a ha => (mem_reportsOn.1 ha).1
    rw [hl, (hm.some x n hn).unique (hk.some x k hl) hid hcoherent hon]

/-! ## The combined report -/

/-- The reports on identifiers that are no seeds. -/
def unseeded (results : List ImpactResult) : List ImpactedNode :=
  (results.flatMap ImpactResult.nodes).filter fun n =>
    !(sortedSet (results.map (·.seed))).contains n.id

theorem mem_unseeded {results : List ImpactResult} {m : ImpactedNode} :
    m ∈ unseeded results ↔ m.id ∉ results.map (·.seed) ∧ ∃ r ∈ results, m ∈ r.nodes := by
  simp [unseeded, and_comm]

theorem ofResults_eq (results : List ImpactResult) :
    ofResults results =
      let levels := groupLevels ((unseeded results).foldl addNode .empty).values
      ⟨sortedSet (results.map (·.seed)), levels, .ofLevels levels⟩ :=
  rfl

/-- Grouping loses no report of the table. -/
theorem nodes_ofResults_perm (results : List ImpactResult) :
    (ofResults results).nodes.Perm ((unseeded results).foldl addNode .empty).values :=
  groupLevels_perm _

/-- The combined report has what the table has under its identifier. -/
theorem mem_nodes_ofResults {results : List ImpactResult} {n : ImpactedNode} :
    n ∈ (ofResults results).nodes ↔
      ((unseeded results).foldl addNode .empty).get? n.id = some n := by
  rw [(nodes_ofResults_perm results).mem_iff, Table.mem_values]
  constructor
  · rintro ⟨x, hx⟩
    exact (holds_foldl _).id_eq hx ▸ hx
  · exact fun h => ⟨n.id, h⟩

/-- A combined report joins the reports on its node that are not on seeds. -/
theorem joins_of_mem {results : List ImpactResult} {n : ImpactedNode}
    (h : n ∈ (ofResults results).nodes) : Joins n (reportsOn n.id (unseeded results)) :=
  (holds_foldl _).some _ _ (mem_nodes_ofResults.1 h)

/-- The identifiers of the combined report are the keys of the table. -/
theorem ids_ofResults_perm (results : List ImpactResult) :
    ((ofResults results).nodes.map (·.id)).Perm
      ((unseeded results).foldl addNode .empty).keys := by
  refine ((nodes_ofResults_perm results).map (·.id)).trans (List.Perm.of_eq ?_)
  rw [Table.values, Table.keys, List.map_map]
  refine List.map_congr_left fun e he => ?_
  obtain ⟨x, n⟩ := e
  exact (holds_foldl _).id_eq (Table.mem_entries.1 he)

theorem nodup_ids_ofResults (results : List ImpactResult) :
    ((ofResults results).nodes.map (·.id)).Nodup := by
  rw [(ids_ofResults_perm results).nodup_iff]
  exact (Table.pairwise_keys _).nodup

theorem mem_ids_ofResults {results : List ImpactResult} {x : String} :
    x ∈ (ofResults results).nodes.map (·.id) ↔ ∃ m ∈ unseeded results, m.id = x := by
  rw [(ids_ofResults_perm results).mem_iff, (holds_foldl _).mem_keys]

/-- The combined report depends on the set of seeds and the set of reports alone, if these agree on
each node. -/
theorem ofResults_congr {results others : List ImpactResult}
    (hseeds : ∀ s, s ∈ results.map (·.seed) ↔ s ∈ others.map (·.seed))
    (hnodes : ∀ m, m ∈ unseeded results ↔ m ∈ unseeded others)
    (hcoherent : Coherent (unseeded results)) : ofResults results = ofResults others := by
  rw [ofResults_eq, ofResults_eq, foldl_addNode_congr hcoherent hnodes, sortedSet_congr hseeds]

/-! ## Reports over one graph -/

variable {g : RelationGraph} {o : TraversalOptions} {seeds : List String}

/-- What is reported of a traversal: the reports on nodes that are no seeds. -/
theorem mem_unseeded_traverse {m : ImpactedNode} : m ∈ unseeded (g.traverse seeds o) ↔
    m.id ∉ seeds ∧ ∃ s ∈ seeds, m ∈ (g.impact o s).nodes := by
  rw [mem_unseeded, g.seeds_traverse o]
  simp [RelationGraph.traverse]

/-- Each report on an identifier describes the same node of the graph. -/
theorem coherent_unseeded_traverse (g : RelationGraph) (o : TraversalOptions)
    (seeds : List String) : Coherent (unseeded (g.traverse seeds o)) where
  agree a ha b hb hid := by
    obtain ⟨-, s, -, ha⟩ := mem_unseeded_traverse.1 ha
    obtain ⟨-, t, -, hb⟩ := mem_unseeded_traverse.1 hb
    obtain ⟨-, m, d, hm, -, -, -, -, rfl⟩ := RelationGraph.mem_nodes_impact.1 ha
    obtain ⟨-, k, e, hk, -, -, -, -, rfl⟩ := RelationGraph.mem_nodes_impact.1 hb
    have hid' : m.id = k.id := hid
    rw [hid', hk] at hm
    obtain rfl := Option.some.inj hm
    exact ⟨rfl, rfl, rfl⟩
  sorted a ha := by
    obtain ⟨-, s, -, ha⟩ := mem_unseeded_traverse.1 ha
    obtain ⟨-, m, d, -, -, -, -, -, rfl⟩ := RelationGraph.mem_nodes_impact.1 ha
    exact ⟨pairwise_sortedSet _, pairwise_sortedSet _⟩

/-- A combined report is on the functions at an admitted distance from a seed, other than seeds. -/
theorem mem_ids_report {x : String} :
    x ∈ (ofResults (g.traverse seeds o)).nodes.map (·.id) ↔
      g.IsFunction x ∧ x ∉ seeds ∧ ∃ s ∈ seeds, (∃ n ∈ g.nodes, n.id = s) ∧
        ∃ d, g.IsDistance o s x d ∧ o.Admits d := by
  rw [mem_ids_ofResults]
  constructor
  · rintro ⟨m, hm, rfl⟩
    obtain ⟨hseed, s, hs, hm⟩ := mem_unseeded_traverse.1 hm
    obtain ⟨hnode, -, hfun, hdist⟩ :=
      RelationGraph.ids_impact_iff.1 (List.mem_map_of_mem (f := ImpactedNode.id) hm)
    exact ⟨hfun, hseed, s, hs, hnode, hdist⟩
  · rintro ⟨hfun, hseed, s, hs, hnode, hdist⟩
    have hne : x ≠ s := fun h => hseed (h ▸ hs)
    obtain ⟨m, hm, rfl⟩ :=
      List.mem_map.1 (RelationGraph.ids_impact_iff.2 ⟨hnode, hne, hfun, hdist⟩)
    exact ⟨m, mem_unseeded_traverse.2 ⟨hseed, s, hs, hm⟩, rfl⟩

theorem isFunction_and_not_seed {n : ImpactedNode}
    (h : n ∈ (ofResults (g.traverse seeds o)).nodes) : g.IsFunction n.id ∧ n.id ∉ seeds := by
  obtain ⟨hfun, hseed, -⟩ := mem_ids_report.1 (List.mem_map_of_mem (f := ImpactedNode.id) h)
  exact ⟨hfun, hseed⟩

/-- What is joined into a reported node: the reports on it from any seed. -/
theorem mem_reportsOn_of_mem {n m : ImpactedNode}
    (h : n ∈ (ofResults (g.traverse seeds o)).nodes) :
    m ∈ reportsOn n.id (unseeded (g.traverse seeds o)) ↔
      m.id = n.id ∧ ∃ s ∈ seeds, m ∈ (g.impact o s).nodes := by
  obtain ⟨-, hseed⟩ := isFunction_and_not_seed h
  rw [mem_reportsOn, mem_unseeded_traverse]
  constructor
  · rintro ⟨⟨-, hm⟩, hid⟩
    exact ⟨hid, hm⟩
  · rintro ⟨hid, hm⟩
    exact ⟨⟨hid ▸ hseed, hm⟩, hid⟩

/-- The level is the least distance over all seeds, also over those that are too far away to report
the node themselves. -/
theorem level_report {n : ImpactedNode} (h : n ∈ (ofResults (g.traverse seeds o)).nodes) :
    IsLeast {d | ∃ s ∈ seeds, (∃ a ∈ g.nodes, a.id = s) ∧ g.IsDistance o s n.id d} n.level := by
  obtain ⟨⟨m, hm, hlevel⟩, hleast⟩ := (joins_of_mem h).level
  obtain ⟨hid, s, hs, hm⟩ := (mem_reportsOn_of_mem h).1 hm
  constructor
  · refine ⟨s, hs, (RelationGraph.mem_nodes_impact.1 hm).1, ?_⟩
    rw [← hid, ← hlevel]
    exact RelationGraph.distance_of_mem_impact hm
  · rintro d ⟨t, ht, hnode, hdist⟩
    by_cases hd : o.Admits d
    · obtain ⟨hfun, hseed⟩ := isFunction_and_not_seed h
      have hne : n.id ≠ t := fun heq => hseed (heq ▸ ht)
      obtain ⟨k, hk, hkid⟩ :=
        List.mem_map.1 (RelationGraph.ids_impact_iff.2 ⟨hnode, hne, hfun, d, hdist, hd⟩)
      have hkdist := RelationGraph.distance_of_mem_impact hk
      rw [hkid] at hkdist
      rw [hdist.unique hkdist]
      exact hleast ⟨k, (mem_reportsOn_of_mem h).2 ⟨hkid, t, ht, hk⟩, rfl⟩
    · -- The limit cuts `d` and not the level.
      simp only [TraversalOptions.Admits, not_forall, not_le] at hd
      obtain ⟨last, hlast, hlt⟩ := hd
      have hle := RelationGraph.admits_of_mem_impact hm last hlast
      omega

/-- The severity is the greatest one that a seed gives. -/
theorem severity_report {n : ImpactedNode} (h : n ∈ (ofResults (g.traverse seeds o)).nodes) :
    IsGreatest {k | ∃ r ∈ g.traverse seeds o, ∃ m ∈ r.nodes, m.id = n.id ∧ m.severity.rank = k}
      n.severity.rank := by
  obtain ⟨⟨m, hm, hrank⟩, hgreatest⟩ := (joins_of_mem h).severity
  constructor
  · obtain ⟨hid, s, hs, hm⟩ := (mem_reportsOn_of_mem h).1 hm
    exact ⟨g.impact o s, List.mem_map_of_mem hs, m, hm, hid, hrank⟩
  · rintro _ ⟨r, hr, k, hk, hid, rfl⟩
    obtain ⟨s, hs, rfl⟩ := List.mem_map.1 hr
    exact hgreatest ⟨k, (mem_reportsOn_of_mem h).2 ⟨hid, s, hs, hk⟩, rfl⟩

/-- The order of the seeds and repetitions do not matter. -/
theorem report_congr {others : List String} (h : ∀ s, s ∈ others ↔ s ∈ seeds) :
    ofResults (g.traverse others o) = ofResults (g.traverse seeds o) := by
  refine ofResults_congr (fun s => ?_) (fun m => ?_) (coherent_unseeded_traverse g o others)
  · rw [g.seeds_traverse o, g.seeds_traverse o, h]
  · simp only [mem_unseeded_traverse, h]

/-- The combined report of a list of seeds depends on their set only. It reports exactly the
functions outside the list that are within the limit of a seed of the graph, each once, at the least
distance from these seeds and with the greatest severity that a single seed gives it. -/
theorem report_determined_by_seed_set (g : RelationGraph) (o : TraversalOptions)
    (seeds : List String) :
    (∀ others : List String, (∀ s, s ∈ others ↔ s ∈ seeds) →
      ofResults (g.traverse others o) = ofResults (g.traverse seeds o)) ∧
    (ofResults (g.traverse seeds o)).seeds.Pairwise (· < ·) ∧
    (∀ s, s ∈ (ofResults (g.traverse seeds o)).seeds ↔ s ∈ seeds) ∧
    ((ofResults (g.traverse seeds o)).nodes.map (·.id)).Nodup ∧
    (∀ x, x ∈ (ofResults (g.traverse seeds o)).nodes.map (·.id) ↔
      g.IsFunction x ∧ x ∉ seeds ∧ ∃ s ∈ seeds, (∃ a ∈ g.nodes, a.id = s) ∧
        ∃ d, g.IsDistance o s x d ∧ o.Admits d) ∧
    ∀ n ∈ (ofResults (g.traverse seeds o)).nodes,
      IsLeast {d | ∃ s ∈ seeds, (∃ a ∈ g.nodes, a.id = s) ∧ g.IsDistance o s n.id d} n.level ∧
      IsGreatest {k | ∃ r ∈ g.traverse seeds o, ∃ m ∈ r.nodes,
        m.id = n.id ∧ m.severity.rank = k} n.severity.rank := by
  have hseeds : (ofResults (g.traverse seeds o)).seeds = sortedSet seeds := by
    rw [ofResults_eq, g.seeds_traverse o]
  refine ⟨fun others h => report_congr h, ?_, ?_, nodup_ids_ofResults _, fun x => mem_ids_report,
    fun n hn => ⟨level_report hn, severity_report hn⟩⟩
  · rw [hseeds]
    exact pairwise_sortedSet seeds
  · intro s
    rw [hseeds, mem_sortedSet]

theorem relayGraph_report_of_any_order :
    ofResults (RelationGraph.relayGraph.traverse ["f", "gone", "f"] { direction := .forward }) =
        ofResults (RelationGraph.relayGraph.traverse ["gone", "f"] { direction := .forward }) ∧
      "g" ∈ (ofResults (RelationGraph.relayGraph.traverse ["gone", "f"]
        { direction := .forward })).nodes.map (·.id) := by
  obtain ⟨hset, -, -, -, hids, -⟩ := report_determined_by_seed_set RelationGraph.relayGraph
    { direction := .forward } ["gone", "f"]
  refine ⟨hset ["f", "gone", "f"] fun s => ?_, (hids "g").2 ?_⟩
  · simp only [List.mem_cons, List.not_mem_nil, or_false]
    tauto
  · refine ⟨⟨_, rfl, rfl⟩, by decide, "f", by decide, ⟨_, List.mem_cons_self, rfl⟩, 2,
      RelationGraph.mem_distances.1 (by decide), ?_⟩
    rintro last ⟨⟩

end ImpactReport

end CodeImpact
