import CodeImpact.Proofs.LevelGroups
import CodeImpact.Proofs.Report
import Mathlib.Algebra.BigOperators.Group.List.Basic
import Mathlib.Algebra.GroupWithZero.Nat

/-!
# Contents of a combined report

The combined report of any results, whatever they hold, joins all that they say about an identifier
that is no seed. Its groups are in order, and its summary counts the reported nodes exactly: each
node has one kind and one severity, so both counts add up to their number.
-/

namespace CodeImpact

/-! ## Counts -/

variable {κ : Type}

/-- Entries that count nothing add nothing. -/
theorem sum_filter_pos (counts : List (κ × Nat)) :
    ((counts.filter (0 < ·.2)).map (·.2)).sum = (counts.map (·.2)).sum := by
  induction counts with
  | nil => rfl
  | cons e counts ih =>
    by_cases he : 0 < e.2
    · simp [he, ih]
    · have hzero : e.2 = 0 := by omega
      simp [hzero, ih]

variable [DecidableEq κ]

/-- How often each value of `f` occurs among the nodes, without values that do not occur. -/
structure Tallies (counts : List (κ × Nat)) (f : ImpactedNode → κ) (nodes : List ImpactedNode) :
    Prop where
  distinct : (counts.map (·.1)).Nodup
  mem_iff : ∀ k c, (k, c) ∈ counts ↔ 0 < c ∧ nodes.countP (f · = k) = c
  sum : (counts.map (·.2)).sum = nodes.length

theorem sum_indicator (k : κ) (all : List κ) :
    (all.map fun a => if k = a then 1 else 0).sum = all.count k := by
  induction all with
  | nil => rfl
  | cons a all ih =>
    by_cases ha : k = a
    · subst ha
      simp [ih, Nat.add_comm]
    · simp [ha, ih, Ne.symm ha]

/-- Every node has one of the values, so the counts of all values add up to the number of nodes. -/
theorem sum_countP {all : List κ} (hdistinct : all.Nodup) (hall : ∀ k, k ∈ all)
    (f : ImpactedNode → κ) (nodes : List ImpactedNode) :
    (all.map fun k => nodes.countP (f · = k)).sum = nodes.length := by
  induction nodes with
  | nil => simp
  | cons n nodes ih =>
    have hone : (all.map fun k => if f n = k then 1 else 0).sum = 1 := by
      rw [sum_indicator, List.count_eq_one_of_mem hdistinct (hall (f n))]
    simp only [List.countP_cons, decide_eq_true_eq, List.sum_map_add, ih, hone, List.length_cons]

/-- Counting per kind and leaving zeros out gives a tally. -/
theorem tallies_filter {all : List κ} (hdistinct : all.Nodup) (hall : ∀ k, k ∈ all)
    (f : ImpactedNode → κ) (nodes : List ImpactedNode) :
    Tallies ((all.map fun k => (k, nodes.countP (f · = k))).filter (0 < ·.2)) f nodes where
  distinct := by
    refine List.Nodup.sublist (List.filter_sublist.map _) ?_
    rw [List.map_map]
    change (all.map id).Nodup
    rwa [List.map_id]
  mem_iff k c := by
    simp only [List.mem_filter, List.mem_map, decide_eq_true_eq, Prod.mk.injEq]
    constructor
    · rintro ⟨⟨a, -, rfl, hc⟩, hpos⟩
      exact ⟨hpos, hc⟩
    · rintro ⟨hpos, hc⟩
      exact ⟨⟨k, hall k, rfl, hc⟩, hpos⟩
  sum := by
    rw [sum_filter_pos, List.map_map]
    exact sum_countP hdistinct hall f nodes

/-- A summary that counts exactly these nodes. -/
structure ImpactSummary.Counts (s : ImpactSummary) (nodes : List ImpactedNode) : Prop where
  total : s.total = nodes.length
  maxLevel : nodes = [] ∧ s.maxLevel = 0 ∨
    IsGreatest {d | ∃ n ∈ nodes, n.level = d} s.maxLevel
  byKind : Tallies s.byKind (·.kind) nodes
  bySeverity : Tallies s.bySeverity (·.severity) nodes

theorem maxLevel_ofLevels (levels : List ImpactLevel) :
    let nodes := levels.flatMap (·.nodes)
    nodes = [] ∧ (ImpactSummary.ofLevels levels).maxLevel = 0 ∨
      IsGreatest {d | ∃ n ∈ nodes, n.level = d} (ImpactSummary.ofLevels levels).maxLevel := by
  intro nodes
  change nodes = [] ∧ nodes.foldl (fun m n => Nat.max m n.level) 0 = 0 ∨
    IsGreatest _ (nodes.foldl (fun m n => Nat.max m n.level) 0)
  induction nodes using List.reverseRecOn with
  | nil => exact .inl ⟨rfl, rfl⟩
  | append_singleton nodes n ih =>
    right
    rw [List.foldl_append, List.foldl_cons, List.foldl_nil, ImpactReport.values_snoc (·.level)]
    change IsGreatest _ (max _ _)
    rcases ih with ⟨rfl, hzero⟩ | hgreatest
    · simp [hzero]
    · rw [max_comm]
      exact hgreatest.insert n.level

theorem counts_ofLevels (levels : List ImpactLevel) :
    (ImpactSummary.ofLevels levels).Counts (levels.flatMap (·.nodes)) where
  total := rfl
  maxLevel := maxLevel_ofLevels levels
  byKind := tallies_filter (by decide) (fun k => by cases k <;> decide) _ _
  bySeverity := tallies_filter (by decide) (fun s => by cases s <;> decide) _ _

/-! ## Occurrences -/

namespace ImpactReport

/-- What the results say about an identifier, in their order. -/
def occurrences (x : String) (results : List ImpactResult) : List ImpactedNode :=
  reportsOn x (results.flatMap ImpactResult.nodes)

/-- The combined report is on what some result reports and no result starts from. -/
theorem mem_ids_iff_occurs {results : List ImpactResult} {x : String} :
    x ∈ (ofResults results).nodes.map (·.id) ↔
      (∃ r ∈ results, ∃ m ∈ r.nodes, m.id = x) ∧ ∀ r ∈ results, r.seed ≠ x := by
  rw [mem_ids_ofResults]
  simp only [mem_unseeded, List.mem_map, not_exists, not_and]
  constructor
  · rintro ⟨m, ⟨hseed, r, hr, hm⟩, rfl⟩
    exact ⟨⟨r, hr, m, hm, rfl⟩, hseed⟩
  · rintro ⟨⟨r, hr, m, hm, rfl⟩, hseed⟩
    exact ⟨m, ⟨hseed, r, hr, hm⟩, rfl⟩

/-- What is not a seed keeps all its reports. -/
theorem reportsOn_unseeded {results : List ImpactResult} {x : String}
    (h : ∀ r ∈ results, r.seed ≠ x) : reportsOn x (unseeded results) = occurrences x results := by
  unfold occurrences reportsOn unseeded
  rw [List.filter_filter]
  refine List.filter_congr fun m _ => ?_
  by_cases hm : m.id = x
  · subst hm
    simpa using h
  · simp [hm]

/-- A combined report joins all reports on its node. -/
theorem joins_occurrences {results : List ImpactResult} {n : ImpactedNode}
    (h : n ∈ (ofResults results).nodes) : Joins n (occurrences n.id results) := by
  have hseed := (mem_ids_iff_occurs.1 (List.mem_map_of_mem h)).2
  rw [← reportsOn_unseeded hseed]
  exact joins_of_mem h

/-- A report that was joined has its callers in order. -/
theorem Joins.sorted_of_repeated {n : ImpactedNode} {ms : List ImpactedNode} (h : Joins n ms)
    (hms : 1 < ms.length) : n.Sorted := by
  rcases h.sorted with rfl | hsorted
  · exact absurd hms (lt_irrefl 1)
  · exact hsorted

/-- The combined report of any results names each identifier once, and exactly those that occur in a
result and are the seed of none. Each node joins all its occurrences, with sources in strict order
where it occurs more than once. The groups are in order, and the summary counts the nodes. -/
theorem ofResults_joins_occurrences (results : List ImpactResult) :
    ((ofResults results).nodes.map (·.id)).Nodup ∧
    (∀ x, x ∈ (ofResults results).nodes.map (·.id) ↔
      (∃ r ∈ results, ∃ m ∈ r.nodes, m.id = x) ∧ ∀ r ∈ results, r.seed ≠ x) ∧
    (∀ n ∈ (ofResults results).nodes,
      IsLeast {d | ∃ m ∈ occurrences n.id results, m.level = d} n.level ∧
      IsGreatest {k | ∃ m ∈ occurrences n.id results, m.severity.rank = k} n.severity.rank ∧
      (∀ s, s ∈ n.calledBy ↔ ∃ m ∈ occurrences n.id results, s ∈ m.calledBy) ∧
      (∀ s, s ∈ n.importedBy ↔ ∃ m ∈ occurrences n.id results, s ∈ m.importedBy) ∧
      (1 < (occurrences n.id results).length →
        n.calledBy.Pairwise (· < ·) ∧ n.importedBy.Pairwise (· < ·))) ∧
    Grouped (ofResults results).levels ∧
    (ofResults results).summary.Counts (ofResults results).nodes := by
  refine ⟨nodup_ids_ofResults results, fun x => mem_ids_iff_occurs, fun n hn => ?_, ?_,
    counts_ofLevels _⟩
  · have hjoins := joins_occurrences hn
    exact ⟨hjoins.level, hjoins.severity, hjoins.calledBy, hjoins.importedBy,
      hjoins.sorted_of_repeated⟩
  · have hids := ((nodes_ofResults_perm results).map (·.id)).nodup_iff.1
      (nodup_ids_ofResults results)
    exact grouped_groupLevels hids

/-- A report on a function that `s` and `t` reach, with sources out of order. -/
def reachedTwice (level : Nat) (severity : Severity) (callers : List String) : ImpactedNode :=
  { (default : ImpactedNode) with
    id := "f", level := level, severity := severity, calledBy := callers }

/-- Two seeds: the first one reaches the second one, and both reach one function. -/
def overlappingResults : List ImpactResult :=
  [⟨"s", [⟨2, [reachedTwice 2 .high ["b", "a"]]⟩,
      ⟨1, [{ (default : ImpactedNode) with id := "t", level := 1 }]⟩], {}⟩,
    ⟨"t", [⟨1, [reachedTwice 1 .low ["c"]]⟩], {}⟩]

theorem overlappingResults_joined :
    "t" ∉ (ofResults overlappingResults).nodes.map (·.id) ∧
      ∃ n ∈ (ofResults overlappingResults).nodes, n.id = "f" ∧ n.level = 1 ∧ n.severity = .high ∧
        n.calledBy = ["a", "b", "c"] ∧ (ofResults overlappingResults).summary.Counts
          (ofResults overlappingResults).nodes := by
  obtain ⟨-, hids, hjoins, -, hcounts⟩ := ofResults_joins_occurrences overlappingResults
  have hseed : "t" ∉ (ofResults overlappingResults).nodes.map (·.id) := fun hmem =>
    ((hids "t").1 hmem).2 _ (List.mem_cons_of_mem _ List.mem_cons_self) rfl
  have hmem : "f" ∈ (ofResults overlappingResults).nodes.map (·.id) := by
    refine (hids "f").2 ⟨⟨_, List.mem_cons_self, _, List.mem_cons_self, rfl⟩, ?_⟩
    decide
  obtain ⟨n, hn, hid⟩ := List.mem_map.1 hmem
  obtain ⟨hlevel, hseverity, hcalled, -, hsorted⟩ := hjoins n hn
  have hoccurrences : occurrences n.id overlappingResults =
      [reachedTwice 2 .high ["b", "a"], reachedTwice 1 .low ["c"]] := by
    rw [hid]
    decide
  rw [hoccurrences] at hlevel hseverity hcalled hsorted
  refine ⟨hseed, n, hn, hid, ?_, ?_, ?_, hcounts⟩
  · have hone : IsLeast {d | ∃ m ∈ [reachedTwice 2 .high ["b", "a"], reachedTwice 1 .low ["c"]],
        m.level = d} 1 := by
      refine ⟨⟨reachedTwice 1 .low ["c"], by simp, rfl⟩, ?_⟩
      rintro d ⟨m, hm, rfl⟩
      rcases List.mem_pair.1 hm with rfl | rfl <;> decide
    exact hlevel.unique hone
  · have htwo : IsGreatest {k | ∃ m ∈ [reachedTwice 2 .high ["b", "a"], reachedTwice 1 .low ["c"]],
        m.severity.rank = k} 2 := by
      refine ⟨⟨reachedTwice 2 .high ["b", "a"], by simp, rfl⟩, ?_⟩
      rintro k ⟨m, hm, rfl⟩
      rcases List.mem_pair.1 hm with rfl | rfl <;> decide
    exact Severity.rank_injective (hseverity.unique htwo)
  · refine (hsorted (by decide)).1.eq_of_mem_iff (by decide) fun s => ?_
    simp only [hcalled, reachedTwice, List.mem_cons, List.not_mem_nil, or_false, exists_eq_or_imp,
      exists_eq_left]
    tauto

end ImpactReport

end CodeImpact
