import CodeImpact.Proofs.Traversal
import Mathlib.Data.Prod.Lex
import Mathlib.Data.String.Basic

/-!
# Groups in the order of their levels

Reports on distinct identifiers have only one order by level and identifier, so their groups depend
only on which reports there are. In this order the reports up to a level come first, so their groups
are the first groups.
-/

namespace CodeImpact

/-! ## The order of reports -/

namespace ImpactedNode

/-- Where a report stands: first by its level and then by its identifier. -/
def place (n : ImpactedNode) : Nat ×ₗ String :=
  toLex (n.level, n.id)

/-- The strict order of reports. -/
def Before (a b : ImpactedNode) : Prop :=
  a.place < b.place

instance : Std.Asymm Before :=
  ⟨fun _ _ => lt_asymm⟩

theorem notAfter_iff {a b : ImpactedNode} : a.notAfter b = true ↔ a.place ≤ b.place := by
  simp [notAfter, place, Prod.Lex.toLex_le_toLex]

theorem Before.level_le {a b : ImpactedNode} (h : a.Before b) : a.level ≤ b.level :=
  Prod.Lex.monotone_fst _ _ (le_of_lt h)

theorem Before.id_lt {a b : ImpactedNode} (h : a.Before b) (hlevel : a.level = b.level) :
    a.id < b.id := by
  rcases Prod.Lex.toLex_lt_toLex.1 h with hlt | ⟨-, hlt⟩
  · exact absurd hlevel (Nat.ne_of_lt hlt)
  · exact hlt

/-- Sorting puts reports on distinct identifiers in strict order. -/
theorem pairwise_mergeSort {nodes : List ImpactedNode} (h : (nodes.map (·.id)).Nodup) :
    (nodes.mergeSort notAfter).Pairwise Before := by
  have hplaces : (nodes.map place).Nodup := by
    refine List.Nodup.of_map (fun p => (ofLex p).2) ?_
    rw [List.map_map]
    exact h
  exact pairwise_lt_mergeSort place (fun _ _ => notAfter_iff) hplaces

/-- Distinct reports can be sorted before or after some are left out. -/
theorem mergeSort_filter {nodes : List ImpactedNode} (h : (nodes.map (·.id)).Nodup)
    (p : ImpactedNode → Bool) :
    (nodes.filter p).mergeSort notAfter = (nodes.mergeSort notAfter).filter p := by
  have hchosen : ((nodes.filter p).map (·.id)).Nodup := h.sublist (List.filter_sublist.map _)
  refine (pairwise_mergeSort hchosen).eq_of_mem_iff ((pairwise_mergeSort h).filter p) fun n => ?_
  simp only [List.mem_mergeSort, List.mem_filter]

end ImpactedNode

/-! ## Groups -/

theorem nodes_ne_nil_of_mem_gatherLevels (nodes : List ImpactedNode) :
    ∀ l ∈ gatherLevels nodes, l.nodes ≠ [] := by
  fun_induction gatherLevels nodes with
  | case1 => simp
  | case2 n rest g groups hrest _ ih =>
    intro l hl
    rcases List.mem_cons.1 hl with rfl | hl
    · exact List.cons_ne_nil n g.nodes
    · exact ih l (hrest ▸ List.mem_cons_of_mem g hl)
  | case3 n rest g groups hrest _ ih =>
    intro l hl
    rcases List.mem_cons.1 hl with rfl | hl
    · exact List.cons_ne_nil n []
    · exact ih l (hrest ▸ hl)
  | case4 n rest hrest ih =>
    intro l hl
    obtain rfl := List.mem_singleton.1 hl
    exact List.cons_ne_nil n []

/-- Every group has the level of a report. -/
theorem exists_level_of_mem_gatherLevels {nodes : List ImpactedNode} {l : ImpactLevel}
    (h : l ∈ gatherLevels nodes) : ∃ n ∈ nodes, n.level = l.level := by
  obtain ⟨n, hn⟩ := List.exists_mem_of_ne_nil _ (nodes_ne_nil_of_mem_gatherLevels nodes l h)
  refine ⟨n, ?_, level_of_mem_gatherLevels nodes l h n hn⟩
  rw [← nodes_gatherLevels nodes]
  exact List.mem_flatMap.2 ⟨l, h, hn⟩

/-- Lists that have no level in common are grouped one after the other. -/
theorem gatherLevels_append {ms ns : List ImpactedNode}
    (h : ∀ m ∈ ms, ∀ n ∈ ns, m.level ≠ n.level) :
    gatherLevels (ms ++ ns) = gatherLevels ms ++ gatherLevels ns := by
  induction ms with
  | nil => rfl
  | cons m ms ih =>
    rw [List.cons_append, gatherLevels, gatherLevels,
      ih fun a ha => h a (List.mem_cons_of_mem m ha)]
    cases gatherLevels ms with
    | nil =>
      -- The first group of `ns` has the level of one of its reports.
      cases hns : gatherLevels ns with
      | nil => rfl
      | cons g groups =>
        obtain ⟨n, hn, hlevel⟩ := exists_level_of_mem_gatherLevels (hns ▸ List.mem_cons_self)
        have hne : g.level ≠ m.level := fun heq =>
          h m List.mem_cons_self n hn (heq.symm.trans hlevel.symm)
        simp only [List.nil_append, if_neg hne, List.singleton_append]
    | cons g groups =>
      by_cases hlevel : g.level = m.level
      · simp only [List.cons_append, if_pos hlevel]
      · simp only [List.cons_append, if_neg hlevel]

/-- If what is chosen stands at the start of a list, the rest stands behind it. -/
theorem filter_append_filter_not {α : Type} {p : α → Bool} {l : List α}
    (h : l.Pairwise fun a b => p b = true → p a = true) :
    l.filter p ++ l.filter (fun a => !p a) = l := by
  induction l with
  | nil => rfl
  | cons a l ih =>
    obtain ⟨ha, hl⟩ := List.pairwise_cons.1 h
    cases hp : p a with
    | true => simp [hp, ih hl]
    | false =>
      have hnone : ∀ b ∈ l, p b = false := fun b hb =>
        Bool.eq_false_iff.2 fun hpb => Bool.false_ne_true (hp.symm.trans (ha b hb hpb))
      have hchosen : l.filter p = [] := List.filter_eq_nil_iff.2 (by simpa using hnone)
      have hrest : l.filter (fun b => !p b) = l := List.filter_eq_self.2 (by simpa using hnone)
      simp [hp, hchosen, hrest]

/-- The groups up to a level, and then the groups beyond it. -/
theorem groupLevels_split {nodes : List ImpactedNode} (h : (nodes.map (·.id)).Nodup) (last : Nat) :
    groupLevels nodes = groupLevels (nodes.filter (·.level ≤ last)) ++
      groupLevels (nodes.filter fun n => !decide (n.level ≤ last)) := by
  have hsorted := ImpactedNode.pairwise_mergeSort h
  have hstart : (nodes.mergeSort ImpactedNode.notAfter).Pairwise fun a b =>
      decide (b.level ≤ last) = true → decide (a.level ≤ last) = true := by
    refine hsorted.imp fun {a b} hab => ?_
    have := hab.level_le
    simp only [decide_eq_true_eq]
    omega
  rw [groupLevels, groupLevels, groupLevels, ImpactedNode.mergeSort_filter h,
    ImpactedNode.mergeSort_filter h, ← gatherLevels_append, filter_append_filter_not hstart]
  intro m hm n hn heq
  have hle := decide_eq_true_eq.mp (List.mem_filter.1 hm).2
  have hgt := (List.mem_filter.1 hn).2
  rw [← heq] at hgt
  simp [hle] at hgt

/-- What holds of the levels of all reports holds of the levels of all groups. -/
theorem forall_level_groupLevels (p : Nat → Prop) {nodes : List ImpactedNode}
    (h : ∀ n ∈ nodes, p n.level) : ∀ l ∈ groupLevels nodes, p l.level := by
  intro l hl
  obtain ⟨n, hn, hlevel⟩ := exists_level_of_mem_gatherLevels hl
  rw [← hlevel]
  exact h n (List.mem_mergeSort.1 hn)

/-- The groups of the reports up to a level are the groups up to it. -/
theorem filter_groupLevels {nodes : List ImpactedNode} (h : (nodes.map (·.id)).Nodup) (last : Nat) :
    (groupLevels nodes).filter (·.level ≤ last) =
      groupLevels (nodes.filter (·.level ≤ last)) := by
  have hkept : ∀ l ∈ groupLevels (nodes.filter (·.level ≤ last)), l.level ≤ last :=
    forall_level_groupLevels (· ≤ last) fun n hn => by simpa using (List.mem_filter.1 hn).2
  have hcut : ∀ l ∈ groupLevels (nodes.filter fun n => !decide (n.level ≤ last)),
      ¬ l.level ≤ last :=
    forall_level_groupLevels (¬ · ≤ last) fun n hn => by simpa using (List.mem_filter.1 hn).2
  rw [groupLevels_split h last, List.filter_append,
    List.filter_eq_self.2 fun l hl => decide_eq_true (hkept l hl),
    List.filter_eq_nil_iff.2 fun l hl => mt of_decide_eq_true (hcut l hl), List.append_nil]

/-! ## The order of groups -/

/-- Groups of one level each, none of them empty, in strictly increasing order of their levels and,
inside a group, of the identifiers. -/
structure Grouped (levels : List ImpactLevel) : Prop where
  increasing : levels.Pairwise (·.level < ·.level)
  nonempty : ∀ l ∈ levels, l.nodes ≠ []
  level_eq : ∀ l ∈ levels, ∀ n ∈ l.nodes, n.level = l.level
  ids_increasing : ∀ l ∈ levels, l.nodes.Pairwise (·.id < ·.id)

/-- Of reports in order, each level is gathered once. -/
theorem pairwise_level_gatherLevels {nodes : List ImpactedNode}
    (h : nodes.Pairwise (·.level ≤ ·.level)) :
    (gatherLevels nodes).Pairwise (·.level < ·.level) := by
  fun_induction gatherLevels nodes with
  | case1 => exact List.Pairwise.nil
  | case2 n rest g groups hrest hlevel ih =>
    have hgroups := hrest ▸ ih (List.pairwise_cons.1 h).2
    obtain ⟨hg, hgroups⟩ := List.pairwise_cons.1 hgroups
    exact List.pairwise_cons.2 ⟨fun l hl => hlevel ▸ hg l hl, hgroups⟩
  | case3 n rest g groups hrest hlevel ih =>
    obtain ⟨hn, hsorted⟩ := List.pairwise_cons.1 h
    have hgroups := hrest ▸ ih hsorted
    refine List.pairwise_cons.2 ⟨fun l hl => ?_, hgroups⟩
    -- The first group behind `n` has the level of a report behind `n`.
    have hg : g ∈ gatherLevels rest := hrest ▸ List.mem_cons_self
    obtain ⟨m, hm, hmlevel⟩ := exists_level_of_mem_gatherLevels hg
    have hlt : n.level < g.level := lt_of_le_of_ne (hmlevel ▸ hn m hm) (Ne.symm hlevel)
    rcases List.mem_cons.1 hl with rfl | hl
    · exact hlt
    · exact hlt.trans ((List.pairwise_cons.1 hgroups).1 l hl)
  | case4 n rest hrest ih => exact List.pairwise_singleton _ _

/-- The groups are in strictly increasing order, inside and between each other. -/
theorem grouped_groupLevels {nodes : List ImpactedNode} (h : (nodes.map (·.id)).Nodup) :
    Grouped (groupLevels nodes) := by
  have hsorted := ImpactedNode.pairwise_mergeSort h
  have hlevel := level_of_mem_gatherLevels (nodes.mergeSort ImpactedNode.notAfter)
  refine ⟨?_, nodes_ne_nil_of_mem_gatherLevels _, hlevel, fun l hl => ?_⟩
  · exact pairwise_level_gatherLevels (hsorted.imp fun hab => hab.level_le)
  · rw [← nodes_gatherLevels (nodes.mergeSort _)] at hsorted
    refine List.Pairwise.imp_of_mem ?_ ((List.pairwise_flatMap.1 hsorted).1 l hl)
    intro a b ha hb hab
    exact hab.id_lt ((hlevel l hl a ha).trans (hlevel l hl b hb).symm)

/-! ## Equal groups -/

/-- Groups depend only on which reports there are. -/
theorem groupLevels_congr {ms ns : List ImpactedNode} (hms : (ms.map (·.id)).Nodup)
    (hns : (ns.map (·.id)).Nodup) (h : ∀ n, n ∈ ms ↔ n ∈ ns) : groupLevels ms = groupLevels ns := by
  have hsorted : ms.mergeSort ImpactedNode.notAfter = ns.mergeSort ImpactedNode.notAfter := by
    refine (ImpactedNode.pairwise_mergeSort hms).eq_of_mem_iff
      (ImpactedNode.pairwise_mergeSort hns) fun n => ?_
    rw [List.mem_mergeSort, List.mem_mergeSort, h]
  rw [groupLevels, groupLevels, hsorted]

/-- Changes the reports of a group. -/
def ImpactLevel.map (f : ImpactedNode → ImpactedNode) (l : ImpactLevel) : ImpactLevel :=
  ⟨l.level, l.nodes.map f⟩

/-- Changing reports without their levels leaves the groups. -/
theorem map_gatherLevels {f : ImpactedNode → ImpactedNode} (hlevel : ∀ n, (f n).level = n.level)
    (nodes : List ImpactedNode) :
    (gatherLevels nodes).map (·.map f) = gatherLevels (nodes.map f) := by
  induction nodes with
  | nil => rfl
  | cons n rest ih =>
    rw [List.map_cons, gatherLevels, gatherLevels, ← ih, hlevel]
    cases gatherLevels rest with
    | nil => simp [ImpactLevel.map]
    | cons g groups =>
      by_cases hg : g.level = n.level
      · simp [ImpactLevel.map, hg]
      · simp [ImpactLevel.map, hg]

/-- A change of the reports that keeps their places changes the reports of each group. -/
theorem map_groupLevels {f : ImpactedNode → ImpactedNode} (hplace : ∀ n, (f n).place = n.place)
    (nodes : List ImpactedNode) :
    (groupLevels nodes).map (·.map f) = groupLevels (nodes.map f) := by
  have hlevel : ∀ n, (f n).level = n.level := fun n => congrArg (fun p => (ofLex p).1) (hplace n)
  have horder : ∀ a ∈ nodes, ∀ b ∈ nodes, a.notAfter b = (f a).notAfter (f b) := by
    intro a _ b _
    rw [Bool.eq_iff_iff, ImpactedNode.notAfter_iff, ImpactedNode.notAfter_iff, hplace, hplace]
  rw [groupLevels, groupLevels, map_gatherLevels hlevel, List.map_mergeSort horder]

end CodeImpact
