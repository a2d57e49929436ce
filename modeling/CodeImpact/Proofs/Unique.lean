import CodeImpact.CodeGraph.Record
import Mathlib.Data.List.Induction
import Mathlib.Data.List.Nodup
import Mathlib.Data.List.Perm.Basic
import Mathlib.Order.Lattice

/-!
# Lists without repetition

Which items a list has after new ones are appended, that none is there twice, and that the first
occurrence of an item decides its place: what is appended to a list in this way are the first
occurrences of both. Items that are sorted by distinct keys are all there, each as often as before,
and items with distinct places in an order have one order.
-/

namespace CodeImpact

variable {α β : Type} [DecidableEq β]

theorem any_eq_true_iff_mem_map {l : List α} {f : α → β} {b : β} :
    l.any (fun a => f a = b) = true ↔ b ∈ l.map f := by
  simp only [List.any_eq_true, List.mem_map, decide_eq_true_eq]

theorem appendUnique_append (target as bs : List β) :
    appendUnique target (as ++ bs) = appendUnique (appendUnique target as) bs :=
  List.foldl_append

theorem appendUnique_singleton (target : List β) (b : β) :
    appendUnique target [b] = if b ∈ target then target else target ++ [b] :=
  rfl

@[simp] theorem mem_appendUnique {target items : List β} {b : β} :
    b ∈ appendUnique target items ↔ b ∈ target ∨ b ∈ items := by
  induction items using List.reverseRecOn with
  | nil => simp [appendUnique]
  | append_singleton items c ih =>
    rw [appendUnique_append, appendUnique_singleton]
    split
    next hc =>
      rw [ih, List.mem_append, List.mem_singleton]
      constructor
      · tauto
      · rintro (hb | hb | rfl)
        · exact .inl hb
        · exact .inr hb
        · exact ih.1 hc
    next => simp only [List.mem_append, ih, or_assoc]

theorem nodup_appendUnique {target : List β} (h : target.Nodup) (items : List β) :
    (appendUnique target items).Nodup := by
  induction items using List.reverseRecOn with
  | nil => exact h
  | append_singleton items c ih =>
    rw [appendUnique_append, appendUnique_singleton]
    split
    · exact ih
    next hc => exact ih.append (List.nodup_singleton c) (List.disjoint_singleton.2 hc)

/-- What is there stays as often as it is there, and what is new is added once. -/
theorem count_appendUnique (target items : List β) (b : β) :
    (appendUnique target items).count b =
      if b ∈ target then target.count b else if b ∈ items then 1 else 0 := by
  induction items using List.reverseRecOn with
  | nil =>
    change target.count b = _
    split
    · rfl
    next hb => simp [List.count_eq_zero_of_not_mem hb]
  | append_singleton items c ih =>
    rw [appendUnique_append, appendUnique_singleton]
    split
    next hc =>
      rw [mem_appendUnique] at hc
      rw [ih]
      by_cases hb : b = c
      · subst hb
        grind
      · simp [hb]
    next hc =>
      rw [mem_appendUnique, not_or] at hc
      rw [List.count_append, ih]
      by_cases hb : b = c
      · subst hb
        simp [hc]
      · simp [hb, Ne.symm hb]

/-- Items that are all there change nothing. -/
theorem appendUnique_of_subset {target items : List β} (h : ∀ b ∈ items, b ∈ target) :
    appendUnique target items = target := by
  induction items with
  | nil => rfl
  | cons b items ih =>
    have hb : b ∈ target := h b List.mem_cons_self
    change appendUnique (if b ∈ target then target else target ++ [b]) items = target
    rw [if_pos hb]
    exact ih fun c hc => h c (List.mem_cons_of_mem b hc)

/-- Adding the same items again changes nothing. -/
theorem appendUnique_idem (target items : List β) :
    appendUnique (appendUnique target items) items = appendUnique target items :=
  appendUnique_of_subset fun _ hb => mem_appendUnique.2 (.inr hb)

/-- Of two values, the one that comes first has an origin below every origin of the other. -/
theorem pairwise_appendUnique_map {R : α → α → Prop} {origins : List α} (h : origins.Pairwise R)
    (f : α → β) :
    (appendUnique [] (origins.map f)).Pairwise fun r s =>
      ∃ a ∈ origins, f a = r ∧ ∀ b ∈ origins, f b = s → R a b := by
  induction origins using List.reverseRecOn with
  | nil => exact List.Pairwise.nil
  | append_singleton origins c ih =>
    obtain ⟨horigins, -, hlast⟩ := List.pairwise_append.1 h
    have hc : ∀ a ∈ origins, R a c := fun a ha => hlast a ha c (List.mem_singleton_self c)
    have hmem : ∀ {r}, r ∈ appendUnique [] (origins.map f) ↔ ∃ a ∈ origins, f a = r := by simp
    -- What `c` adds to the origins is above all others.
    have hold : (appendUnique [] (origins.map f)).Pairwise fun r s =>
        ∃ a ∈ origins ++ [c], f a = r ∧ ∀ b ∈ origins ++ [c], f b = s → R a b := by
      refine (ih horigins).imp ?_
      rintro r s ⟨a, ha, rfl, hs⟩
      refine ⟨a, List.mem_append_left _ ha, rfl, fun b hb hbs => ?_⟩
      rcases List.mem_append.1 hb with hb | hb
      · exact hs b hb hbs
      · exact List.mem_singleton.1 hb ▸ hc a ha
    rw [List.map_append, List.map_singleton, appendUnique_append, appendUnique_singleton]
    split
    · exact hold
    next hnew =>
      refine List.pairwise_append.2 ⟨hold, List.pairwise_singleton _ _, fun r hr s hs => ?_⟩
      obtain ⟨a, ha, rfl⟩ := hmem.1 hr
      obtain rfl := List.mem_singleton.1 hs
      refine ⟨a, List.mem_append_left _ ha, rfl, fun b hb hbc => ?_⟩
      rcases List.mem_append.1 hb with hb | hb
      · exact absurd (hmem.2 ⟨b, hb, hbc⟩) hnew
      · exact List.mem_singleton.1 hb ▸ hc a ha

/-! ## First occurrences -/

theorem eraseDups_concat (l : List β) (b : β) :
    (l ++ [b]).eraseDups = if b ∈ l then l.eraseDups else l.eraseDups ++ [b] := by
  rw [List.eraseDups_append]
  by_cases hb : b ∈ l <;> simp [List.removeAll, List.eraseDups_cons, hb]

/-- Keeping first occurrences is adding the items that are new. -/
theorem eraseDups_append_eq_appendUnique (l items : List β) :
    (l ++ items).eraseDups = appendUnique l.eraseDups items := by
  induction items using List.reverseRecOn with
  | nil => rw [List.append_nil]; rfl
  | append_singleton items b ih =>
    rw [← List.append_assoc, eraseDups_concat, ih, appendUnique_append, appendUnique_singleton]
    simp only [mem_appendUnique, List.mem_eraseDups, List.mem_append]

theorem eraseDups_of_nodup {l : List β} (h : l.Nodup) : l.eraseDups = l := by
  induction l using List.reverseRecOn with
  | nil => rfl
  | append_singleton l b ih =>
    obtain ⟨hl, -, hb⟩ := List.nodup_append.1 h
    have hnew : b ∉ l := fun hmem => hb b hmem b (List.mem_singleton_self b) rfl
    rw [eraseDups_concat, if_neg hnew, ih hl]

/-! ## Groups -/

/-- If the keys differ and only one item gives a list, the lists of all items are that list. -/
theorem flatMap_eq_of_distinct {ι κ γ : Type*} {key : ι → κ} {items : List ι}
    (hdistinct : (items.map key).Nodup) {a : ι} (ha : a ∈ items) {g : ι → List γ}
    (hothers : ∀ b ∈ items, key a ≠ key b → g b = []) : items.flatMap g = g a := by
  obtain ⟨before, after, rfl⟩ := List.append_of_mem ha
  rw [List.map_append, List.map_cons, List.nodup_middle, ← List.map_append] at hdistinct
  have hrest : ∀ b ∈ before ++ after, g b = [] := by
    intro b hb
    refine hothers b ?_ fun heq => ?_
    · rw [List.mem_append, List.mem_cons]
      exact (List.mem_append.1 hb).imp_right .inr
    · exact (List.nodup_cons.1 hdistinct).1 (List.mem_map.2 ⟨b, hb, heq.symm⟩)
  have hbefore : before.flatMap g = [] :=
    List.flatMap_eq_nil_iff.2 fun b hb => hrest b (List.mem_append_left _ hb)
  have hafter : after.flatMap g = [] :=
    List.flatMap_eq_nil_iff.2 fun b hb => hrest b (List.mem_append_right _ hb)
  rw [List.flatMap_append, List.flatMap_cons, hbefore, hafter, List.nil_append, List.append_nil]

/-- Sorting items by key and putting those without a key last loses and repeats none. -/
theorem flatMap_filter_perm (key? : α → Option β) {keys : List β} (hdistinct : keys.Nodup)
    {items : List α} (hall : ∀ a ∈ items, ∀ k, key? a = some k → k ∈ keys) :
    ((keys.flatMap fun k => items.filter fun a => key? a = some k) ++
      items.filter fun a => (key? a).isNone).Perm items := by
  induction keys generalizing items with
  | nil =>
    have hnone : ∀ a ∈ items, (key? a).isNone = true := by
      intro a ha
      exact Option.isNone_iff_eq_none.2
        (Option.eq_none_iff_forall_ne_some.2 fun k hk => List.not_mem_nil (hall a ha k hk))
    rw [List.flatMap_nil, List.nil_append, List.filter_eq_self.2 hnone]
  | cons k rest ih =>
    obtain ⟨hk, hrest⟩ := List.nodup_cons.1 hdistinct
    -- What remains without the items of the first key is sorted by the other keys.
    let others := items.filter fun a => !decide (key? a = some k)
    have hkept : ∀ p : α → Bool, (∀ a, p a = true → key? a ≠ some k) →
        items.filter p = others.filter p := by
      intro p hp
      rw [List.filter_filter]
      refine List.filter_congr fun a _ => ?_
      cases hpa : p a with
      | false => rfl
      | true => simp [hp a hpa]
    have hkeys : (rest.flatMap fun j => items.filter fun a => key? a = some j) =
        rest.flatMap fun j => others.filter fun a => key? a = some j := by
      refine List.flatMap_congr fun j hj => hkept _ fun a ha heq => hk ?_
      rw [of_decide_eq_true ha] at heq
      exact Option.some.inj heq ▸ hj
    have hnone : (items.filter fun a => (key? a).isNone) =
        others.filter fun a => (key? a).isNone :=
      hkept _ fun a ha heq => by simp [heq] at ha
    have hall' : ∀ a ∈ others, ∀ j, key? a = some j → j ∈ rest := by
      intro a ha j hj
      obtain ⟨hmem, hne⟩ := List.mem_filter.1 ha
      refine (List.mem_cons.1 (hall a hmem j hj)).resolve_left ?_
      rintro rfl
      simp [hj] at hne
    rw [List.flatMap_cons, hkeys, hnone, List.append_assoc]
    exact ((ih hrest hall').append_left _).trans (List.filter_append_perm _ items)

/-! ## Sorting -/

section Sorting

variable {ι κ : Type} [LinearOrder κ] (place : ι → κ) {notAfter : ι → ι → Bool}
  (h : ∀ a b, notAfter a b = true ↔ place a ≤ place b)
include h

/-- Sorting by the place in a linear order gives that order. -/
theorem pairwise_le_mergeSort (l : List ι) :
    (l.mergeSort notAfter).Pairwise fun a b => place a ≤ place b := by
  have htrans : ∀ a b c, notAfter a b = true → notAfter b c = true → notAfter a c = true := by
    simp only [h]
    exact fun a b c => le_trans
  have htotal : ∀ a b, (notAfter a b || notAfter b a) = true := by
    simp only [Bool.or_eq_true, h]
    exact fun a b => le_total (place a) (place b)
  exact (List.pairwise_mergeSort htrans htotal l).imp fun hab => (h _ _).1 hab

/-- Items at distinct places are put in strict order. -/
theorem pairwise_lt_mergeSort {l : List ι} (hdistinct : (l.map place).Nodup) :
    (l.mergeSort notAfter).Pairwise fun a b => place a < place b := by
  have hplaces : ((l.mergeSort notAfter).map place).Nodup :=
    ((l.mergeSort_perm notAfter).map place).nodup_iff.2 hdistinct
  exact ((pairwise_le_mergeSort place h l).and (List.pairwise_map.1 hplaces)).imp fun hab =>
    lt_of_le_of_ne hab.1 hab.2

end Sorting

end CodeImpact
