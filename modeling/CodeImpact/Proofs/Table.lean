import CodeImpact.Table
import Mathlib.Data.List.Induction
import Mathlib.Data.List.Sort

/-!
# Laws of tables

Look-up after every operation, equality of tables that answer alike, and the members and the order
of a sorted set of texts. Of several entries inserted under one key, the last counts.
-/

namespace CodeImpact

universe u v

namespace Table

variable {α : Type u} {β : Type v}

theorem find?_place (key : String) (a : α) (entries : List (String × α)) (x : String) :
    find? x (place key a entries) = if key = x then some a else find? x entries := by
  induction entries with
  | nil => rfl
  | cons e rest ih =>
    obtain ⟨k, b⟩ := e
    unfold place
    split
    · rfl
    · split
      next heq =>
        subst heq
        by_cases hx : k = x <;> simp [find?, hx]
      next hne =>
        by_cases hx : k = x
        · have hkey : key ≠ x := fun h => hne (hx.trans h.symm)
          simp [find?, hx, hkey]
        · simp [find?, hx, ih]

/-- In an ordered list, look-up finds every entry. -/
theorem find?_eq_some_iff {entries : List (String × α)} (h : Ordered entries) {x : String} {a : α} :
    find? x entries = some a ↔ (x, a) ∈ entries := by
  induction entries with
  | nil => simp [find?]
  | cons e rest ih =>
    obtain ⟨k, b⟩ := e
    obtain ⟨hk, hrest⟩ := List.pairwise_cons.1 h
    by_cases hx : k = x
    · subst hx
      -- A second entry with this key would be strictly above the first.
      have hnot : (k, a) ∉ rest := fun hmem => String.lt_irrefl k (hk _ hmem)
      simp [find?, hnot, eq_comm]
    · have hne : (x, a) ≠ (k, b) := fun he => hx (Prod.mk.inj he).1.symm
      simp [find?, hx, ih hrest, hne]

@[simp] theorem get?_empty (x : String) : (empty : Table α).get? x = none := rfl

/-- A new value is found under its key, and others as before. -/
@[simp] theorem get?_insert (t : Table α) (key : String) (a : α) (x : String) :
    (t.insert key a).get? x = if key = x then some a else t.get? x :=
  find?_place key a t.entries x

@[simp] theorem mem_entries {t : Table α} {x : String} {a : α} :
    (x, a) ∈ t.entries ↔ t.get? x = some a :=
  (find?_eq_some_iff t.ordered).symm

theorem mem_keys {t : Table α} {x : String} : x ∈ t.keys ↔ ∃ a, t.get? x = some a := by
  simp [keys]

theorem mem_values {t : Table α} {a : α} : a ∈ t.values ↔ ∃ x, t.get? x = some a := by
  simp [values]

theorem contains_iff {t : Table α} {x : String} : t.contains x = true ↔ x ∈ t.keys := by
  rw [contains, Option.isSome_iff_exists, mem_keys]

theorem pairwise_keys (t : Table α) : t.keys.Pairwise (· < ·) :=
  List.pairwise_map.2 t.ordered

/-- Tables that answer alike are equal, because the order of the entries is fixed. -/
theorem ext_get? {t s : Table α} (h : ∀ x, t.get? x = s.get? x) : t = s := by
  have hmem : ∀ e, e ∈ t.entries ↔ e ∈ s.entries := by
    rintro ⟨x, a⟩
    rw [mem_entries, mem_entries, h x]
  have distinct : ∀ r : Table α, r.entries.Nodup := by
    intro r
    refine r.ordered.imp ?_
    rintro e f hlt rfl
    exact String.lt_irrefl _ hlt
  have hperm := (List.perm_ext_iff_of_nodup (distinct t) (distinct s)).2 hmem
  have heq : t.entries = s.entries :=
    hperm.eq_of_pairwise (fun a b _ _ hab hba => absurd hba (String.lt_asymm hab))
      t.ordered s.ordered
  cases t
  cases s
  simpa using heq

@[simp] theorem keys_map (f : String → α → β) (t : Table α) : (t.map f).keys = t.keys := by
  simp [keys, map]

theorem get?_map (f : String → α → β) (t : Table α) (x : String) :
    (t.map f).get? x = (t.get? x).map (f x) := by
  obtain ⟨entries, ordered⟩ := t
  simp only [get?, map]
  clear ordered
  induction entries with
  | nil => rfl
  | cons e rest ih =>
    obtain ⟨k, b⟩ := e
    by_cases hx : k = x
    · subst hx
      simp [find?]
    · simp [find?, hx, ih]

theorem mem_keys_insert {t : Table α} {key : String} {a : α} {x : String} :
    x ∈ (t.insert key a).keys ↔ x = key ∨ x ∈ t.keys := by
  by_cases hx : key = x
  · simp [mem_keys, hx]
  · have hne : x ≠ key := fun h => hx h.symm
    simp [mem_keys, hx, hne]

theorem mem_keys_foldl_insert (entries : List (String × α)) (t : Table α) (x : String) :
    x ∈ (entries.foldl (fun t (k, a) => t.insert k a) t).keys ↔
      x ∈ t.keys ∨ x ∈ entries.map (·.1) := by
  induction entries generalizing t with
  | nil => simp
  | cons e rest ih =>
    obtain ⟨k, a⟩ := e
    rw [List.foldl_cons, ih, mem_keys_insert, List.map_cons, List.mem_cons]
    tauto

theorem mem_keys_insertAll {t s : Table α} {x : String} :
    x ∈ (t.insertAll s).keys ↔ x ∈ t.keys ∨ x ∈ s.keys :=
  mem_keys_foldl_insert s.entries t x

theorem mem_keys_insertNew {t : Table α} {key : String} {a : α} {x : String} :
    x ∈ (t.insertNew key a).keys ↔ x = key ∨ x ∈ t.keys := by
  unfold insertNew
  split
  next hkey =>
    rw [contains_iff] at hkey
    exact ⟨.inr, fun h => h.elim (fun heq => heq ▸ hkey) id⟩
  next => exact mem_keys_insert

theorem mem_keys_ofListFirst {entries : List (String × α)} {x : String} :
    x ∈ (ofListFirst entries).keys ↔ x ∈ entries.map (·.1) := by
  have hfold : ∀ t : Table α, x ∈ (entries.foldl (fun t (k, a) => t.insertNew k a) t).keys ↔
      x ∈ t.keys ∨ x ∈ entries.map (·.1) := by
    induction entries with
    | nil => simp
    | cons e rest ih =>
      intro t
      rw [List.foldl_cons, ih, mem_keys_insertNew, List.map_cons, List.mem_cons]
      tauto
  rw [ofListFirst, hfold]
  simp [mem_keys]

/-- A value that is there is not replaced. -/
theorem get?_insertNew (t : Table α) (key : String) (a : α) (x : String) :
    (t.insertNew key a).get? x = (t.get? x).or (if key = x then some a else none) := by
  unfold insertNew contains
  by_cases hx : key = x
  · subst hx
    cases hget : t.get? key <;> simp [hget]
  · split <;> simp [hx]

/-- Of several values for one key, the first counts, and before them the one in the table. -/
theorem get?_foldl_insertNew (entries : List (String × α)) (t : Table α) (x : String) :
    (entries.foldl (fun t (k, a) => t.insertNew k a) t).get? x =
      (t.get? x).or (find? x entries) := by
  induction entries generalizing t with
  | nil => simp [find?]
  | cons e rest ih =>
    obtain ⟨k, a⟩ := e
    rw [List.foldl_cons, ih, get?_insertNew, Option.or_assoc, find?]
    split <;> simp

/-- What holds of the values and of a new one holds of the values with it. -/
theorem forall_values_insert {t : Table α} {P : α → Prop} (h : ∀ a ∈ t.values, P a) {key : String}
    {b : α} (hb : P b) : ∀ a ∈ (t.insert key b).values, P a := by
  intro a ha
  obtain ⟨x, hx⟩ := mem_values.1 ha
  rw [get?_insert] at hx
  split at hx
  · exact Option.some.inj hx ▸ hb
  · exact h a (mem_values.2 ⟨x, hx⟩)

/-- What holds of all values before and of all that are put in holds after. -/
theorem forall_values_foldl_insert {t : Table α} {P : α → Prop} (h : ∀ a ∈ t.values, P a)
    {entries : List (String × α)} (hentries : ∀ e ∈ entries, P e.2) :
    ∀ a ∈ (entries.foldl (fun t (k, a) => t.insert k a) t).values, P a := by
  induction entries generalizing t with
  | nil => exact h
  | cons e rest ih =>
    obtain ⟨he, hrest⟩ := List.forall_mem_cons.1 hentries
    exact ih (forall_values_insert h he) hrest

/-- Of several entries with one key, the last counts. -/
theorem get?_foldl_insert (entries : List (String × α)) (t : Table α) (x : String) :
    (entries.foldl (fun t (k, a) => t.insert k a) t).get? x =
      (((entries.filter fun e => e.1 = x).getLast?).map (·.2)).or (t.get? x) := by
  induction entries using List.reverseRecOn with
  | nil => rfl
  | append_singleton entries e ih =>
    rw [List.foldl_append, List.foldl_cons, List.foldl_nil, get?_insert, ih, List.filter_append,
      List.getLast?_append]
    by_cases hx : e.1 = x
    · simp [hx]
    · simp [hx]

/-- Of several entries with one key the last counts. -/
theorem get?_ofList (entries : List (String × α)) (x : String) :
    (ofList entries).get? x = ((entries.filter fun e => e.1 = x).getLast?).map (·.2) := by
  rw [ofList, get?_foldl_insert, get?_empty, Option.or_none]

/-- Under keys that are all different, nothing is replaced. -/
theorem get?_ofList_of_nodup {entries : List (String × α)} (h : (entries.map (·.1)).Nodup)
    {x : String} {a : α} (hmem : (x, a) ∈ entries) : (ofList entries).get? x = some a := by
  have hne : entries.filter (fun e => e.1 = x) ≠ [] :=
    List.ne_nil_of_mem (List.mem_filter.2 ⟨hmem, decide_eq_true rfl⟩)
  obtain ⟨e, hlast⟩ := Option.isSome_iff_exists.1 (List.getLast?_isSome.2 hne)
  obtain ⟨he, hx⟩ := List.mem_filter.1 (List.mem_of_getLast? hlast)
  have heq : e = (x, a) := List.inj_on_of_nodup_map h he hmem (of_decide_eq_true hx)
  rw [get?_ofList, hlast, heq, Option.map_some]

/-! ### Items of the values

A value can hold items of its own, such as the calls of a function. Replacing a value that holds
none loses no item.
-/

/-- A new entry adds its items, if the one it replaces had none. -/
theorem flatMap_place {γ : Type*} (items : α → List γ) {key : String} {a : α}
    {entries : List (String × α)} (h : ∀ old, find? key entries = some old → items old = []) :
    ((place key a entries).flatMap fun e => items e.2).Perm
      ((entries.flatMap fun e => items e.2) ++ items a) := by
  induction entries with
  | nil => simp [place]
  | cons e rest ih =>
    obtain ⟨k, b⟩ := e
    unfold place
    split
    · exact List.perm_append_comm
    · split
      next heq =>
        have hold : items b = [] := h b (by simp [find?, heq])
        simp only [List.flatMap_cons, hold, List.nil_append]
        exact List.perm_append_comm
      next hne =>
        have hrest := ih fun old hold => h old (by simp [find?, hne, hold])
        simp only [List.flatMap_cons, List.append_assoc]
        exact hrest.append_left (items b)

theorem flatMap_values_insert {γ : Type*} (items : α → List γ) {t : Table α} {key : String} {a : α}
    (h : ∀ old, t.get? key = some old → items old = []) :
    ((t.insert key a).values.flatMap items).Perm (t.values.flatMap items ++ items a) := by
  simp only [values, insert, List.flatMap_map]
  exact flatMap_place items h

/-- If each value that is replaced later holds no item, the table holds the items of all entries. -/
theorem flatMap_values_ofList {γ : Type*} (items : α → List γ) {entries : List (String × α)}
    (h : entries.Pairwise fun e later => e.1 = later.1 → items e.2 = []) :
    ((ofList entries).values.flatMap items).Perm (entries.flatMap fun e => items e.2) := by
  induction entries using List.reverseRecOn with
  | nil => exact List.Perm.refl _
  | append_singleton entries e ih =>
    obtain ⟨hentries, -, hlast⟩ := List.pairwise_append.1 h
    have hinsert : ofList (entries ++ [e]) = (ofList entries).insert e.1 e.2 := by
      rw [ofList, List.foldl_append]
      rfl
    have hold : ∀ old, (ofList entries).get? e.1 = some old → items old = [] := by
      intro old hget
      rw [get?_ofList] at hget
      obtain ⟨e', hlast', rfl⟩ := Option.map_eq_some_iff.1 hget
      obtain ⟨he', hkey⟩ := List.mem_filter.1 (List.mem_of_getLast? hlast')
      exact hlast e' he' e (List.mem_singleton_self e) (of_decide_eq_true hkey)
    rw [hinsert, List.flatMap_append, List.flatMap_singleton]
    exact (flatMap_values_insert items hold).trans ((ih hentries).append_right _)

/-- In key order, the last entry is the one with the greatest key. -/
theorem getLast?_eq_some_iff {entries : List (String × α)} (h : Ordered entries)
    {e : String × α} :
    entries.getLast? = some e ↔ e ∈ entries ∧ ∀ x ∈ entries, x.1 ≤ e.1 := by
  induction entries using List.reverseRecOn with
  | nil => simp
  | append_singleton entries last ih =>
    obtain ⟨-, -, hbelow⟩ := List.pairwise_append.1 h
    have hlast : ∀ x ∈ entries, x.1 < last.1 := fun x hx => hbelow x hx last (by simp)
    simp only [List.getLast?_append, List.getLast?_singleton, Option.some_or, Option.some.injEq]
    constructor
    · rintro rfl
      refine ⟨by simp, fun x hx => ?_⟩
      rcases List.mem_append.1 hx with hx | hx
      · exact String.not_lt.1 (String.lt_asymm (hlast x hx))
      · obtain rfl := List.mem_singleton.1 hx
        exact String.le_refl _
    · rintro ⟨hmem, hmax⟩
      rcases List.mem_append.1 hmem with hmem | hmem
      · exact absurd (hlast e hmem) (String.not_lt.2 (hmax last (by simp)))
      · exact (List.mem_singleton.1 hmem).symm

/-- In key order, the first entry of a sort is the one of that sort with the least key. -/
theorem Ordered.find?_eq_some_iff {entries : List (String × α)} (h : Ordered entries)
    {p : String × α → Bool} {e : String × α} :
    entries.find? p = some e ↔
      (e ∈ entries ∧ p e = true) ∧ ∀ x ∈ entries, p x = true → e.1 ≤ x.1 := by
  induction entries with
  | nil => simp
  | cons a rest ih =>
    obtain ⟨ha, hrest⟩ := List.pairwise_cons.1 h
    cases hp : p a with
    | true =>
      rw [List.find?_cons_of_pos hp, Option.some.injEq]
      constructor
      · rintro rfl
        refine ⟨⟨List.mem_cons_self, hp⟩, fun x hx _ => ?_⟩
        rcases List.mem_cons.1 hx with rfl | hx
        · exact String.le_refl _
        · exact String.not_lt.1 (String.lt_asymm (ha x hx))
      · rintro ⟨⟨he, -⟩, hleast⟩
        rcases List.mem_cons.1 he with rfl | he
        · rfl
        · exact absurd (ha e he) (String.not_lt.2 (hleast a List.mem_cons_self hp))
    | false =>
      have hne : ∀ x, p x = true → x ≠ a := by
        rintro x hx rfl
        exact Bool.false_ne_true (hp.symm.trans hx)
      rw [List.find?_cons_of_neg (by simp [hp]), ih hrest]
      simp only [List.mem_cons]
      constructor
      · rintro ⟨⟨he, hpe⟩, hleast⟩
        exact ⟨⟨.inr he, hpe⟩, fun x hx hpx => hleast x (hx.resolve_left (hne x hpx)) hpx⟩
      · rintro ⟨⟨he, hpe⟩, hleast⟩
        exact ⟨⟨he.resolve_left (hne e hpe), hpe⟩, fun x hx => hleast x (.inr hx)⟩

end Table

@[simp] theorem mem_sortedSet {texts : List String} {s : String} :
    s ∈ sortedSet texts ↔ s ∈ texts := by
  rw [sortedSet, Table.ofList, Table.mem_keys_foldl_insert]
  simp [Table.mem_keys]

theorem pairwise_sortedSet (texts : List String) : (sortedSet texts).Pairwise (· < ·) :=
  Table.pairwise_keys _

theorem sortedSet_congr {l r : List String} (h : ∀ s, s ∈ l ↔ s ∈ r) :
    sortedSet l = sortedSet r :=
  (pairwise_sortedSet l).eq_of_mem_iff (pairwise_sortedSet r) fun s => by simp [h s]

end CodeImpact
