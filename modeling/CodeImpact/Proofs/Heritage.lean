import CodeImpact.CodeGraph.Heritage
import CodeImpact.Proofs.Table
import CodeImpact.Proofs.Unique

/-!
# Derived types are complete

A type is listed by the types it derives from, and by no others. Several types may share a
reference; the one with the least key decides the place of the reference in a list. What a second
derivation would add is there already. The derived types of a reference are those that list it, in
key order: the loops over an index of references and over staged pairs come to the same.
-/

namespace CodeImpact.CodeGraph

variable {g : CodeGraph} {listed : TypeRecord → List String} {base : String}

/-- The references of the types that list `reference` under `listed`, in key order. -/
def derivedFrom (g : CodeGraph) (listed : TypeRecord → List String) (reference : String) :
    List String :=
  (g.types.values.filter fun t => reference ∈ listed t).map (·.reference)

/-- The type at a key lists `base` and is itself referred to as `reference`. -/
def Derives (g : CodeGraph) (listed : TypeRecord → List String) (base key reference : String) :
    Prop :=
  ∃ t, g.types.get? key = some t ∧ base ∈ listed t ∧ t.reference = reference

/-- The references of the types that derive from `base`, each once and in key order. -/
structure ListsDerived (g : CodeGraph) (listed : TypeRecord → List String) (base : String)
    (references : List String) : Prop where
  mem_iff : ∀ r, r ∈ references ↔ ∃ key, g.Derives listed base key r
  nodup : references.Nodup
  /-- Of two references, the earlier one has a deriving type before all those of the later one. -/
  ordered : references.Pairwise fun r s =>
    ∃ key, g.Derives listed base key r ∧ ∀ other, g.Derives listed base other s → key < other

/-- The entries of the types that list a reference. -/
def derivers (g : CodeGraph) (listed : TypeRecord → List String) (base : String) :
    List (String × TypeRecord) :=
  g.types.entries.filter fun e => base ∈ listed e.2

/-- A type derives from another one if it lists it. -/
theorem mem_derivers {key : String} {t : TypeRecord} :
    (key, t) ∈ g.derivers listed base ↔ g.types.get? key = some t ∧ base ∈ listed t := by
  simp [derivers]

theorem derivedFrom_eq (g : CodeGraph) (listed : TypeRecord → List String) (base : String) :
    g.derivedFrom listed base = (g.derivers listed base).map fun e => e.2.reference := by
  rw [derivedFrom, Table.values, List.filter_map, List.map_map]
  rfl

theorem mem_derivedFrom {r : String} :
    r ∈ g.derivedFrom listed base ↔ ∃ key, g.Derives listed base key r := by
  simp only [derivedFrom_eq, List.mem_map, Prod.exists, mem_derivers, Derives, and_assoc]

/-- The derived types are listed completely, in key order and once each. -/
theorem listsDerived_derivedFrom (g : CodeGraph) (listed : TypeRecord → List String)
    (base : String) : g.ListsDerived listed base (appendUnique [] (g.derivedFrom listed base)) where
  mem_iff r := by
    rw [mem_appendUnique, mem_derivedFrom]
    simp only [List.not_mem_nil, false_or]
  nodup := nodup_appendUnique List.nodup_nil _
  ordered := by
    have hkeys : (g.derivers listed base).Pairwise fun e f => e.1 < f.1 := g.types.ordered.filter _
    rw [derivedFrom_eq]
    refine (pairwise_appendUnique_map hkeys fun e => e.2.reference).imp ?_
    rintro r s ⟨⟨key, t⟩, hmem, hr, hbelow⟩
    obtain ⟨hget, hbase⟩ := mem_derivers.1 hmem
    refine ⟨key, ⟨t, hget, hbase, hr⟩, ?_⟩
    rintro other ⟨u, hu, hubase, hus⟩
    exact hbelow (other, u) (mem_derivers.2 ⟨hu, hubase⟩) hus

/-! ## Staged pairs -/

/-- The first loop: keys are collected under the references of their types, in order. -/
theorem get?_foldl_keys (entries : List (String × TypeRecord)) (index : Table (List String))
    (reference : String) :
    ((entries.foldl (fun index (key, t) =>
        index.insert t.reference ((index.get? t.reference).getD [] ++ [key])) index).get?
          reference).getD [] =
      (index.get? reference).getD [] ++
        (entries.filter fun e => e.2.reference = reference).map (·.1) := by
  induction entries generalizing index with
  | nil => simp
  | cons e entries ih =>
    rw [List.foldl_cons, ih, Table.get?_insert, List.filter_cons]
    by_cases heq : e.2.reference = reference
    · simp [heq]
    · simp [heq]

/-- The index leads from a reference to the keys of all types that have it. -/
theorem keysByReference_eq (g : CodeGraph) (reference : String) :
    (g.keysByReference.get? reference).getD [] =
      (g.types.entries.filter fun e => e.2.reference = reference).map (·.1) :=
  get?_foldl_keys g.types.entries .empty reference

/-- The second loop: a pair for each type that a reference means. -/
theorem stage_eq (index : Table (List String)) (derived : String) (pairs : List (String × String))
    (references : List String) :
    stage index derived pairs references = pairs ++
      references.flatMap fun r => ((index.get? r).getD []).map (·, derived) := by
  induction references generalizing pairs with
  | nil => simp [stage]
  | cons r references ih =>
    have hstep : stage index derived pairs (r :: references) =
        stage index derived (pairs ++ ((index.get? r).getD []).map (·, derived)) references := by
      rw [stage, List.foldl_cons, ← stage]
      cases index.get? r <;> simp
    rw [hstep, ih, List.flatMap_cons, List.append_assoc]

/-- The pairs that types stage for what they list. -/
def pairsFor (g : CodeGraph) (listed : TypeRecord → List String) : List (String × String) :=
  g.types.values.flatMap fun t => (listed t).flatMap fun r =>
    ((g.keysByReference.get? r).getD []).map (·, t.reference)

theorem foldl_add (index : Table (List String)) (types : List TypeRecord) (s : Staged) :
    types.foldl (Staged.add index) s =
      ⟨s.extendedBy ++ types.flatMap fun t => t.supers.flatMap fun r =>
          ((index.get? r).getD []).map (·, t.reference),
        s.implementedBy ++ types.flatMap fun t => t.interfaces.flatMap fun r =>
          ((index.get? r).getD []).map (·, t.reference)⟩ := by
  induction types generalizing s with
  | nil => simp
  | cons t types ih =>
    rw [List.foldl_cons, ih, Staged.add, stage_eq, stage_eq]
    simp only [List.flatMap_cons, List.append_assoc]

theorem staged_eq (g : CodeGraph) :
    g.staged = ⟨g.pairsFor (·.supers), g.pairsFor (·.interfaces)⟩ :=
  foldl_add g.keysByReference g.types.values {}

/-- The type at a key is found under its own reference, once, and under no other. -/
theorem filter_keysByReference {key : String} {t : TypeRecord} (ht : g.types.get? key = some t)
    (r : String) :
    ((g.keysByReference.get? r).getD []).filter (· = key) =
      if r = t.reference then [key] else [] := by
  have hdistinct : g.types.keys.Nodup := g.types.pairwise_keys.imp fun {a b} hlt heq => by
    rw [heq] at hlt
    exact String.lt_irrefl b hlt
  have hkeys : ((g.keysByReference.get? r).getD []).filter (· = key) =
      g.types.entries.flatMap fun e => if e.2.reference = r ∧ e.1 = key then [key] else [] := by
    rw [keysByReference_eq]
    induction g.types.entries with
    | nil => rfl
    | cons e entries ih =>
      by_cases hreference : e.2.reference = r <;> by_cases hkey : e.1 = key <;>
        simp_all
  rw [hkeys, flatMap_eq_of_distinct hdistinct (Table.mem_entries.2 ht) fun e _ hne => ?_]
  · simp [eq_comm]
  · exact if_neg fun h => hne h.2.symm

/-- What is staged for a key: each type that lists the reference of the type there, as often as it
lists it. -/
theorem filter_pairsFor {key : String} {t : TypeRecord} (ht : g.types.get? key = some t) :
    ((g.pairsFor listed).filter (·.1 = key)).map (·.2) =
      g.types.values.flatMap fun u => (listed u).flatMap fun r =>
        if r = t.reference then [u.reference] else [] := by
  rw [pairsFor, List.filter_flatMap, List.map_flatMap]
  refine List.flatMap_congr fun u _ => ?_
  rw [List.filter_flatMap, List.map_flatMap]
  refine List.flatMap_congr fun r _ => ?_
  rw [List.filter_map, List.map_map]
  change (((g.keysByReference.get? r).getD []).filter (· = key)).map (fun _ => u.reference) = _
  rw [filter_keysByReference ht]
  split <;> rfl

/-- Copies of an item are added once. -/
theorem appendUnique_copies {items : List String} {item : String} (h : ∀ b ∈ items, b = item)
    (target : List String) :
    appendUnique target items = appendUnique target (if items = [] then [] else [item]) := by
  cases items with
  | nil => rfl
  | cons b items =>
    obtain ⟨rfl, hrest⟩ := List.forall_mem_cons.1 h
    rw [if_neg (List.cons_ne_nil b items), ← List.singleton_append, appendUnique_append]
    exact appendUnique_of_subset fun c hc => by simp [hrest c hc]

/-- A type that lists another one several times is added once. -/
theorem appendUnique_staged (types : List TypeRecord) (listed : TypeRecord → List String)
    (base : String) (target : List String) :
    appendUnique target (types.flatMap fun u => (listed u).flatMap fun r =>
        if r = base then [u.reference] else []) =
      appendUnique target ((types.filter fun u => base ∈ listed u).map (·.reference)) := by
  induction types generalizing target with
  | nil => rfl
  | cons u types ih =>
    have hcopies : ∀ b ∈ (listed u).flatMap (fun r => if r = base then [u.reference] else []),
        b = u.reference := by
      intro b hb
      obtain ⟨r, -, hb⟩ := List.mem_flatMap.1 hb
      split at hb
      · exact List.mem_singleton.1 hb
      · cases hb
    have hnone : (listed u).flatMap (fun r => if r = base then [u.reference] else []) = [] ↔
        base ∉ listed u := by
      rw [List.flatMap_eq_nil_iff]
      constructor
      · intro h hmem
        simpa using h base hmem
      · intro h r hr
        exact if_neg fun heq : r = base => h (heq ▸ hr)
    have hcons : ∀ rest, appendUnique target (u.reference :: rest) =
        appendUnique (appendUnique target [u.reference]) rest :=
      appendUnique_append target [u.reference]
    rw [List.flatMap_cons, appendUnique_append, ih, appendUnique_copies hcopies, List.filter_cons]
    by_cases hlisted : base ∈ listed u
    · rw [if_neg (fun h => hnone.1 h hlisted), if_pos (decide_eq_true hlisted), List.map_cons]
      exact (hcons _).symm
    · rw [if_pos (hnone.2 hlisted), if_neg (by simpa using hlisted)]
      rfl

/-! ## Finalized types -/

/-- A loop over pairs changes each type by the pairs of its key, in their order. -/
theorem get?_foldl_appendAt (add : TypeRecord → String → TypeRecord)
    (pairs : List (String × String)) (types : Table TypeRecord) (key : String) :
    (pairs.foldl (appendAt add) types).get? key =
      (types.get? key).map fun t => ((pairs.filter (·.1 = key)).map (·.2)).foldl add t := by
  induction pairs generalizing types with
  | nil => simp
  | cons pair pairs ih =>
    obtain ⟨target, derived⟩ := pair
    rw [List.foldl_cons, ih, List.filter_cons]
    have hstep : (appendAt add types (target, derived)).get? key =
        if target = key then (types.get? key).map (add · derived) else types.get? key := by
      unfold appendAt
      by_cases heq : target = key
      · subst heq
        cases htype : types.get? target <;> simp [htype]
      · cases types.get? target <;> simp [heq]
    rw [hstep]
    by_cases heq : target = key
    · simp [heq, Function.comp_def]
    · simp [heq]

/-- A type with what is derived for it added. -/
def withDerived (g : CodeGraph) (t : TypeRecord) : TypeRecord :=
  { t with
    extendedBy := appendUnique t.extendedBy (g.derivedFrom (·.supers) t.reference)
    implementedBy := appendUnique t.implementedBy (g.derivedFrom (·.interfaces) t.reference) }

/-- Adding types one by one to a list of a type is adding them together. -/
theorem foldl_appendUnique {add : TypeRecord → String → TypeRecord}
    (withList : List String → TypeRecord)
    (hadd : ∀ items d, add (withList items) d = withList (appendUnique items [d]))
    (derived items : List String) :
    derived.foldl add (withList items) = withList (appendUnique items derived) := by
  induction derived generalizing items with
  | nil => rfl
  | cons d derived ih =>
    rw [List.foldl_cons, hadd, ih, ← appendUnique_append]
    rfl

theorem foldl_extendedBy (derived : List String) (t : TypeRecord) :
    derived.foldl (fun t d => { t with extendedBy := appendUnique t.extendedBy [d] }) t =
      { t with extendedBy := appendUnique t.extendedBy derived } :=
  foldl_appendUnique (fun items => { t with extendedBy := items }) (fun _ _ => rfl) derived
    t.extendedBy

theorem foldl_implementedBy (derived : List String) (t : TypeRecord) :
    derived.foldl (fun t d => { t with implementedBy := appendUnique t.implementedBy [d] }) t =
      { t with implementedBy := appendUnique t.implementedBy derived } :=
  foldl_appendUnique (fun items => { t with implementedBy := items }) (fun _ _ => rfl) derived
    t.implementedBy

/-- All three loops together: each type gets what derives from it. -/
theorem get?_types_finalizeRelations (g : CodeGraph) (key : String) :
    g.finalizeRelations.types.get? key = (g.types.get? key).map g.withDerived := by
  simp only [finalizeRelations, get?_foldl_appendAt, staged_eq, foldl_extendedBy,
    foldl_implementedBy, Option.map_map]
  cases ht : g.types.get? key with
  | none => rfl
  | some t =>
    simp only [Option.map_some, Function.comp_apply, filter_pairsFor ht, appendUnique_staged]
    rfl

/-- The loops add to every type what is derived for it. -/
theorem types_finalizeRelations (g : CodeGraph) :
    g.finalizeRelations.types = g.types.map fun _ t => g.withDerived t := by
  refine Table.ext_get? fun key => ?_
  rw [get?_types_finalizeRelations, Table.get?_map]

/-- What is derived for a reference only depends on fields that finalization keeps. -/
theorem derivedFrom_finalizeRelations (hkept : ∀ t, listed (g.withDerived t) = listed t)
    (base : String) : g.finalizeRelations.derivedFrom listed base = g.derivedFrom listed base := by
  have hvalues : g.finalizeRelations.types.values = g.types.values.map g.withDerived := by
    rw [types_finalizeRelations, Table.values, Table.map, List.map_map, Table.values, List.map_map]
    rfl
  rw [derivedFrom, derivedFrom, hvalues, List.filter_map, List.map_map]
  simp only [Function.comp_def, hkept]
  rfl

/-- What derives from a type is not changed by adding it. -/
theorem withDerived_idem (g : CodeGraph) (t : TypeRecord) :
    g.finalizeRelations.withDerived (g.withDerived t) = g.withDerived t := by
  have hextended : g.finalizeRelations.derivedFrom (·.supers) t.reference =
      g.derivedFrom (·.supers) t.reference := derivedFrom_finalizeRelations (fun _ => rfl) _
  have himplemented : g.finalizeRelations.derivedFrom (·.interfaces) t.reference =
      g.derivedFrom (·.interfaces) t.reference := derivedFrom_finalizeRelations (fun _ => rfl) _
  change { t with
    extendedBy := appendUnique (appendUnique t.extendedBy (g.derivedFrom (·.supers) t.reference))
      (g.finalizeRelations.derivedFrom (·.supers) t.reference)
    implementedBy :=
      appendUnique (appendUnique t.implementedBy (g.derivedFrom (·.interfaces) t.reference))
        (g.finalizeRelations.derivedFrom (·.interfaces) t.reference) } = g.withDerived t
  rw [hextended, himplemented, appendUnique_idem, appendUnique_idem]
  rfl

theorem finalizeRelations_idem (g : CodeGraph) :
    g.finalizeRelations.finalizeRelations = g.finalizeRelations := by
  have htypes : g.finalizeRelations.finalizeRelations.types = g.finalizeRelations.types := by
    refine Table.ext_get? fun key => ?_
    rw [get?_types_finalizeRelations, get?_types_finalizeRelations, Option.map_map]
    simp only [Function.comp_def, withDerived_idem]
  exact congrArg (fun types => { g with types := types }) htypes

/-- Types that list no derived types yet. -/
def Underived (g : CodeGraph) : Prop :=
  ∀ t ∈ g.types.values, t.extendedBy = [] ∧ t.implementedBy = []

instance (g : CodeGraph) : Decidable g.Underived :=
  inferInstanceAs (Decidable (∀ t ∈ g.types.values, t.extendedBy = [] ∧ t.implementedBy = []))

/-- Where nothing was derived before, the lists are exactly what derives. -/
theorem listsDerived_of_underived (h : g.Underived) {key : String} {t : TypeRecord}
    (ht : g.finalizeRelations.types.get? key = some t) :
    g.ListsDerived (·.supers) t.reference t.extendedBy ∧
      g.ListsDerived (·.interfaces) t.reference t.implementedBy := by
  rw [get?_types_finalizeRelations] at ht
  obtain ⟨u, hu, rfl⟩ := Option.map_eq_some_iff.1 ht
  obtain ⟨hextended, himplemented⟩ := h u (Table.mem_values.2 ⟨key, hu⟩)
  have hsupers := listsDerived_derivedFrom g (·.supers) u.reference
  have hinterfaces := listsDerived_derivedFrom g (·.interfaces) u.reference
  rw [← hextended] at hsupers
  rw [← himplemented] at hinterfaces
  exact ⟨hsupers, hinterfaces⟩

/-- Finalization gives every type exactly the references of the types that derive from it, once each
and in key order. It changes nothing else, and a second time nothing at all. -/
theorem finalizeRelations_complete (g : CodeGraph) :
    (g.Underived → ∀ key t, g.finalizeRelations.types.get? key = some t →
      g.ListsDerived (·.supers) t.reference t.extendedBy ∧
        g.ListsDerived (·.interfaces) t.reference t.implementedBy) ∧
    g.finalizeRelations.files = g.files ∧
    g.finalizeRelations.functions = g.functions ∧
    g.finalizeRelations.types.keys = g.types.keys ∧
    (∀ key t u, g.types.get? key = some t → g.finalizeRelations.types.get? key = some u →
      { u with extendedBy := t.extendedBy, implementedBy := t.implementedBy } = t) ∧
    g.finalizeRelations.finalizeRelations = g.finalizeRelations := by
  refine ⟨fun h key t ht => listsDerived_of_underived h ht, rfl, rfl, ?_, ?_,
    finalizeRelations_idem g⟩
  · rw [types_finalizeRelations, Table.keys_map]
  intro key t u ht hu
  rw [get?_types_finalizeRelations, ht] at hu
  obtain rfl := Option.some.inj hu
  rfl

/-- A class without members. -/
def bareClass (file name scope : String) (supers interfaces : List String) : TypeRecord where
  nodeId := ""
  file := file
  kind := .classType
  name := name
  fields := .empty
  supers := supers
  extendedBy := []
  interfaces := interfaces
  implementedBy := []
  scope := scope
  position := ⟨0, 0, 0, 0⟩

/-- A class that extends itself, implemented by two classes that share one reference. -/
def sharedReferenceGraph : CodeGraph where
  types := .ofList [("/a::I", bareClass "/a" "I" "I" ["/a::I"] []),
    ("/b::M::C", bareClass "/b" "C" "M::C" [] ["/a::I"]),
    ("/b::N::C", bareClass "/b" "C" "N::C" [] ["/a::I", "/z::J"])]

theorem sharedReferenceGraph_lists_derived :
    sharedReferenceGraph.Underived ∧
      ∃ t, sharedReferenceGraph.finalizeRelations.types.get? "/a::I" = some t ∧
        "/b::C" ∈ t.implementedBy ∧ "/a::I" ∈ t.extendedBy ∧ t.implementedBy.Nodup := by
  have hunderived : sharedReferenceGraph.Underived := by decide
  obtain ⟨hlists, -⟩ := finalizeRelations_complete sharedReferenceGraph
  obtain ⟨hsupers, hinterfaces⟩ := hlists hunderived "/a::I" _ rfl
  refine ⟨hunderived, _, rfl, (hinterfaces.mem_iff _).2 ⟨"/b::M::C", _, rfl, ?_, rfl⟩,
    (hsupers.mem_iff _).2 ⟨"/a::I", _, rfl, ?_, rfl⟩, hinterfaces.nodup⟩
  · decide
  · decide

end CodeImpact.CodeGraph
