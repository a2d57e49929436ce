import CodeImpact.Proofs.Consistency
import CodeImpact.Proofs.Unique

/-!
# Types with several declarations

A type can be declared in several places under one key, by blocks that only add members as well as
by its definition. The merged type says what its declarations say in their order. The first one that
is not provisional decides the kind, the position and the node, wherever it stands among the others.
-/

namespace CodeImpact

/-- Extraction lists no supertype and no interface twice. -/
theorem ParsedFile.nodup_references_extract (f : ParsedFile) :
    ∀ x ∈ f.extract.types, x.record.supers.Nodup ∧ x.record.interfaces.Nodup := by
  obtain ⟨b, htypes⟩ := f.types_extract
  intro x hx
  rw [htypes] at hx
  obtain ⟨d, -, rfl⟩ := List.mem_map.1 hx
  exact ⟨nodup_appendUnique List.nodup_nil _, nodup_appendUnique List.nodup_nil _⟩

namespace Merger

/-! ## What the declarations of a type say -/

/-- The declarations that are not provisional. -/
def definitive (ds : List ExtractedType) : List ExtractedType :=
  ds.filter (!·.provisional)

/-- The declaration that decides what a type is: the first definitive one, or the first one if all
are provisional. -/
def deciding? (ds : List ExtractedType) : Option ExtractedType :=
  (definitive ds).head?.or ds.head?

/-- A type that merges declarations with its key. -/
structure Merges (t : TypeRecord) (ds : List ExtractedType) : Prop where
  decided : ∃ d, deciding? ds = some d ∧ t.kind = d.record.kind ∧
    t.position = d.record.position ∧ t.nodeId = d.record.nodeId
  /-- The first occurrences of what the declarations list. -/
  supers : (∀ d ∈ ds, d.record.supers.Nodup) →
    t.supers = (ds.flatMap (·.record.supers)).eraseDups
  interfaces : (∀ d ∈ ds, d.record.interfaces.Nodup) →
    t.interfaces = (ds.flatMap (·.record.interfaces)).eraseDups
  /-- The first declaration with a member gives its signature. -/
  fields : ∀ member, t.fields.get? member = ds.findSome? (·.record.fields.get? member)

variable {t : TypeRecord} {ds : List ExtractedType} {x : ExtractedType}

theorem Merges.ne_nil (h : Merges t ds) : ds ≠ [] := by
  rintro rfl
  obtain ⟨d, hd, -⟩ := h.decided
  cases hd

theorem merges_singleton (x : ExtractedType) : Merges x.record [x] where
  decided := by
    refine ⟨x, ?_, rfl, rfl, rfl⟩
    cases hx : x.provisional <;> simp [deciding?, definitive, hx]
  supers h := by simp [eraseDups_of_nodup (h x (List.mem_singleton_self x))]
  interfaces h := by simp [eraseDups_of_nodup (h x (List.mem_singleton_self x))]
  fields member := by simp

/-- A further declaration decides only if it is the first definitive one. -/
theorem deciding?_concat (h : ds ≠ []) (x : ExtractedType) :
    deciding? (ds ++ [x]) =
      if !x.provisional && ds.all (·.provisional) then some x else deciding? ds := by
  have hnone : definitive ds = [] ↔ ds.all (·.provisional) = true := by
    simp [definitive, List.filter_eq_nil_iff]
  have hdefinitive : definitive (ds ++ [x]) = definitive ds ++ definitive [x] :=
    List.filter_append ds [x]
  rw [deciding?, hdefinitive, List.head?_append_of_ne_nil ds h, deciding?]
  cases hall : ds.all (·.provisional) with
  | true =>
    rw [hnone.2 hall]
    cases hx : x.provisional <;> simp [definitive, hx]
  | false =>
    have hne : definitive ds ≠ [] := fun hnil => Bool.false_ne_true (hall.symm.trans (hnone.1 hnil))
    rw [List.head?_append_of_ne_nil _ hne]
    simp

/-- The field of the earlier declaration counts. -/
theorem get?_fields_mergeFrom (t later : TypeRecord) (member : String) :
    (t.mergeFrom later).fields.get? member =
      (t.fields.get? member).or (later.fields.get? member) :=
  Table.get?_foldl_insertNew later.fields.entries t.fields member

/-- A further declaration adds what is new, and decides only if all before it are provisional. -/
theorem Merges.concat (h : Merges t ds) (x : ExtractedType) :
    Merges ((if !x.provisional && ds.all (·.provisional) then adopt t x.record else t).mergeFrom
      x.record) (ds ++ [x]) where
  decided := by
    rw [deciding?_concat h.ne_nil]
    split
    · exact ⟨x, rfl, rfl, rfl, rfl⟩
    · exact h.decided
  supers hnodup := by
    rw [List.flatMap_append, eraseDups_append_eq_appendUnique, List.flatMap_singleton,
      ← h.supers fun d hd => hnodup d (List.mem_append_left _ hd)]
    split <;> rfl
  interfaces hnodup := by
    rw [List.flatMap_append, eraseDups_append_eq_appendUnique, List.flatMap_singleton,
      ← h.interfaces fun d hd => hnodup d (List.mem_append_left _ hd)]
    split <;> rfl
  fields member := by
    rw [get?_fields_mergeFrom, List.findSome?_append, ← h.fields member]
    split <;> simp [adopt]

/-! ## The merger -/

/-- A merger after some declarations with a key: it holds their merge, and marks the key as long as
all of them are provisional. -/
structure Holds (k : String) (m : Merger) (ds : List ExtractedType) : Prop where
  none : m.graph.types.get? k = none → ds = []
  some : ∀ t, m.graph.types.get? k = some t → Merges t ds
  marked : k ∈ m.provisional ↔ ds ≠ [] ∧ ds.all (·.provisional) = true

variable {k : String} {m : Merger}

theorem holds_empty (k : String) : Holds k {} [] where
  none _ := rfl
  some t h := by cases h
  marked := by simp

/-- One declaration: the first with its key is taken as it is. -/
theorem addType_of_none (hget : m.graph.types.get? x.record.key = none) :
    (m.addType x).graph.types = m.graph.types.insert x.record.key x.record ∧
      (m.addType x).provisional =
        if x.provisional then x.record.key :: m.provisional else m.provisional := by
  simp [addType, hget]

/-- One declaration: a later one is merged in, and decides if the earlier ones were provisional. -/
theorem addType_of_some (hget : m.graph.types.get? x.record.key = some t) :
    let adopts := !x.provisional && m.provisional.contains x.record.key
    (m.addType x).graph.types = m.graph.types.insert x.record.key
        ((if adopts then adopt t x.record else t).mergeFrom x.record) ∧
      (m.addType x).provisional =
        if adopts then m.provisional.filter (· ≠ x.record.key) else m.provisional := by
  simp [addType, hget]

/-- A declaration with another key changes neither the entry nor the mark. -/
theorem Holds.addType_of_ne (h : Holds k m ds) (hne : x.record.key ≠ k) :
    Holds k (m.addType x) ds := by
  have hkept : (m.addType x).graph.types.get? k = m.graph.types.get? k ∧
      (k ∈ (m.addType x).provisional ↔ k ∈ m.provisional) := by
    cases hget : m.graph.types.get? x.record.key with
    | none =>
      obtain ⟨htypes, hmarks⟩ := addType_of_none hget
      rw [htypes, hmarks, Table.get?_insert, if_neg hne]
      cases x.provisional <;> simp [hne.symm]
    | some t =>
      obtain ⟨htypes, hmarks⟩ := addType_of_some hget
      rw [htypes, hmarks, Table.get?_insert, if_neg hne]
      split <;> simp [hne.symm]
  exact ⟨hkept.1 ▸ h.none, hkept.1 ▸ h.some, hkept.2.trans h.marked⟩

/-- A declaration with the key is merged with those before it. -/
theorem Holds.addType (h : Holds x.record.key m ds) :
    Holds x.record.key (m.addType x) (ds ++ [x]) := by
  cases hget : m.graph.types.get? x.record.key with
  | none =>
    obtain ⟨htypes, hmarks⟩ := addType_of_none hget
    obtain rfl : ds = [] := h.none hget
    have hunmarked : x.record.key ∉ m.provisional := fun hmem => (h.marked.1 hmem).1 rfl
    refine ⟨fun hnone => ?_, fun r hr => ?_, ?_⟩
    · simp [htypes] at hnone
    · rw [htypes, Table.get?_insert, if_pos rfl] at hr
      obtain rfl := Option.some.inj hr
      exact merges_singleton x
    · rw [hmarks]
      cases hx : x.provisional <;> simp [hx, hunmarked]
  | some t =>
    have hmerges : Merges t ds := h.some t hget
    -- The mark of the key says whether all declarations so far are provisional.
    have hmark : m.provisional.contains x.record.key = ds.all (·.provisional) := by
      rw [Bool.eq_iff_iff, List.contains_iff_mem, h.marked]
      exact and_iff_right hmerges.ne_nil
    obtain ⟨htypes, hmarks⟩ := addType_of_some hget
    rw [hmark] at htypes
    refine ⟨fun hnone => ?_, fun r hr => ?_, ?_⟩
    · simp [htypes] at hnone
    · rw [htypes, Table.get?_insert, if_pos rfl] at hr
      obtain rfl := Option.some.inj hr
      exact hmerges.concat x
    · rw [hmarks, List.all_append, ← hmark]
      cases hx : x.provisional <;> by_cases hmem : x.record.key ∈ m.provisional <;>
        simp [hx, hmem]

/-- The declarations with a key, in order. -/
def declarationsOf (k : String) (xs : List ExtractedType) : List ExtractedType :=
  xs.filter (·.record.key = k)

/-- A run over declarations: the table holds what they merge to. -/
theorem Holds.foldl_addType (h : Holds k m ds) (xs : List ExtractedType) :
    Holds k (xs.foldl Merger.addType m) (ds ++ declarationsOf k xs) := by
  induction xs generalizing m ds with
  | nil => simpa [declarationsOf] using h
  | cons x xs ih =>
    by_cases hk : x.record.key = k
    · subst hk
      simpa [declarationsOf] using ih h.addType
    · simpa [declarationsOf, hk] using ih (h.addType_of_ne hk)

/-- Functions and files change nothing about types. -/
theorem Holds.addFile (h : Holds k m ds) (e : Extraction) :
    Holds k (m.addFile e) (ds ++ declarationsOf k e.types) := by
  obtain ⟨hnone, hsome, hmarked⟩ := h.foldl_addType e.types
  exact ⟨types_addFile m e ▸ hnone, types_addFile m e ▸ hsome, hmarked⟩

/-- A run over files: the table holds what all their declarations merge to. -/
theorem holds_foldl_addFile (k : String) (es : List Extraction) :
    Holds k (es.foldl Merger.addFile {}) (declarationsOf k (es.flatMap (·.types))) := by
  induction es using List.reverseRecOn with
  | nil => exact holds_empty k
  | append_singleton es e ih =>
    have hsplit : declarationsOf k ((es ++ [e]).flatMap (·.types)) =
        declarationsOf k (es.flatMap (·.types)) ++ declarationsOf k e.types := by
      simp [declarationsOf]
    rw [List.foldl_append, hsplit]
    exact ih.addFile e

theorem Holds.exists_merges (h : Holds k m ds) (hne : ds ≠ []) :
    ∃ t, m.graph.types.get? k = Option.some t ∧ Merges t ds := by
  cases hget : m.graph.types.get? k with
  | none => exact absurd (h.none hget) hne
  | some t => exact ⟨t, rfl, h.some t hget⟩

/-- Where something is definitive, provisional declarations do not decide. -/
theorem deciding?_of_definitive (h : definitive ds ≠ []) :
    deciding? ds = (definitive ds).head? := by
  obtain ⟨d, rest, hd⟩ := List.exists_cons_of_ne_nil h
  rw [deciding?, hd]
  rfl

/-- The first definitive declaration decides, whatever provisional ones there are. -/
theorem Merges.same_of_definitive {u : TypeRecord} {ds' : List ExtractedType} (ht : Merges t ds)
    (hu : Merges u ds') (hsame : definitive ds' = definitive ds) (hne : definitive ds ≠ []) :
    u.kind = t.kind ∧ u.position = t.position ∧ u.nodeId = t.nodeId := by
  obtain ⟨d, hd, hkind, hposition, hnode⟩ := ht.decided
  obtain ⟨d', hd', hkind', hposition', hnode'⟩ := hu.decided
  rw [deciding?_of_definitive hne] at hd
  rw [deciding?_of_definitive (hsame ▸ hne), hsame, hd] at hd'
  obtain rfl := Option.some.inj hd'
  exact ⟨hkind'.trans hkind.symm, hposition'.trans hposition.symm, hnode'.trans hnode.symm⟩

/-- All declarations with a key make one type, which merges them in the order of the files and then
of the declarations in a file. What it is does not change with the provisional declarations around
the definitive ones. Extraction lists no reference of a declaration twice. -/
theorem declarations_merged_in_order (es : List Extraction) (k : String)
    (h : declarationsOf k (es.flatMap (·.types)) ≠ []) :
    (∃ t, (es.foldl addFile {}).graph.types.get? k = some t ∧
      Merges t (declarationsOf k (es.flatMap (·.types))) ∧
      ∀ others : List Extraction,
        definitive (declarationsOf k (others.flatMap (·.types))) =
          definitive (declarationsOf k (es.flatMap (·.types))) →
        definitive (declarationsOf k (es.flatMap (·.types))) ≠ [] →
        ∃ u, (others.foldl addFile {}).graph.types.get? k = some u ∧
          u.kind = t.kind ∧ u.position = t.position ∧ u.nodeId = t.nodeId) ∧
    ∀ f : ParsedFile, ∀ x ∈ f.extract.types,
      x.record.supers.Nodup ∧ x.record.interfaces.Nodup := by
  refine ⟨?_, fun f => f.nodup_references_extract⟩
  obtain ⟨t, hget, ht⟩ := (holds_foldl_addFile k es).exists_merges h
  refine ⟨t, hget, ht, fun others hsame hne => ?_⟩
  have hdeclared : declarationsOf k (others.flatMap (·.types)) ≠ [] := by
    intro hnil
    rw [hnil] at hsame
    exact hne hsame.symm
  obtain ⟨u, hget', hu⟩ := (holds_foldl_addFile k others).exists_merges hdeclared
  exact ⟨u, hget', ht.same_of_definitive hu hsame hne⟩

/-- A block with a method, before its type is declared. -/
def earlyBlock : ExtractedType where
  record :=
    { (default : TypeRecord) with
      nodeId := "block", file := "/r/a.rs", scope := "P", name := "P", kind := .classType
      fields := .ofListFirst [("len", "():usize")], interfaces := ["/r/a.rs::Show"] }
  provisional := true

/-- Its declaration, with a field of the same name. -/
def enumOfBlock : ExtractedType where
  record :=
    { earlyBlock.record with
      nodeId := "enum", kind := .enumType, position := ⟨4, 0, 6, 1⟩
      fields := .ofListFirst [("len", "u8"), ("tag", "u8")]
      interfaces := ["/r/a.rs::Copy", "/r/a.rs::Show"] }
  provisional := false

/-- A second declaration, too late to decide anything. -/
def lateAlias : ExtractedType where
  record := { earlyBlock.record with nodeId := "alias", kind := .aliasType, fields := .empty }
  provisional := false

/-- Files that hold nothing but these declarations. -/
def declaring (types : List ExtractedType) : Extraction where
  file := default
  types := types
  functions := []
  calls := []
  nodes := .empty

theorem enum_decides_for_early_block :
    let es := [declaring [earlyBlock, enumOfBlock], declaring [lateAlias, earlyBlock]]
    let others := [declaring [enumOfBlock, lateAlias]]
    declarationsOf "/r/a.rs::P" (es.flatMap (·.types)) ≠ [] ∧
      ∃ t, (es.foldl addFile {}).graph.types.get? "/r/a.rs::P" = some t ∧ t.kind = .enumType ∧
        t.nodeId = "enum" ∧ t.interfaces = ["/r/a.rs::Show", "/r/a.rs::Copy"] ∧
        t.fields.get? "len" = some "():usize" ∧
        ∃ u, (others.foldl addFile {}).graph.types.get? "/r/a.rs::P" = some u ∧
          u.kind = t.kind := by
  intro es others
  have hes : declarationsOf "/r/a.rs::P" (es.flatMap (·.types)) =
      [earlyBlock, enumOfBlock, lateAlias, earlyBlock] := by decide
  have hne : declarationsOf "/r/a.rs::P" (es.flatMap (·.types)) ≠ [] := by simp [hes]
  obtain ⟨t, hget, hmerges, hothers⟩ := (declarations_merged_in_order es "/r/a.rs::P" hne).1
  obtain ⟨u, hu, hkind, -⟩ := hothers others (by decide) (by decide)
  rw [hes] at hmerges
  obtain ⟨d, hd, hdkind, -, hdnode⟩ := hmerges.decided
  obtain rfl : enumOfBlock = d := Option.some.inj hd
  refine ⟨hne, t, hget, hdkind, hdnode, ?_, ?_, u, hu, hkind⟩
  · exact hmerges.interfaces (by decide)
  · exact hmerges.fields "len"

end Merger

end CodeImpact
