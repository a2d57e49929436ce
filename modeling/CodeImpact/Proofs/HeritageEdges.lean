import CodeImpact.Proofs.Heritage
import CodeImpact.Proofs.Merging
import CodeImpact.Proofs.Relations
import CodeImpact.Proofs.Text

/-!
# Heritage edges

The edges of inheritance come in pairs: a type that lists the reference of another one, whatever the
form of the path in it, is joined to it in both directions.

Inheritance is derived twice. Finalization compares references as texts and lists the references of
the deriving types; the relation graph takes each reference apart, normalizes its path and joins the
keys of the types it then means. Where the paths of all references are normal already, the two agree.
-/

namespace CodeImpact

/-! ## References -/

/-- A reference whose path, if it has one, is normal. -/
def NormalReference (reference : String) : Prop :=
  ∀ file name, splitComposite? reference = some (file, name) → Path.normalize file = file

instance (reference : String) : Decidable (NormalReference reference) :=
  decidable_of_iff (∀ split ∈ splitComposite? reference, Path.normalize split.1 = split.1)
    ⟨fun h file name hsplit => h (file, name) hsplit, fun h _ hsplit => h _ _ hsplit⟩

/-- A reference with its path, if it has one, in normal form. -/
def normalizedReference (reference : String) : String :=
  match splitComposite? reference with
  | some (file, name) => compositeKey (Path.normalize file) name
  | none => reference

theorem normalizedReference_of_normal {reference : String} (h : NormalReference reference) :
    normalizedReference reference = reference := by
  unfold normalizedReference
  cases hsplit : splitComposite? reference with
  | none => rfl
  | some split =>
    obtain ⟨file, name⟩ := split
    change compositeKey (Path.normalize file) name = reference
    rw [h file name hsplit, ← (splitComposite?_eq_some_iff.1 hsplit).1]

namespace CodeGraph

variable {g : CodeGraph} {listed : TypeRecord → List String} {derived base : String}

/-- A reference means the types that are referred to by its normal form. -/
theorem typesReferredTo_eq (g : CodeGraph) (reference : String) :
    g.typesReferredTo reference = g.typesNamed (normalizedReference reference) := by
  unfold typesReferredTo normalizedReference
  cases hsplit : splitComposite? reference with
  | none =>
    change [] = g.typesNamed reference
    -- Every type is referred to by a text with a separator.
    symm
    refine List.eq_nil_iff_forall_not_mem.2 fun key hkey => ?_
    obtain ⟨t, -, ht⟩ := mem_typesNamed.1 hkey
    rw [← ht] at hsplit
    exact splitComposite?_ne_none _ _ hsplit
  | some split => rfl

/-- A normal reference means the types that are referred to by this very text. -/
theorem typesReferredTo_of_normal {reference : String} (h : NormalReference reference) :
    g.typesReferredTo reference = g.typesNamed reference := by
  rw [typesReferredTo_eq, normalizedReference_of_normal h]

/-! ## Edges -/

/-- A type lists a reference that means another type. -/
def Refers (g : CodeGraph) (listed : TypeRecord → List String) (derived base : String) : Prop :=
  ∃ t, g.types.get? derived = some t ∧ ∃ r ∈ listed t, base ∈ g.typesReferredTo r

/-- The edges of a type: two for each type that one of its references means. -/
theorem mem_heritageEdges {key : String} {t : TypeRecord} {k : EdgeKey} :
    k ∈ g.heritageEdges key t ↔
      (∃ r ∈ t.interfaces, ∃ base ∈ g.typesReferredTo r,
        k = ⟨key, base, .implements⟩ ∨ k = ⟨base, key, .implementedBy⟩) ∨
      ∃ r ∈ t.supers, ∃ base ∈ g.typesReferredTo r,
        k = ⟨key, base, .extendsType⟩ ∨ k = ⟨base, key, .extendedBy⟩ := by
  simp only [heritageEdges, heritagePair, List.mem_append, List.mem_flatMap, List.mem_cons,
    List.not_mem_nil, or_false]

theorem hasEdge_implements_iff :
    g.relations.HasEdge derived base .implements ↔ g.Refers (·.interfaces) derived base := by
  rw [hasEdge_iff (by decide), mem_proposedEdges]
  simp [Relation.pass, Proposes, mem_heritageEdges, Refers]

theorem hasEdge_implementedBy_iff :
    g.relations.HasEdge base derived .implementedBy ↔ g.Refers (·.interfaces) derived base := by
  rw [hasEdge_iff (by decide), mem_proposedEdges]
  simp [Relation.pass, Proposes, mem_heritageEdges, Refers]

theorem hasEdge_extendsType_iff :
    g.relations.HasEdge derived base .extendsType ↔ g.Refers (·.supers) derived base := by
  rw [hasEdge_iff (by decide), mem_proposedEdges]
  simp [Relation.pass, Proposes, mem_heritageEdges, Refers]

theorem hasEdge_extendedBy_iff :
    g.relations.HasEdge base derived .extendedBy ↔ g.Refers (·.supers) derived base := by
  rw [hasEdge_iff (by decide), mem_proposedEdges]
  simp [Relation.pass, Proposes, mem_heritageEdges, Refers]

/-- A type lists a reference whose normal form is the reference of another type. -/
def ListsReferenceTo (g : CodeGraph) (listed : TypeRecord → List String) (derived base : String) :
    Prop :=
  ∃ t u, g.types.get? derived = some t ∧ g.types.get? base = some u ∧
    ∃ r ∈ listed t, normalizedReference r = u.reference

/-- A type refers to another one iff it lists a reference with its path and name. -/
theorem refers_iff_listsReferenceTo :
    g.Refers listed derived base ↔ g.ListsReferenceTo listed derived base := by
  simp only [Refers, ListsReferenceTo, typesReferredTo_eq, mem_typesNamed]
  constructor
  · rintro ⟨t, ht, r, hr, u, hu, hreference⟩
    exact ⟨t, u, ht, hu, r, hr, hreference.symm⟩
  · rintro ⟨t, u, ht, hu, r, hr, hreference⟩
    exact ⟨t, ht, r, hr, u, hu, hreference.symm⟩

/-- The edges of inheritance come in pairs, one in each direction, and join a type to exactly those
whose reference it lists, up to the form of the path. -/
theorem heritage_edges_paired (g : CodeGraph) (derived base : String) :
    ((g.relations.HasEdge derived base .implements ↔
        g.relations.HasEdge base derived .implementedBy) ∧
      (g.relations.HasEdge derived base .implements ↔
        g.ListsReferenceTo (·.interfaces) derived base)) ∧
    (g.relations.HasEdge derived base .extendsType ↔
        g.relations.HasEdge base derived .extendedBy) ∧
      (g.relations.HasEdge derived base .extendsType ↔
        g.ListsReferenceTo (·.supers) derived base) := by
  refine ⟨⟨?_, ?_⟩, ?_, ?_⟩
  · rw [hasEdge_implements_iff, hasEdge_implementedBy_iff]
  · rw [hasEdge_implements_iff, refers_iff_listsReferenceTo]
  · rw [hasEdge_extendsType_iff, hasEdge_extendedBy_iff]
  · rw [hasEdge_extendsType_iff, refers_iff_listsReferenceTo]

/-! ## Agreement -/

/-- Every reference of a type has a normal path. -/
def NormalReferences (g : CodeGraph) : Prop :=
  ∀ t ∈ g.types.values, ∀ r ∈ t.supers ++ t.interfaces, NormalReference r

/-- With normal references, a type means those whose reference it lists. -/
theorem refers_iff_derives (h : ∀ t ∈ g.types.values, ∀ r ∈ listed t, NormalReference r)
    {u : TypeRecord} (hu : g.types.get? base = some u) (r : String) :
    (g.Refers listed derived base ∧ ∃ t, g.types.get? derived = some t ∧ t.reference = r) ↔
      g.Derives listed u.reference derived r := by
  constructor
  · rintro ⟨⟨t, ht, s, hs, hbase⟩, t', ht', hr⟩
    obtain rfl := Option.some.inj (ht.symm.trans ht')
    rw [typesReferredTo_of_normal (h t (Table.mem_values.2 ⟨_, ht⟩) s hs)] at hbase
    obtain ⟨u', hu', rfl⟩ := mem_typesNamed.1 hbase
    obtain rfl := Option.some.inj (hu.symm.trans hu')
    exact ⟨t, ht, hs, hr⟩
  · rintro ⟨t, ht, hlisted, hr⟩
    refine ⟨⟨t, ht, u.reference, hlisted, ?_⟩, t, ht, hr⟩
    rw [typesReferredTo_of_normal (h t (Table.mem_values.2 ⟨_, ht⟩) _ hlisted)]
    exact mem_typesNamed.2 ⟨u, hu, rfl⟩

/-- Finalization keeps what types list. -/
theorem derives_finalizeRelations (hkept : ∀ t, listed (g.withDerived t) = listed t)
    {key r : String} :
    g.finalizeRelations.Derives listed base key r ↔ g.Derives listed base key r := by
  simp only [Derives, get?_types_finalizeRelations, Option.map_eq_some_iff]
  constructor
  · rintro ⟨t, ⟨u, hu, rfl⟩, hlisted, hr⟩
    exact ⟨u, hu, hkept u ▸ hlisted, hr⟩
  · rintro ⟨u, hu, hlisted, hr⟩
    exact ⟨_, ⟨u, hu, rfl⟩, (hkept u).symm ▸ hlisted, hr⟩

theorem NormalReferences.finalizeRelations (h : g.NormalReferences) :
    g.finalizeRelations.NormalReferences := by
  intro t ht
  obtain ⟨key, hkey⟩ := Table.mem_values.1 ht
  rw [get?_types_finalizeRelations] at hkey
  obtain ⟨u, hu, rfl⟩ := Option.map_eq_some_iff.1 hkey
  exact h u (Table.mem_values.2 ⟨key, hu⟩)

/-- The references of the types that an edge leads to are those that derive from the type, if the
edges are those to the types that refer to it. -/
theorem exists_edge_to_iff_derives {kind : Relation}
    (hnormal : ∀ t ∈ g.types.values, ∀ r ∈ listed t, NormalReference r)
    (hedge : ∀ derived base, g.relations.HasEdge base derived kind ↔ g.Refers listed derived base)
    {u : TypeRecord} (hu : g.types.get? base = some u) (r : String) :
    (∃ other t, g.types.get? other = some t ∧ t.reference = r ∧
      g.relations.HasEdge base other kind) ↔ ∃ other, g.Derives listed u.reference other r := by
  refine exists_congr fun other => ?_
  rw [← refers_iff_derives hnormal hu, hedge]
  constructor
  · rintro ⟨t, ht, hr, hrefers⟩
    exact ⟨hrefers, t, ht, hr⟩
  · rintro ⟨hrefers, t, ht, hr⟩
    exact ⟨t, ht, hr, hrefers⟩

/-- The two derivations agree: after finalization, the references that a type lists as implementing
or extending it are those of the types that its edges lead to. Nothing is asked of the paths of the
types themselves. -/
theorem derivations_agree (hunderived : g.Underived) (hnormal : g.NormalReferences) {key : String}
    {t : TypeRecord} (ht : g.finalizeRelations.types.get? key = some t) (r : String) :
    ((∃ other u, g.finalizeRelations.types.get? other = some u ∧ u.reference = r ∧
        g.finalizeRelations.relations.HasEdge key other .implementedBy) ↔ r ∈ t.implementedBy) ∧
    ((∃ other u, g.finalizeRelations.types.get? other = some u ∧ u.reference = r ∧
        g.finalizeRelations.relations.HasEdge key other .extendedBy) ↔ r ∈ t.extendedBy) := by
  obtain ⟨hextended, himplemented⟩ := listsDerived_of_underived hunderived ht
  have hnormal' := hnormal.finalizeRelations
  rw [himplemented.mem_iff, hextended.mem_iff]
  constructor
  · have hinterfaces := fun u hu s hs => hnormal' u hu s (List.mem_append_right _ hs)
    rw [exists_edge_to_iff_derives hinterfaces (fun _ _ => hasEdge_implementedBy_iff) ht]
    exact exists_congr fun _ => derives_finalizeRelations fun _ => rfl
  · have hsupers := fun u hu s hs => hnormal' u hu s (List.mem_append_left _ hs)
    rw [exists_edge_to_iff_derives hsupers (fun _ _ => hasEdge_extendedBy_iff) ht]
    exact exists_congr fun _ => derives_finalizeRelations fun _ => rfl

/-- Of two classes that share a reference, one edge leads to each. -/
theorem sharedReferenceGraph_derivations_agree :
    sharedReferenceGraph.Underived ∧ sharedReferenceGraph.NormalReferences ∧
      ∃ other u, sharedReferenceGraph.finalizeRelations.types.get? other = some u ∧
        u.reference = "/b::C" ∧
        sharedReferenceGraph.finalizeRelations.relations.HasEdge "/a::I" other .implementedBy := by
  have hunderived : sharedReferenceGraph.Underived := by decide
  have hnormal : sharedReferenceGraph.NormalReferences := by unfold NormalReferences; decide
  have hbase : sharedReferenceGraph.finalizeRelations.types.get? "/a::I" =
      some (sharedReferenceGraph.withDerived (bareClass "/a" "I" "I" ["/a::I"] [])) := rfl
  exact ⟨hunderived, hnormal, (derivations_agree hunderived hnormal hbase "/b::C").1.2 (by decide)⟩

end CodeGraph

end CodeImpact
