import CodeImpact.Proofs.Table
import CodeImpact.Proofs.Unique
import CodeImpact.RelationGraph.Build
import Mathlib.Data.String.Basic
import Mathlib.Order.Bounds.Basic

/-!
# Well-formed relation graphs

Every key is a node once, every edge joins two nodes and knows their files, and no edge is there
twice. What an edge may join depends on its kind: each pass takes its keys from tables of the right
sort.
-/

namespace CodeImpact

/-- The passes that propose edges. -/
inductive Pass
  | heritage
  | methods
  | imports
  | calls
  deriving DecidableEq, Repr

/-- The pass that proposes the edges of a kind. -/
def Relation.pass : Relation → Pass
  | .implements | .implementedBy | .extendsType | .extendedBy => .heritage
  | .hasMethod => .methods
  | .imports => .imports
  | .calls | .callsImplementation => .calls

/-- There is an edge of this kind between the two identifiers. -/
def RelationGraph.HasEdge (g : RelationGraph) (source target : String) (kind : Relation) : Prop :=
  ∃ e ∈ g.edges, e.source = source ∧ e.target = target ∧ e.kind = kind

instance (g : RelationGraph) (source target : String) (kind : Relation) :
    Decidable (g.HasEdge source target kind) :=
  inferInstanceAs
    (Decidable (∃ e ∈ g.edges, e.source = source ∧ e.target = target ∧ e.kind = kind))

namespace CodeGraph

variable {g : CodeGraph}

/-! ## Nodes -/

/-- The identifiers of the kept nodes are those of all nodes, each at its first place. -/
theorem ids_distinctNodes (nodes : List GraphNode) :
    (distinctNodes nodes).map (·.id) = appendUnique [] (nodes.map (·.id)) := by
  induction nodes using List.reverseRecOn with
  | nil => rfl
  | append_singleton nodes n ih =>
    rw [List.map_append, List.map_singleton, appendUnique_append, appendUnique_singleton, ← ih,
      distinctNodes, List.foldl_append, ← distinctNodes, List.foldl_cons, List.foldl_nil]
    by_cases hn : n.id ∈ (distinctNodes nodes).map (·.id)
    · rw [if_pos hn, if_pos (any_eq_true_iff_mem_map.2 hn)]
    · rw [if_neg hn, if_neg (mt any_eq_true_iff_mem_map.1 hn), List.map_append, List.map_singleton]

/-- The nodes are the keys of the three tables, each once. -/
theorem ids_graphNodes (g : CodeGraph) :
    g.graphNodes.map (·.id) =
      appendUnique [] (g.files.keys ++ g.types.keys ++ g.functions.keys) := by
  rw [graphNodes, ids_distinctNodes]
  simp [Table.keys, fileNode, typeNode, functionNode, Function.comp_def]

theorem nodup_ids_graphNodes (g : CodeGraph) : (g.graphNodes.map (·.id)).Nodup := by
  rw [ids_graphNodes]
  exact nodup_appendUnique List.nodup_nil _

theorem mem_ids_graphNodes {x : String} : x ∈ g.graphNodes.map (·.id) ↔
    x ∈ g.files.keys ∨ x ∈ g.types.keys ∨ x ∈ g.functions.keys := by
  rw [ids_graphNodes]
  simp

/-! ## Look-ups answer with keys -/

theorem mem_typesNamed {reference key : String} :
    key ∈ g.typesNamed reference ↔ ∃ t, g.types.get? key = some t ∧ t.reference = reference := by
  simp [typesNamed]

theorem typesNamed_subset (g : CodeGraph) (reference : String) :
    g.typesNamed reference ⊆ g.types.keys := by
  intro key h
  obtain ⟨t, ht, -⟩ := mem_typesNamed.1 h
  exact Table.mem_keys.2 ⟨t, ht⟩

theorem typesReferredTo_subset (g : CodeGraph) (reference : String) :
    g.typesReferredTo reference ⊆ g.types.keys := by
  unfold typesReferredTo
  split
  · exact typesNamed_subset g _
  · exact List.nil_subset _

/-- The keys of the functions of a file with a display name. -/
def functionsNamed (g : CodeGraph) (file name : String) : Set String :=
  {key | ∃ f, g.functions.get? key = some f ∧ f.file = file ∧ f.displayName = name}

/-- The function found by name is the one with the least key. -/
theorem functionNamed?_eq_some_iff {file name key : String} :
    g.functionNamed? file name = some key ↔ IsLeast (g.functionsNamed file name) key := by
  rw [functionNamed?, Option.map_eq_some_iff]
  constructor
  · rintro ⟨⟨k, f⟩, hfind, rfl⟩
    obtain ⟨⟨hmem, hmatch⟩, hleast⟩ := g.functions.ordered.find?_eq_some_iff.1 hfind
    refine ⟨⟨f, Table.mem_entries.1 hmem, by simpa using hmatch⟩, ?_⟩
    rintro other ⟨f', hf', hfile, hname⟩
    exact hleast (other, f') (Table.mem_entries.2 hf') (by simp [hfile, hname])
  · rintro ⟨⟨f, hf, hfile, hname⟩, hleast⟩
    have hmem : (key, f) ∈ g.functions.entries := Table.mem_entries.2 hf
    refine ⟨(key, f), g.functions.ordered.find?_eq_some_iff.2 ⟨⟨hmem, ?_⟩, ?_⟩, rfl⟩
    · simp [hfile, hname]
    · rintro ⟨other, f'⟩ hother hmatch
      exact hleast ⟨f', Table.mem_entries.1 hother, by simpa using hmatch⟩

theorem functionNamed?_eq_none_iff {file name : String} :
    g.functionNamed? file name = none ↔ g.functionsNamed file name = ∅ := by
  simp [functionNamed?, functionsNamed, Set.eq_empty_iff_forall_notMem]

theorem functionNamed?_mem {file name key : String} (h : g.functionNamed? file name = some key) :
    key ∈ g.functions.keys := by
  obtain ⟨⟨f, hf, -⟩, -⟩ := functionNamed?_eq_some_iff.1 h
  exact Table.mem_keys.2 ⟨f, hf⟩

/-- The target of a call is a function of the graph. -/
theorem callTarget?_mem {function : Option FunctionRecord} {call : CallRecord} {key : String}
    (h : g.callTarget? function call = some key) : key ∈ g.functions.keys := by
  simp only [callTarget?, Option.or_eq_some_iff, Option.bind_eq_some_iff] at h
  rcases h with ⟨_, -, h⟩ | ⟨-, ⟨_, -, h⟩ | ⟨-, h | ⟨-, _, -, _, -, h⟩⟩⟩
  all_goals exact functionNamed?_mem h

theorem methodOf?_mem {owner : TypeRecord} {name key : String}
    (h : g.methodOf? owner name = some key) : key ∈ g.functions.keys := by
  simp only [methodOf?, Option.ite_none_right_eq_some, Option.some.injEq] at h
  obtain ⟨hcontains, rfl⟩ := h
  exact Table.contains_iff.1 hcontains

/-- An implementation is a method, with the name of the target, of a type that implements the
interface of the target. -/
theorem implementation?_eq_some {target key : String} (h : g.implementation? target = some key) :
    ∃ method owner, g.functions.get? target = some method ∧
      (ownerKey? method).bind g.types.get? = some owner ∧ owner.kind = .interfaceType ∧
      ∃ reference ∈ owner.implementedBy, ∃ k ∈ g.typesReferredTo reference, ∃ t,
        g.types.get? k = some t ∧ g.methodOf? t method.name = some key := by
  simp only [implementation?, Option.bind_eq_bind, Option.bind_eq_some_iff,
    Option.ite_none_right_eq_some] at h
  obtain ⟨method, hmethod, owner, howner, hkind, hfound⟩ := h
  obtain ⟨k, hk, hmethodOf⟩ := List.exists_of_findSome?_eq_some hfound
  obtain ⟨t, ht, hkey⟩ := Option.bind_eq_some_iff.1 hmethodOf
  obtain ⟨reference, hreference, hk⟩ := List.mem_flatMap.1 (mem_sortedSet.1 hk)
  exact ⟨method, owner, hmethod, Option.bind_eq_some_iff.2 howner, hkind, reference, hreference, k,
    hk, t, ht, hkey⟩

theorem implementation?_mem {target key : String} (h : g.implementation? target = some key) :
    key ∈ g.functions.keys := by
  obtain ⟨_, _, -, -, -, _, -, _, -, _, -, hkey⟩ := implementation?_eq_some h
  exact methodOf?_mem hkey

/-! ## What each pass proposes -/

/-- The sorts of keys that an edge of a kind joins. -/
def Fits (g : CodeGraph) (source target : String) : Relation → Prop
  | .implements | .implementedBy | .extendsType | .extendedBy =>
    source ∈ g.types.keys ∧ target ∈ g.types.keys
  | .hasMethod => source ∈ g.types.keys ∧ target ∈ g.functions.keys
  | .imports => source ∈ g.files.keys
  | .calls | .callsImplementation =>
    (source ∈ g.functions.keys ∨ source ∈ g.files.keys) ∧ target ∈ g.functions.keys

/-- Heritage joins types. -/
theorem fits_heritageEdges {key : String} (hkey : key ∈ g.types.keys) (t : TypeRecord) :
    ∀ k ∈ g.heritageEdges key t, g.Fits k.source k.target k.kind := by
  intro k hk
  simp only [heritageEdges, heritagePair, List.mem_append, List.mem_flatMap, List.mem_cons,
    List.not_mem_nil, or_false] at hk
  rcases hk with ⟨r, -, target, htarget, rfl | rfl⟩ | ⟨r, -, target, htarget, rfl | rfl⟩
  · exact ⟨hkey, typesReferredTo_subset g r htarget⟩
  · exact ⟨typesReferredTo_subset g r htarget, hkey⟩
  · exact ⟨hkey, typesReferredTo_subset g r htarget⟩
  · exact ⟨typesReferredTo_subset g r htarget, hkey⟩

/-- Methods join types and functions. -/
theorem fits_methodEdges {key : String} (hkey : key ∈ g.functions.keys) (f : FunctionRecord) :
    ∀ k ∈ g.methodEdges key f, g.Fits k.source k.target k.kind := by
  intro k hk
  simp only [methodEdges, List.mem_map, Option.mem_toList, Option.filter_eq_some_iff] at hk
  obtain ⟨owner, ⟨-, howner⟩, rfl⟩ := hk
  exact ⟨Table.contains_iff.1 howner, hkey⟩

/-- Imports join files with what they name. -/
theorem fits_importEdges {path : String} (hpath : path ∈ g.files.keys) (isNode : String → Bool)
    (r : ImportRecord) : ∀ k ∈ g.importEdges isNode path r, g.Fits k.source k.target k.kind := by
  have himports : ∀ target, g.Fits path target .imports := fun _ => hpath
  intro k hk
  simp only [importEdges] at hk
  split at hk
  · cases hk
  · split at hk
    · obtain rfl := List.mem_singleton.1 hk
      exact himports _
    · obtain ⟨name, -, rfl⟩ := List.mem_map.1 hk
      exact himports _

/-- Calls join functions and files with functions. -/
theorem fits_callEdges {source : String}
    (hsource : source ∈ g.functions.keys ∨ source ∈ g.files.keys)
    (function : Option FunctionRecord) (call : CallRecord) :
    ∀ k ∈ g.callEdges source function call, g.Fits k.source k.target k.kind := by
  intro k hk
  unfold callEdges at hk
  split at hk
  · cases hk
  next target htarget =>
    rcases List.mem_cons.1 hk with rfl | hk
    · exact ⟨hsource, callTarget?_mem htarget⟩
    · obtain ⟨m, hm, rfl⟩ := List.mem_map.1 hk
      exact ⟨hsource, implementation?_mem (Option.mem_toList.1 hm)⟩

theorem fits_proposedEdges (isNode : String → Bool) :
    ∀ k ∈ g.proposedEdges isNode, g.Fits k.source k.target k.kind := by
  intro k hk
  simp only [proposedEdges, List.mem_append, List.mem_flatMap, Prod.exists, Table.mem_entries] at hk
  rcases hk with (((⟨key, t, ht, hk⟩ | ⟨key, f, hf, hk⟩) | ⟨path, f, hf, r, -, hk⟩) |
    ⟨key, f, hf, call, -, hk⟩) | ⟨path, f, hf, call, -, hk⟩
  · exact fits_heritageEdges (Table.mem_keys.2 ⟨t, ht⟩) t k hk
  · exact fits_methodEdges (Table.mem_keys.2 ⟨f, hf⟩) f k hk
  · exact fits_importEdges (Table.mem_keys.2 ⟨f, hf⟩) isNode r k hk
  · exact fits_callEdges (.inl (Table.mem_keys.2 ⟨f, hf⟩)) (some f) call k hk
  · exact fits_callEdges (.inr (Table.mem_keys.2 ⟨f, hf⟩)) none call k hk

/-! ## Edges -/

/-- Whether an identifier belongs to a node. -/
def isNode (g : CodeGraph) (x : String) : Bool :=
  g.graphNodes.any (·.id = x)

theorem isNode_iff {x : String} : g.isNode x = true ↔ x ∈ g.graphNodes.map (·.id) :=
  any_eq_true_iff_mem_map

/-- An edge has the paths of its ends. -/
theorem edgeBetween_eq_some {nodes : List GraphNode} {k : EdgeKey} {e : GraphEdge}
    (h : edgeBetween nodes k = some e) :
    ∃ s ∈ nodes, ∃ t ∈ nodes, s.id = k.source ∧ t.id = k.target ∧
      e = ⟨k.source, k.target, k.kind, s.filePath, t.filePath⟩ := by
  simp only [edgeBetween, Option.bind_eq_bind, Option.bind_eq_some_iff, Option.some.injEq] at h
  obtain ⟨s, hs, t, ht, rfl⟩ := h
  refine ⟨s, List.mem_of_find?_eq_some hs, t, List.mem_of_find?_eq_some ht, ?_, ?_, rfl⟩
  · simpa using List.find?_some hs
  · simpa using List.find?_some ht

theorem exists_edgeBetween {nodes : List GraphNode} {k : EdgeKey}
    (hsource : k.source ∈ nodes.map (·.id)) (htarget : k.target ∈ nodes.map (·.id)) :
    ∃ e, edgeBetween nodes k = some e := by
  have hfind : ∀ x ∈ nodes.map (·.id), ∃ n, nodes.find? (·.id = x) = some n := by
    intro x hx
    rw [← Option.isSome_iff_exists, List.find?_isSome]
    simpa using hx
  obtain ⟨s, hs⟩ := hfind _ hsource
  obtain ⟨t, ht⟩ := hfind _ htarget
  refine ⟨⟨k.source, k.target, k.kind, s.filePath, t.filePath⟩, ?_⟩
  rw [edgeBetween, hs, ht]
  rfl

/-- The proposed edges that join nodes, each once. -/
def keptEdges (g : CodeGraph) : List EdgeKey :=
  appendUnique [] ((g.proposedEdges g.isNode).filter fun k =>
    g.isNode k.source && g.isNode k.target)

/-- Proposed edges are kept if both ends are nodes. -/
theorem mem_keptEdges {k : EdgeKey} : k ∈ g.keptEdges ↔ k ∈ g.proposedEdges g.isNode ∧
    k.source ∈ g.graphNodes.map (·.id) ∧ k.target ∈ g.graphNodes.map (·.id) := by
  rw [keptEdges, mem_appendUnique, List.mem_filter, Bool.and_eq_true, isNode_iff, isNode_iff]
  simp only [List.not_mem_nil, false_or]

/-- The edges of the graph are the kept ones, with the paths of their ends. -/
theorem edges_relations (g : CodeGraph) :
    g.relations.edges = g.keptEdges.filterMap (edgeBetween g.graphNodes) :=
  rfl

/-- An edge is there if a pass proposes it and its ends are nodes, and only then. -/
theorem exists_edge_iff {k : EdgeKey} :
    (∃ e ∈ g.relations.edges, (⟨e.source, e.target, e.kind⟩ : EdgeKey) = k) ↔
      k ∈ g.proposedEdges g.isNode ∧
        k.source ∈ g.graphNodes.map (·.id) ∧ k.target ∈ g.graphNodes.map (·.id) := by
  rw [← mem_keptEdges, edges_relations]
  constructor
  · rintro ⟨e, he, rfl⟩
    obtain ⟨k, hk, hedge⟩ := List.mem_filterMap.1 he
    obtain ⟨_, -, _, -, -, -, rfl⟩ := edgeBetween_eq_some hedge
    exact hk
  · intro hk
    obtain ⟨-, hsource, htarget⟩ := mem_keptEdges.1 hk
    obtain ⟨e, he⟩ := exists_edgeBetween hsource htarget
    refine ⟨e, List.mem_filterMap.2 ⟨k, hk, he⟩, ?_⟩
    obtain ⟨_, -, _, -, -, -, rfl⟩ := edgeBetween_eq_some he
    rfl

/-! ## Passes -/

theorem pass_of_mem_heritageEdges {key : String} {t : TypeRecord} {k : EdgeKey}
    (hk : k ∈ g.heritageEdges key t) : k.kind.pass = .heritage := by
  simp only [heritageEdges, heritagePair, List.mem_append, List.mem_flatMap, List.mem_cons,
    List.not_mem_nil, or_false] at hk
  rcases hk with ⟨_, -, _, -, rfl | rfl⟩ | ⟨_, -, _, -, rfl | rfl⟩ <;> rfl

theorem pass_of_mem_methodEdges {key : String} {f : FunctionRecord} {k : EdgeKey}
    (hk : k ∈ g.methodEdges key f) : k.kind.pass = .methods := by
  obtain ⟨owner, -, rfl⟩ := List.mem_map.1 hk
  rfl

theorem pass_of_mem_importEdges {isNode : String → Bool} {path : String} {r : ImportRecord}
    {k : EdgeKey} (hk : k ∈ g.importEdges isNode path r) : k.kind.pass = .imports := by
  simp only [importEdges] at hk
  split at hk
  · cases hk
  · split at hk
    · rw [List.mem_singleton.1 hk]
      rfl
    · obtain ⟨name, -, rfl⟩ := List.mem_map.1 hk
      rfl

theorem pass_of_mem_callEdges {source : String} {function : Option FunctionRecord}
    {call : CallRecord} {k : EdgeKey} (hk : k ∈ g.callEdges source function call) :
    k.kind.pass = .calls := by
  unfold callEdges at hk
  split at hk
  · cases hk
  · rcases List.mem_cons.1 hk with rfl | hk
    · rfl
    · obtain ⟨m, -, rfl⟩ := List.mem_map.1 hk
      rfl

/-- A call of a function, or one at the top level of a file, with what it starts from. -/
def CallFrom (g : CodeGraph) (source : String) (function : Option FunctionRecord)
    (call : CallRecord) : Prop :=
  (∃ f, g.functions.get? source = some f ∧ function = some f ∧ call ∈ f.calls) ∨
    ∃ f, g.files.get? source = some f ∧ function = none ∧ call ∈ f.topLevelCalls

/-- What a pass proposes: the edges of a type, of a function, of an import or of a call. -/
def Proposes (g : CodeGraph) (isNode : String → Bool) (k : EdgeKey) : Pass → Prop
  | .heritage => ∃ key t, g.types.get? key = some t ∧ k ∈ g.heritageEdges key t
  | .methods => ∃ key f, g.functions.get? key = some f ∧ k ∈ g.methodEdges key f
  | .imports =>
    ∃ path f, g.files.get? path = some f ∧ ∃ r ∈ f.imports, k ∈ g.importEdges isNode path r
  | .calls => ∃ source function call, g.CallFrom source function call ∧
    k ∈ g.callEdges source function call

/-- The kind of an edge tells which pass proposed it. -/
theorem Proposes.pass_eq {isNode : String → Bool} {k : EdgeKey} {p : Pass}
    (h : g.Proposes isNode k p) : k.kind.pass = p := by
  cases p with
  | heritage =>
    obtain ⟨_, _, -, hk⟩ := h
    exact pass_of_mem_heritageEdges hk
  | methods =>
    obtain ⟨_, _, -, hk⟩ := h
    exact pass_of_mem_methodEdges hk
  | imports =>
    obtain ⟨_, _, -, _, -, hk⟩ := h
    exact pass_of_mem_importEdges hk
  | calls =>
    obtain ⟨_, _, _, -, hk⟩ := h
    exact pass_of_mem_callEdges hk

/-- The proposed edges are those of the passes. -/
theorem exists_proposes_iff {isNode : String → Bool} {k : EdgeKey} :
    (∃ p, g.Proposes isNode k p) ↔ k ∈ g.proposedEdges isNode := by
  simp only [proposedEdges, List.mem_append, List.mem_flatMap, Prod.exists, Table.mem_entries]
  constructor
  · rintro ⟨_ | _ | _ | _, h⟩
    · exact .inl (.inl (.inl (.inl h)))
    · exact .inl (.inl (.inl (.inr h)))
    · exact .inl (.inl (.inr h))
    · obtain ⟨source, function, call, ⟨f, hf, rfl, hcall⟩ | ⟨f, hf, rfl, hcall⟩, hk⟩ := h
      · exact .inl (.inr ⟨source, f, hf, call, hcall, hk⟩)
      · exact .inr ⟨source, f, hf, call, hcall, hk⟩
  · rintro ((((h | h) | h) | ⟨source, f, hf, call, hcall, hk⟩) | ⟨source, f, hf, call, hcall, hk⟩)
    · exact ⟨.heritage, h⟩
    · exact ⟨.methods, h⟩
    · exact ⟨.imports, h⟩
    · exact ⟨.calls, source, some f, call, .inl ⟨f, hf, rfl, hcall⟩, hk⟩
    · exact ⟨.calls, source, none, call, .inr ⟨f, hf, rfl, hcall⟩, hk⟩

/-- Every edge comes from the pass of its kind. -/
theorem mem_proposedEdges {isNode : String → Bool} {k : EdgeKey} :
    k ∈ g.proposedEdges isNode ↔ g.Proposes isNode k k.kind.pass := by
  rw [← exists_proposes_iff]
  constructor
  · rintro ⟨p, h⟩
    exact h.pass_eq ▸ h
  · exact fun h => ⟨_, h⟩

/-- The ends of an edge that is no import are nodes, because they are keys. -/
theorem hasEdge_iff {source target : String} {kind : Relation} (h : kind.pass ≠ .imports) :
    g.relations.HasEdge source target kind ↔ ⟨source, target, kind⟩ ∈ g.proposedEdges g.isNode := by
  have hkey : g.relations.HasEdge source target kind ↔ ∃ e ∈ g.relations.edges,
      (⟨e.source, e.target, e.kind⟩ : EdgeKey) = ⟨source, target, kind⟩ := by
    simp only [RelationGraph.HasEdge, EdgeKey.mk.injEq]
  rw [hkey, exists_edge_iff, mem_ids_graphNodes, mem_ids_graphNodes]
  refine ⟨fun hedge => hedge.1, fun hmem => ⟨hmem, ?_⟩⟩
  have hfits := fits_proposedEdges _ _ hmem
  cases kind with
  | imports => exact absurd rfl h
  | calls | callsImplementation => exact ⟨hfits.1.symm.imp_right .inr, .inr (.inr hfits.2)⟩
  | hasMethod => exact ⟨.inr (.inl hfits.1), .inr (.inr hfits.2)⟩
  | implements | implementedBy | extendsType | extendedBy =>
    exact ⟨.inr (.inl hfits.1), .inr (.inl hfits.2)⟩

/-! ## The whole graph -/

/-- What holds of the relation graph of a code graph. -/
structure WellFormed (g : CodeGraph) (r : RelationGraph) : Prop where
  distinct : (r.nodes.map (·.id)).Nodup
  ids : ∀ x, x ∈ r.nodes.map (·.id) ↔
    x ∈ g.files.keys ∨ x ∈ g.types.keys ∨ x ∈ g.functions.keys
  ends : ∀ e ∈ r.edges, ∃ s ∈ r.nodes, ∃ t ∈ r.nodes, s.id = e.source ∧ t.id = e.target ∧
    e.sourcePath = s.filePath ∧ e.targetPath = t.filePath
  unique : (r.edges.map fun e => (⟨e.source, e.target, e.kind⟩ : EdgeKey)).Nodup
  fits : ∀ e ∈ r.edges, g.Fits e.source e.target e.kind
  /-- No edge that a pass proposes between two nodes is left out. -/
  complete : ∀ k ∈ g.proposedEdges g.isNode, k.source ∈ r.nodes.map (·.id) →
    k.target ∈ r.nodes.map (·.id) → k ∈ r.edges.map fun e => ⟨e.source, e.target, e.kind⟩

/-- The relation graph of every code graph is well formed. -/
theorem relations_wellFormed (g : CodeGraph) : WellFormed g g.relations where
  distinct := nodup_ids_graphNodes g
  ids _ := mem_ids_graphNodes
  ends e he := by
    rw [edges_relations] at he
    obtain ⟨k, -, hk⟩ := List.mem_filterMap.1 he
    obtain ⟨s, hs, t, ht, hsource, htarget, rfl⟩ := edgeBetween_eq_some hk
    exact ⟨s, hs, t, ht, hsource, htarget, rfl, rfl⟩
  unique := by
    have hkept : g.keptEdges.Nodup := nodup_appendUnique List.nodup_nil _
    rw [edges_relations]
    refine List.pairwise_map.2 (List.Pairwise.filterMap _ ?_ hkept)
    -- An edge has the ends and the kind of the key it is made from.
    intro k l hne e he f hf heq
    obtain ⟨_, -, _, -, -, -, rfl⟩ := edgeBetween_eq_some he
    obtain ⟨_, -, _, -, -, -, rfl⟩ := edgeBetween_eq_some hf
    exact hne heq
  fits e he := fits_proposedEdges _ _ (exists_edge_iff.1 ⟨e, he, rfl⟩).1
  complete k hk hsource htarget := by
    obtain ⟨e, he, heq⟩ := exists_edge_iff.2 ⟨hk, hsource, htarget⟩
    exact List.mem_map.2 ⟨e, he, heq⟩

end CodeGraph

end CodeImpact
