import CodeImpact.Proofs.Consistency
import CodeImpact.Proofs.Declarations
import CodeImpact.Proofs.Relations
import CodeImpact.Proofs.Text

/-!
# Methods and their types

A function that is declared directly inside a type has the name of that type, and the type is in the
graph at the key of the function's scope without the last frame. The key is found again by cutting
the last name off the scope, so the relation graph joins every method to its type, and has no other
edges from types to functions.
-/

namespace CodeImpact

/-! ## Scopes and their texts -/

namespace Scope

theorem names_push (s : Scope) (frame : Frame) :
    (s.push frame).frames.map (·.name) = s.frames.map (·.name) ++ [frame.name] := by
  simp only [push, List.map_append, List.map_singleton]
  split <;> rfl

/-- A frame inside another one is keyed behind it. -/
theorem chain_push {s : Scope} (h : s.frames ≠ []) (frame : Frame) :
    (s.push frame).chain = compositeKey s.chain frame.name := by
  rw [chain, names_push, String.intercalate_append_of_ne_nil (by simpa using h) (by simp),
    String.intercalate_singleton]
  rfl

/-- The last name of a scope can be cut off its chain. -/
theorem cutLast?_chain_push {s : Scope} (h : s.frames ≠ []) {frame : Frame}
    (hname : ':' ∉ frame.name.toList) :
    Text.cutLast? keySeparator.toList (s.push frame).chain.toList =
      some (s.chain.toList, frame.name.toList) := by
  rw [chain_push h, toList_compositeKey]
  simpa [keySeparator] using Text.cutLast?_append hname s.chain.toList [':']

/-- A key ends with the last name of its scope. -/
theorem afterLast_key_push (s : Scope) {frame : Frame} (hname : ':' ∉ frame.name.toList)
    (path : String) :
    Text.afterLast (· = ':') ((s.push frame).key path).toList = frame.name.toList := by
  have hplain : ∀ c ∈ frame.name.toList, decide (c = ':') = false :=
    fun c hc => decide_eq_false fun heq => hname (heq ▸ hc)
  have hend : ∃ lead, ((s.push frame).key path).toList = lead ++ ':' :: frame.name.toList := by
    rw [key, toList_compositeKey]
    by_cases hs : s.frames = []
    · refine ⟨path.toList ++ [':'], ?_⟩
      simp [chain, names_push, hs]
    · refine ⟨path.toList ++ ':' :: ':' :: (s.chain.toList ++ [':']), ?_⟩
      simp [chain_push hs, toList_compositeKey]
  obtain ⟨lead, hlead⟩ := hend
  rw [hlead]
  exact Text.afterLast_append (decide_eq_true rfl) hplain lead

/-- The name of the innermost frame, if it is that of a type. -/
def ownerType? (s : Scope) : Option String :=
  (s.innermost?.filter (·.kind.isType)).map (·.name)

/-- The owner is the innermost frame, if this is one of a type. -/
theorem ownerType?_eq_some {s : Scope} {name : String} (h : s.ownerType? = some name) :
    ∃ frame, s.innermost? = some frame ∧ frame.kind.isType = true ∧ frame.name = name := by
  obtain ⟨frame, hframe, rfl⟩ := Option.map_eq_some_iff.1 h
  obtain ⟨hinner, htype⟩ := Option.filter_eq_some_iff.1 hframe
  exact ⟨frame, hinner, htype, rfl⟩

/-- A function is owned by the type that it is pushed into. -/
theorem ownerName?_push (s : Scope) (name : String) :
    ParsedFile.ownerName? (s.push ⟨.function, name⟩) = s.ownerType? := by
  rw [ParsedFile.ownerName?, innermost?_push, withoutInnermostFunction_push rfl, ownerType?]
  cases hinner : s.innermost? with
  | none => rfl
  | some frame => cases htype : frame.kind.isType <;> simp [htype]

end Scope

/-! ## Methods and types of a file -/

namespace ParsedFile

variable {f : ParsedFile} {l : Language}

/-- The frames that nodes of a file open, and those that aliases get for their keys. -/
def frames (f : ParsedFile) : List Frame :=
  f.tree.namedNodes.flatMap fun focus =>
    match f.grammar.frame? f.source focus.node with
    | some frame => [frame]
    | none => ((f.grammar.type? f.source focus.node).map fun d => ⟨.aliasType, d.name⟩).toList

theorem mem_frames_of_frame? {focus : Focus} (hfocus : focus ∈ f.tree.namedNodes) {frame : Frame}
    (h : f.grammar.frame? f.source focus.node = some frame) : frame ∈ f.frames := by
  refine List.mem_flatMap.2 ⟨focus, hfocus, ?_⟩
  simp [h]

theorem mem_frames_of_alias {focus : Focus} (hfocus : focus ∈ f.tree.namedNodes) {d : TypeDecl}
    (hframe : f.grammar.frame? f.source focus.node = none)
    (h : f.grammar.type? f.source focus.node = some d) : ⟨.aliasType, d.name⟩ ∈ f.frames := by
  refine List.mem_flatMap.2 ⟨focus, hfocus, ?_⟩
  simp [hframe, h]

/-- A function is the record of a node of the file, calls apart, and `owner` is the scope of that
node without its last frame. -/
def Declares (f : ParsedFile) (fn : FunctionRecord) (owner : Scope) : Prop :=
  ∃ focus ∈ f.tree.namedNodes, ∃ d, f.grammar.function? f.source focus.node = some d ∧
    { fn with calls := [] } = f.functionRecord focus.node (f.grammar.scopeOf f.source focus) d ∧
    (f.grammar.scopeOf f.source focus).parent? = some owner

theorem frame?_of_function? (hl : f.grammar = l.grammar) {t : Tree} {d : FunctionDecl}
    (h : f.grammar.function? f.source t = some d) :
    f.grammar.frame? f.source t = some ⟨.function, d.name⟩ := by
  rw [hl] at h ⊢
  exact l.frame?_of_function? h

theorem typeName_of_frame? (hl : f.grammar = l.grammar) {t : Tree} {frame : Frame}
    (h : f.grammar.frame? f.source t = some frame) :
    (f.grammar.type? f.source t).map (·.name) =
      if frame.kind.isType then some frame.name else none := by
  rw [hl] at h ⊢
  exact l.typeName_of_frame? h

/-- The scope of a function is the scope around its node with a frame for the function. -/
theorem scopeOf_function (hl : f.grammar = l.grammar) {focus : Focus} {d : FunctionDecl}
    (h : f.grammar.function? f.source focus.node = some d) :
    f.grammar.scopeOf f.source focus =
      (f.grammar.around f.source focus.above).push ⟨.function, d.name⟩ := by
  rw [Grammar.scopeOf_eq, frame?_of_function? hl h]
  rfl

/-- The declared functions are the named nodes that declare one, with their scopes. -/
theorem mem_functionDecls {declared : Tree × Scope × FunctionDecl} :
    declared ∈ f.functionDecls f.scopedNodes ↔
      ∃ focus ∈ f.tree.namedNodes, ∃ d, f.grammar.function? f.source focus.node = some d ∧
        (focus.node, f.grammar.scopeOf f.source focus, d) = declared := by
  simp [functionDecls, scopedNodes_eq, List.filterMap_map]

/-- Every function of a file is declared inside some scope. -/
theorem exists_declares (hl : f.grammar = l.grammar) {fn : FunctionRecord}
    (h : fn ∈ f.extract.functions) : ∃ owner, f.Declares fn owner := by
  rw [functions_extract] at h
  obtain ⟨p, hp, rfl⟩ := List.mem_map.1 h
  obtain ⟨declared, hdeclared, hrecord⟩ := List.mem_map.1 (List.fst_mem_of_mem_zipIdx hp)
  obtain ⟨focus, hfocus, d, hfunction, rfl⟩ := mem_functionDecls.1 hdeclared
  refine ⟨f.grammar.around f.source focus.above, focus, hfocus, d, hfunction, ?_, ?_⟩
  · rw [attach, ← hrecord]
    rfl
  · rw [scopeOf_function hl hfunction, Scope.parent?_push]

/-- What the record of a function says about the scope that it is declared in. -/
theorem Declares.spec (hl : f.grammar = l.grammar) {fn : FunctionRecord} {owner : Scope}
    (h : f.Declares fn owner) :
    ∃ focus ∈ f.tree.namedNodes, ∃ name, owner = f.grammar.around f.source focus.above ∧
      ⟨.function, name⟩ ∈ f.frames ∧ fn.file = f.absolutePath ∧
      fn.scope = (owner.push ⟨.function, name⟩).chain ∧ fn.className = owner.ownerType? := by
  obtain ⟨focus, hfocus, d, hd, hrecord, hparent⟩ := h
  have hscope := scopeOf_function hl hd
  rw [hscope, Scope.parent?_push] at hparent
  obtain rfl := Option.some.inj hparent
  rw [hscope] at hrecord
  refine ⟨focus, hfocus, d.name, rfl,
    mem_frames_of_frame? hfocus (frame?_of_function? hl hd), ?_, ?_, ?_⟩
  · exact congrArg FunctionRecord.file hrecord
  · exact congrArg FunctionRecord.scope hrecord
  · exact (congrArg FunctionRecord.className hrecord).trans (Scope.ownerName?_push _ _)

/-- The declared types are the named nodes that declare one, with the scopes that they are keyed by.
-/
theorem mem_typeDecls {declared : Tree × Scope × TypeDecl} :
    declared ∈ f.typeDecls f.scopedNodes ↔
      ∃ focus ∈ f.tree.namedNodes, ∃ d, f.grammar.type? f.source focus.node = some d ∧
        (focus.node, f.typeScope focus.node (f.grammar.scopeOf f.source focus) d, d) =
          declared := by
  simp [typeDecls, scopedNodes_eq, List.filterMap_map]

/-- The types of a file are those that its nodes declare. -/
theorem exists_type_iff {kind : TypeKind} {id name key : String} :
    (∃ x ∈ f.extract.types, x.record.kind = kind ∧ x.record.nodeId = id ∧ x.record.name = name ∧
      x.record.key = key) ↔
      ∃ focus ∈ f.tree.namedNodes, ∃ d, f.grammar.type? f.source focus.node = some d ∧
        d.kind = kind ∧ focus.node.id f.absolutePath = id ∧ d.name = name ∧
        (f.typeScope focus.node (f.grammar.scopeOf f.source focus) d).key f.absolutePath = key := by
  obtain ⟨b, htypes⟩ := f.types_extract
  rw [htypes]
  constructor
  · rintro ⟨x, hx, hkind, hid, hname, hkey⟩
    obtain ⟨declared, hdeclared, rfl⟩ := List.mem_map.1 hx
    obtain ⟨focus, hfocus, d, hd, rfl⟩ := mem_typeDecls.1 hdeclared
    exact ⟨focus, hfocus, d, hd, hkind, hid, hname, hkey⟩
  · rintro ⟨focus, hfocus, d, hd, hkind, hid, hname, hkey⟩
    refine ⟨_, List.mem_map_of_mem (mem_typeDecls.2 ⟨focus, hfocus, d, hd, rfl⟩), ?_⟩
    exact ⟨hkind, hid, hname, hkey⟩

/-- Every record of a type comes from a declaration, and has its name and key. -/
theorem exists_of_mem_types {x : ExtractedType} (h : x ∈ f.extract.types) :
    ∃ focus ∈ f.tree.namedNodes, ∃ d, f.grammar.type? f.source focus.node = some d ∧
      x.record.name = d.name ∧ x.record.key =
        (f.typeScope focus.node (f.grammar.scopeOf f.source focus) d).key f.absolutePath := by
  obtain ⟨focus, hfocus, d, hd, -, -, hname, hkey⟩ := exists_type_iff.1 ⟨x, h, rfl, rfl, rfl, rfl⟩
  exact ⟨focus, hfocus, d, hd, hname.symm, hkey.symm⟩

/-- Every declaration of a type has a record. -/
theorem exists_mem_types {focus : Focus} (hfocus : focus ∈ f.tree.namedNodes) {d : TypeDecl}
    (h : f.grammar.type? f.source focus.node = some d) :
    ∃ x ∈ f.extract.types, x.record.name = d.name ∧ x.record.key =
      (f.typeScope focus.node (f.grammar.scopeOf f.source focus) d).key f.absolutePath := by
  obtain ⟨x, hx, -, -, hname, hkey⟩ := exists_type_iff.2 ⟨focus, hfocus, d, h, rfl, rfl, rfl, rfl⟩
  exact ⟨x, hx, hname, hkey⟩

/-- A type that opens a frame has the scope of its node. -/
theorem typeScope_of_frame? {t : Tree} {frame : Frame}
    (h : f.grammar.frame? f.source t = some frame) (s : Scope) (d : TypeDecl) :
    f.typeScope t s d = s := by
  rw [typeScope, h]
  rfl

/-- The scope of a type ends with a frame of its name. -/
theorem exists_typeScope_eq (hl : f.grammar = l.grammar) {focus : Focus}
    (hfocus : focus ∈ f.tree.namedNodes) {d : TypeDecl}
    (h : f.grammar.type? f.source focus.node = some d) :
    ∃ (s : Scope) (frame : Frame), frame ∈ f.frames ∧ frame.name = d.name ∧
      f.typeScope focus.node (f.grammar.scopeOf f.source focus) d = s.push frame := by
  cases hframe : f.grammar.frame? f.source focus.node with
  | none =>
    refine ⟨f.grammar.scopeOf f.source focus, ⟨.aliasType, d.name⟩,
      mem_frames_of_alias hfocus hframe h, rfl, ?_⟩
    rw [typeScope, hframe]
    rfl
  | some frame =>
    have hname : frame.name = d.name := by
      have hdeclared := typeName_of_frame? hl hframe
      rw [h] at hdeclared
      split at hdeclared
      · exact (Option.some.inj hdeclared).symm
      · cases hdeclared
    refine ⟨f.grammar.around f.source focus.above, frame, mem_frames_of_frame? hfocus hframe, hname,
      ?_⟩
    rw [typeScope_of_frame? hframe, Grammar.scopeOf_eq, hframe]
    rfl

/-- The keys of types end with their names. -/
theorem afterLast_key_of_mem_types (hl : f.grammar = l.grammar)
    (hplain : ∀ frame ∈ f.frames, ':' ∉ frame.name.toList) {x : ExtractedType}
    (h : x ∈ f.extract.types) :
    Text.afterLast (· = ':') x.record.key.toList = x.record.name.toList := by
  obtain ⟨focus, hfocus, d, hd, hname, hkey⟩ := exists_of_mem_types h
  obtain ⟨s, frame, hframe, hframename, hscope⟩ := exists_typeScope_eq hl hfocus hd
  rw [hkey, hscope, hname, ← hframename]
  exact s.afterLast_key_push (hplain frame hframe) f.absolutePath

/-- The type that a method is declared in is a type of the file. -/
theorem Declares.exists_type (hl : f.grammar = l.grammar) (hnamed : f.tree.innerNamed = true)
    {fn : FunctionRecord} {owner : Scope} (h : f.Declares fn owner) {name : String}
    (hname : fn.className = some name) :
    ∃ x ∈ f.extract.types, x.record.key = owner.key fn.file ∧ x.record.name = name := by
  obtain ⟨focus, hfocus, -, rfl, -, hfile, -, howner⟩ := h.spec hl
  obtain ⟨frame, hinner, htype, rfl⟩ := Scope.ownerType?_eq_some (howner.symm.trans hname)
  -- The frame of the type was opened by an ancestor, which is named because it has children.
  obtain ⟨opening, hmem, hframe, hscope⟩ := Grammar.exists_opening hinner htype focus.node
  have hopening : opening ∈ f.tree.namedNodes := Focus.lineage_subset hnamed hfocus hmem
  have hdeclared := typeName_of_frame? hl hframe
  rw [if_pos htype] at hdeclared
  obtain ⟨d, hd, hdname⟩ := Option.map_eq_some_iff.1 hdeclared
  obtain ⟨x, hx, hxname, hkey⟩ := exists_mem_types hopening hd
  refine ⟨x, hx, ?_, hxname.trans hdname⟩
  rw [hkey, hfile, typeScope_of_frame? hframe, hscope]

/-- The key of the owner of a method is found again from the method's scope. -/
theorem Declares.ownerKey? (hl : f.grammar = l.grammar)
    (hplain : ∀ frame ∈ f.frames, ':' ∉ frame.name.toList) {fn : FunctionRecord} {owner : Scope}
    (h : f.Declares fn owner) {name : String} (hname : fn.className = some name) :
    CodeGraph.ownerKey? fn = some (owner.key fn.file) := by
  obtain ⟨-, -, own, -, hframe, -, hscope, howner⟩ := h.spec hl
  obtain ⟨frame, hinner, -⟩ := Scope.ownerType?_eq_some (howner.symm.trans hname)
  have hne : owner.frames ≠ [] := by
    intro hnil
    rw [Scope.innermost?, hnil] at hinner
    cases hinner
  rw [CodeGraph.ownerKey?, hname, hscope, Option.bind_some,
    Scope.cutLast?_chain_push hne (hplain _ hframe)]
  simp only [Option.map_some, String.ofList_toList]
  rfl

end ParsedFile

/-! ## Merged types -/

namespace Merger

/-- What holds of the key and the name of every declaration holds of every merged type. -/
theorem forall_name_foldl_addFile {xs : List Extraction} {m : Merger} {P : String → String → Prop}
    (hm : ∀ k t, m.graph.types.get? k = some t → P k t.name)
    (hxs : ∀ x ∈ xs, ∀ t ∈ x.types, P t.record.key t.record.name) :
    ∀ k t, (xs.foldl addFile m).graph.types.get? k = some t → P k t.name := by
  induction xs generalizing m with
  | nil => exact hm
  | cons x rest ih =>
    obtain ⟨hx, hrest⟩ := List.forall_mem_cons.1 hxs
    refine ih ?_ hrest
    rw [types_addFile]
    refine forall_types_foldl_addType (P := fun k t => P k t.name) hm hx ?_
    intro y _ t r ht hname _
    exact hname ▸ ht

end Merger

namespace CodeGraph

open ParsedFile

variable {g : CodeGraph} {source target : String}

/-- Only the pass over functions proposes edges from types to methods. -/
theorem hasMethod_mem_proposedEdges {isNode : String → Bool} :
    (⟨source, target, .hasMethod⟩ : EdgeKey) ∈ g.proposedEdges isNode ↔
      ∃ fn, g.functions.get? target = some fn ∧ ownerKey? fn = some source ∧
        source ∈ g.types.keys := by
  have hmethod : ∀ {key fn}, (⟨source, target, .hasMethod⟩ : EdgeKey) ∈ g.methodEdges key fn ↔
      key = target ∧ ownerKey? fn = some source ∧ source ∈ g.types.keys := by
    intro key fn
    simp only [methodEdges, List.mem_map, Option.mem_toList, Option.filter_eq_some_iff,
      Table.contains_iff, EdgeKey.mk.injEq, and_true]
    constructor
    · rintro ⟨owner, howner, rfl, rfl⟩
      exact ⟨rfl, howner⟩
    · rintro ⟨rfl, howner⟩
      exact ⟨source, howner, rfl, rfl⟩
  simp only [mem_proposedEdges, Relation.pass, Proposes, hmethod]
  constructor
  · rintro ⟨_, fn, hfn, rfl, howner⟩
    exact ⟨fn, hfn, howner⟩
  · rintro ⟨fn, hfn, howner⟩
    exact ⟨target, fn, hfn, rfl, howner⟩

/-- An edge from a type to a function is there if the function's owner is that type, and only
then. -/
theorem exists_hasMethod_iff :
    (∃ e ∈ g.relations.edges, e.kind = .hasMethod ∧ e.source = source ∧ e.target = target) ↔
      ∃ fn, g.functions.get? target = some fn ∧ ownerKey? fn = some source ∧
        source ∈ g.types.keys := by
  have hedge : (∃ e ∈ g.relations.edges, e.kind = .hasMethod ∧ e.source = source ∧
      e.target = target) ↔ ∃ e ∈ g.relations.edges,
        (⟨e.source, e.target, e.kind⟩ : EdgeKey) = ⟨source, target, .hasMethod⟩ := by
    simp only [EdgeKey.mk.injEq]
    tauto
  rw [hedge, exists_edge_iff, hasMethod_mem_proposedEdges, mem_ids_graphNodes, mem_ids_graphNodes]
  constructor
  · exact fun h => h.1
  · rintro ⟨fn, hfn, howner, hsource⟩
    exact ⟨⟨fn, hfn, howner, hsource⟩, .inr (.inl hsource),
      .inr (.inr (Table.mem_keys.2 ⟨fn, hfn⟩))⟩

/-! ## Methods of a graph -/

variable {files : List ParsedFile}

/-- Every function of a graph was extracted from one of its files. -/
theorem exists_mem_of_get?_functions {key : String} {fn : FunctionRecord}
    (h : (ofFiles files).functions.get? key = some fn) :
    ∃ f ∈ files, fn ∈ f.extract.functions ∧ fn.key = key := by
  rw [functions_ofFiles, Table.get?_ofList] at h
  obtain ⟨e, he, rfl⟩ := Option.map_eq_some_iff.1 h
  obtain ⟨hmem, hkey⟩ := List.mem_filter.1 (List.mem_of_getLast? he)
  obtain ⟨fn, hfn, rfl⟩ := List.mem_map.1 hmem
  obtain ⟨f, hf, hfn⟩ := List.mem_flatMap.1 hfn
  exact ⟨f, hf, hfn, of_decide_eq_true hkey⟩

/-- A type that a file declares is in the graph, with the name that its key ends with. -/
theorem exists_type_ofFiles (hlanguage : ∀ f ∈ files, ∃ l : Language, f.grammar = l.grammar)
    (hplain : ∀ f ∈ files, ∀ frame ∈ f.frames, ':' ∉ frame.name.toList) {f : ParsedFile}
    (hf : f ∈ files) {x : ExtractedType} (hx : x ∈ f.extract.types) :
    ∃ t, (ofFiles files).types.get? x.record.key = some t ∧ t.name = x.record.name := by
  let merged := (files.map (·.extract)).foldl Merger.addFile {}
  have hends : ∀ f ∈ files, ∀ x ∈ f.extract.types,
      Text.afterLast (· = ':') x.record.key.toList = x.record.name.toList := by
    intro f hf x hx
    obtain ⟨l, hl⟩ := hlanguage f hf
    exact afterLast_key_of_mem_types hl (hplain f hf) hx
  have hkey : x.record.key ∈ merged.graph.types.keys :=
    Merger.mem_keys_types_foldl_addFile.2
      (.inr ⟨f.extract, List.mem_map_of_mem hf, x, hx, rfl⟩)
  -- The entry may come from another declaration with this key, but the key fixes the name.
  have hmerged : ∀ k t, merged.graph.types.get? k = some t →
      Text.afterLast (· = ':') k.toList = t.name.toList :=
    Merger.forall_name_foldl_addFile
      (P := fun k name => Text.afterLast (· = ':') k.toList = name.toList) (by simp)
      (List.forall_mem_map.2 hends)
  obtain ⟨t, ht⟩ := Table.mem_keys.1 hkey
  refine ⟨merged.graph.withDerived t, ?_, ?_⟩
  · rw [ofFiles, get?_types_finalizeRelations, ht]
    rfl
  · exact String.toList_inj.1 ((hmerged _ t ht).symm.trans (hends f hf x hx))

/-- The type that a method is declared in is in the graph, with the name that the method knows. -/
theorem exists_owner_ofFiles (hnamed : ∀ f ∈ files, f.tree.innerNamed = true)
    (hlanguage : ∀ f ∈ files, ∃ l : Language, f.grammar = l.grammar)
    (hplain : ∀ f ∈ files, ∀ frame ∈ f.frames, ':' ∉ frame.name.toList) {f : ParsedFile}
    (hf : f ∈ files) {fn : FunctionRecord} {owner : Scope} (h : f.Declares fn owner) {name : String}
    (hname : fn.className = some name) :
    ownerKey? fn = some (owner.key fn.file) ∧
      ∃ t, (ofFiles files).types.get? (owner.key fn.file) = some t ∧ t.name = name := by
  obtain ⟨l, hl⟩ := hlanguage f hf
  obtain ⟨x, hx, hkey, hxname⟩ := h.exists_type hl (hnamed f hf) hname
  obtain ⟨t, ht, htname⟩ := exists_type_ofFiles hlanguage hplain hf hx
  exact ⟨h.ownerKey? hl (hplain f hf) hname, t, hkey ▸ ht, htname.trans hxname⟩

/-- Every function of the graph knows the type that it is declared directly inside, if there is one,
and that type is in the graph. An edge from a type to a function is there if the function is such a
method of the type, and only then. -/
theorem methods_joined_to_types (files : List ParsedFile)
    (hnamed : ∀ f ∈ files, f.tree.innerNamed = true)
    (hlanguage : ∀ f ∈ files, ∃ l : Language, f.grammar = l.grammar)
    (hplain : ∀ f ∈ files, ∀ frame ∈ f.frames, ':' ∉ frame.name.toList) :
    (∀ key fn, (ofFiles files).functions.get? key = some fn →
      ∃ f ∈ files, ∃ owner, f.Declares fn owner ∧ fn.className = owner.ownerType? ∧
        ∀ name, fn.className = some name →
          ∃ t, (ofFiles files).types.get? (owner.key fn.file) = some t ∧ t.name = name) ∧
    ∀ source target,
      (∃ e ∈ (ofFiles files).relations.edges,
        e.kind = .hasMethod ∧ e.source = source ∧ e.target = target) ↔
      ∃ fn, (ofFiles files).functions.get? target = some fn ∧ fn.className.isSome = true ∧
        ∃ f ∈ files, ∃ owner, f.Declares fn owner ∧ source = owner.key fn.file := by
  have hdeclared : ∀ key fn, (ofFiles files).functions.get? key = some fn →
      ∃ f ∈ files, ∃ owner, f.Declares fn owner ∧ fn.className = owner.ownerType? := by
    intro key fn hfn
    obtain ⟨f, hf, hmem, -⟩ := exists_mem_of_get?_functions hfn
    obtain ⟨l, hl⟩ := hlanguage f hf
    obtain ⟨owner, howner⟩ := exists_declares hl hmem
    obtain ⟨-, -, -, -, -, -, -, hname⟩ := howner.spec hl
    exact ⟨f, hf, owner, howner, hname⟩
  constructor
  · intro key fn hfn
    obtain ⟨f, hf, owner, howner, hname⟩ := hdeclared key fn hfn
    refine ⟨f, hf, owner, howner, hname, fun name hclass => ?_⟩
    exact (exists_owner_ofFiles hnamed hlanguage hplain hf howner hclass).2
  · intro source target
    rw [exists_hasMethod_iff]
    constructor
    · rintro ⟨fn, hfn, hkey, -⟩
      obtain ⟨f, hf, owner, howner, -⟩ := hdeclared target fn hfn
      obtain ⟨name, hname, -⟩ := Option.bind_eq_some_iff.1 hkey
      have hown := (exists_owner_ofFiles hnamed hlanguage hplain hf howner hname).1
      refine ⟨fn, hfn, hname ▸ rfl, f, hf, owner, howner, ?_⟩
      exact Option.some.inj (hkey.symm.trans hown)
    · rintro ⟨fn, hfn, hclass, f, hf, owner, howner, rfl⟩
      obtain ⟨name, hname⟩ := Option.isSome_iff_exists.1 hclass
      obtain ⟨hkey, t, ht, -⟩ := exists_owner_ofFiles hnamed hlanguage hplain hf howner hname
      exact ⟨fn, hfn, hkey, Table.mem_keys.2 ⟨t, ht⟩⟩

theorem method_of_lateStruct {fn : FunctionRecord} (h : fn ∈ lateStruct.extract.functions) :
    fn.className = some "A" ∧ fn.file = "/r/a.rs" ∧ fn.scope = "A::f" := by
  have hdeclared : ∀ fn ∈ lateStruct.declared,
      fn.className = some "A" ∧ fn.file = "/r/a.rs" ∧ fn.scope = "A::f" := by
    rw [declared, scopedNodes_eq]
    decide +kernel
  rw [functions_extract] at h
  obtain ⟨p, hp, rfl⟩ := List.mem_map.1 h
  exact hdeclared p.1 (List.fst_mem_of_mem_zipIdx hp)

/-- A method in a block is joined to the type that is declared after it. -/
theorem lateStruct_method_joined :
    let files := [lateStruct]
    (∀ f ∈ files, f.tree.innerNamed = true) ∧
      (∀ f ∈ files, ∃ l : Language, f.grammar = l.grammar) ∧
      (∀ f ∈ files, ∀ frame ∈ f.frames, ':' ∉ frame.name.toList) ∧
      (∃ t, (ofFiles files).types.get? "/r/a.rs::A" = some t ∧ t.name = "A") ∧
      ∃ e ∈ (ofFiles files).relations.edges,
        e.kind = .hasMethod ∧ e.source = "/r/a.rs::A" ∧ e.target = "/r/a.rs::A::f" := by
  intro files
  have hnamed : ∀ f ∈ files, f.tree.innerNamed = true :=
    List.forall_mem_singleton.2 (by decide)
  have hlanguage : ∀ f ∈ files, ∃ l : Language, f.grammar = l.grammar :=
    List.forall_mem_singleton.2 ⟨.rust, rfl⟩
  have hplain : ∀ f ∈ files, ∀ frame ∈ f.frames, ':' ∉ frame.name.toList :=
    List.forall_mem_singleton.2 (by decide +kernel)
  obtain ⟨hmethods, hedges⟩ := methods_joined_to_types files hnamed hlanguage hplain
  have hkey : "/r/a.rs::A::f" ∈ (ofFiles files).functions.keys := by
    rw [functions_ofFiles, Table.ofList, Table.mem_keys_foldl_insert, List.map_map]
    simp [files, Function.comp_def, keys_lateStruct.1]
  obtain ⟨fn, hfn⟩ := Table.mem_keys.1 hkey
  obtain ⟨f, hf, owner, howner, -, htype⟩ := hmethods _ fn hfn
  obtain ⟨f', hf', hmem, -⟩ := exists_mem_of_get?_functions hfn
  obtain rfl := List.mem_singleton.1 hf
  obtain rfl := List.mem_singleton.1 hf'
  obtain ⟨hclass, hfile, hscope⟩ := method_of_lateStruct hmem
  have howned : ownerKey? fn = some "/r/a.rs::A" := by
    rw [ownerKey?, hclass, hfile, hscope]
    decide
  have hsource : owner.key fn.file = "/r/a.rs::A" :=
    Option.some.inj ((howner.ownerKey? (l := .rust) rfl (hplain _ hf) hclass).symm.trans howned)
  refine ⟨hnamed, hlanguage, hplain, hsource ▸ htype "A" hclass, ?_⟩
  exact (hedges _ _).2 ⟨fn, hfn, hclass ▸ rfl, _, hf, owner, howner, hsource.symm⟩

end CodeGraph

end CodeImpact
