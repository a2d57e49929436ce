import CodeImpact.Proofs.CallOwners
import CodeImpact.Proofs.Heritage
import CodeImpact.Proofs.Unique

/-!
# Consistency of merged graphs

In a graph merged from files with different paths, every entry sits at its own key, each file lists
the keys of the functions and types that belong to it, each once, and every node that a record
refers to is in the node table. One more file keeps all of that, because what comes to a key that is
taken, as a function that replaces or a type that is absorbed, belongs to the same file.
-/

namespace CodeImpact

/-! ## Values of files -/

namespace Table

variable {α : Type} {key file : α → String} {t : Table α}

/-- The value at a key belongs to the file at a path. -/
def BelongsTo (file : α → String) (t : Table α) (k path : String) : Prop :=
  ∃ a, t.get? k = some a ∧ file a = path

/-- Every value sits at its own key, and no value belongs to a path with a colon. -/
structure Placed (key file : α → String) (t : Table α) : Prop where
  keyed : ∀ k a, t.get? k = some a → key a = k
  plain : ∀ k a, t.get? k = some a → ':' ∉ (file a).toList

/-- A value that lies in a file whose path has no colon is put at its place. -/
theorem Placed.insert (h : t.Placed key file) {a : α} (ha : ':' ∉ (file a).toList) :
    (t.insert (key a) a).Placed key file := by
  constructor
  · intro k b hb
    rw [get?_insert] at hb
    split at hb
    next hk => exact Option.some.inj hb ▸ hk
    next => exact h.keyed k b hb
  · intro k b hb
    rw [get?_insert] at hb
    split at hb
    next => exact Option.some.inj hb ▸ ha
    next => exact h.plain k b hb

/-- If keys start with paths, values with one key belong to one file. -/
theorem file_eq_of_key_eq (hkey : ∀ a, ∃ rest, key a = compositeKey (file a) rest) {a b : α}
    (ha : ':' ∉ (file a).toList) (hb : ':' ∉ (file b).toList) (h : key a = key b) :
    file a = file b := by
  obtain ⟨rest, hrest⟩ := hkey a
  obtain ⟨rest', hrest'⟩ := hkey b
  rw [hrest, hrest'] at h
  have ha := endsAtSeparator_of_not_mem ha
  have hb := endsAtSeparator_of_not_mem hb
  exact (compositeKey_inj_of_path ha hb h).1

/-- A value only replaces one of its own file. -/
theorem Placed.belongsTo_insert (hkey : ∀ a, ∃ rest, key a = compositeKey (file a) rest)
    (h : t.Placed key file) {a : α} (ha : ':' ∉ (file a).toList) {k path : String} :
    (t.insert (key a) a).BelongsTo file k path ↔
      t.BelongsTo file k path ∨ key a = k ∧ file a = path := by
  unfold BelongsTo
  rw [get?_insert]
  split
  next hk =>
    constructor
    · rintro ⟨b, hb, rfl⟩
      obtain rfl := Option.some.inj hb
      exact .inr ⟨hk, rfl⟩
    · rintro (⟨old, hold, rfl⟩ | ⟨-, rfl⟩)
      · have hsame : key a = key old := hk.trans (h.keyed k old hold).symm
        exact ⟨a, rfl, file_eq_of_key_eq hkey ha (h.plain k old hold) hsame⟩
      · exact ⟨a, rfl, rfl⟩
  next hk => simp [hk]

/-- Each step puts a value at the key of its item. -/
def Puts {σ β : Type} (key file : α → String) (table : σ → Table α) (item : β → α)
    (step : σ → β → σ) : Prop :=
  ∀ s b, (table s).Placed key file → ':' ∉ (file (item b)).toList →
    ∃ a, key a = key (item b) ∧ ':' ∉ (file a).toList ∧
      table (step s b) = (table s).insert (key a) a

variable {σ β : Type} {table : σ → Table α} {item : β → α} {step : σ → β → σ}

/-- The values after all steps are those from before and those of the items. -/
theorem Puts.placed (hstep : Puts key file table item step)
    (hkey : ∀ a, ∃ rest, key a = compositeKey (file a) rest) {items : List β}
    (hplain : ∀ b ∈ items, ':' ∉ (file (item b)).toList) {s : σ}
    (hs : (table s).Placed key file) :
    (table (items.foldl step s)).Placed key file ∧
      ∀ k path, (table (items.foldl step s)).BelongsTo file k path ↔
        (table s).BelongsTo file k path ∨
          ∃ b ∈ items, key (item b) = k ∧ file (item b) = path := by
  induction items generalizing s with
  | nil => exact ⟨hs, fun k path => by simp⟩
  | cons b rest ih =>
    obtain ⟨hb, hrest⟩ := List.forall_mem_cons.1 hplain
    obtain ⟨a, ha, haplain, htable⟩ := hstep s b hs hb
    obtain ⟨hplaced, hbelongs⟩ := ih hrest (htable ▸ hs.insert haplain)
    -- The value that was put may be another than the item, but its key names the same file.
    have hfile : file a = file (item b) := file_eq_of_key_eq hkey haplain hb ha
    refine ⟨hplaced, fun k path => ?_⟩
    rw [List.foldl_cons, hbelongs, htable, hs.belongsTo_insert hkey haplain, ha, hfile, or_assoc]
    simp

/-- Each file lists the keys of the values that belong to it, each once, and every value belongs to
a file. -/
structure ListedBy (t : Table α) (key file : α → String) (listed : FileRecord → List String)
    (files : Table FileRecord) : Prop extends t.Placed key file where
  file_mem : ∀ k a, t.get? k = some a → file a ∈ files.keys
  nodup : ∀ path r, files.get? path = some r → (listed r).Nodup
  mem_listed : ∀ path r, files.get? path = some r →
    ∀ k, k ∈ listed r ↔ t.BelongsTo file k path

variable {listed : FileRecord → List String} {files : Table FileRecord}

theorem listedBy_empty : (empty : Table α).ListedBy key file listed empty where
  keyed := by simp
  plain := by simp
  file_mem := by simp
  nodup := by simp
  mem_listed := by simp

/-- A new file that lists what it adds leaves the lists of the other files right. -/
theorem ListedBy.insert (h : t.ListedBy key file listed files) {t' : Table α}
    (ht' : t'.Placed key file) {path : String} {r : FileRecord} (hnew : path ∉ files.keys)
    (hnodup : (listed r).Nodup)
    (hadded : ∀ k other, t'.BelongsTo file k other ↔
      t.BelongsTo file k other ∨ k ∈ listed r ∧ path = other) :
    t'.ListedBy key file listed (files.insert path r) := by
  have hnone : ∀ k, ¬ t.BelongsTo file k path := by
    rintro k ⟨a, ha, rfl⟩
    exact hnew (h.file_mem k a ha)
  refine { ht' with file_mem := ?_, nodup := ?_, mem_listed := ?_ }
  · intro k a ha
    rw [mem_keys_insert]
    obtain ⟨old, hold, hfile⟩ | ⟨-, hpath⟩ := (hadded k (file a)).1 ⟨a, ha, rfl⟩
    · exact .inr (hfile ▸ h.file_mem k old hold)
    · exact .inl hpath.symm
  · intro other r' hr'
    rw [get?_insert] at hr'
    split at hr'
    next => exact Option.some.inj hr' ▸ hnodup
    next => exact h.nodup other r' hr'
  · intro other r' hr' k
    rw [get?_insert] at hr'
    rw [hadded]
    split at hr'
    next hpath =>
      obtain rfl := Option.some.inj hr'
      simp [← hpath, hnone]
    next hpath => simp [h.mem_listed other r' hr', hpath]

/-- The lists stay right when a new file comes with the items that it lists. -/
theorem Puts.listedBy (hstep : Puts key file table item step)
    (hkey : ∀ a, ∃ rest, key a = compositeKey (file a) rest) {s : σ}
    (h : (table s).ListedBy key file listed files) {items : List β} {path : String}
    {r : FileRecord} (hnew : path ∉ files.keys) (hcolon : ':' ∉ path.toList)
    (hitems : ∀ b ∈ items, file (item b) = path) (hnodup : (listed r).Nodup)
    (hlisted : ∀ k, k ∈ listed r ↔ ∃ b ∈ items, key (item b) = k) :
    (table (items.foldl step s)).ListedBy key file listed (files.insert path r) := by
  obtain ⟨hplaced, hbelongs⟩ :=
    hstep.placed hkey (fun b hb => hitems b hb ▸ hcolon) h.toPlaced
  refine h.insert hplaced hnew hnodup fun k other => ?_
  rw [hbelongs, hlisted]
  refine or_congr_right ⟨?_, ?_⟩
  · rintro ⟨b, hb, hk, rfl⟩
    exact ⟨⟨b, hb, hk⟩, (hitems b hb).symm⟩
  · rintro ⟨⟨b, hb, hk⟩, rfl⟩
    exact ⟨b, hb, hk, hitems b hb⟩

/-- Changes that keep keys and files keep the lists right. -/
theorem ListedBy.map (h : t.ListedBy key file listed files) (change : α → α)
    (hkey : ∀ a, key (change a) = key a) (hfile : ∀ a, file (change a) = file a) :
    (t.map fun _ => change).ListedBy key file listed files := by
  have hget : ∀ {k b}, (t.map fun _ => change).get? k = some b ↔
      ∃ a, t.get? k = some a ∧ change a = b := by
    intro k b
    rw [get?_map, Option.map_eq_some_iff]
  refine { keyed := ?_, plain := ?_, file_mem := ?_, nodup := h.nodup, mem_listed := ?_ }
  · intro k b hb
    obtain ⟨a, ha, rfl⟩ := hget.1 hb
    exact (hkey a).trans (h.keyed k a ha)
  · intro k b hb
    obtain ⟨a, ha, rfl⟩ := hget.1 hb
    exact hfile a ▸ h.plain k a ha
  · intro k b hb
    obtain ⟨a, ha, rfl⟩ := hget.1 hb
    exact hfile a ▸ h.file_mem k a ha
  · intro path r hr k
    rw [h.mem_listed path r hr]
    constructor
    · rintro ⟨a, ha, rfl⟩
      exact ⟨change a, hget.2 ⟨a, ha, rfl⟩, hfile a⟩
    · rintro ⟨b, hb, rfl⟩
      obtain ⟨a, ha, rfl⟩ := hget.1 hb
      exact ⟨a, ha, (hfile a).symm⟩

end Table

/-! ## Nodes that records refer to -/

/-- The nodes of a file's imports and of its calls outside functions. -/
def FileRecord.nodeIds (r : FileRecord) : List String :=
  r.imports.map (·.nodeId) ++ r.topLevelCalls.map (·.nodeId)

/-- The nodes of a function and its calls. -/
def FunctionRecord.nodeIds (fn : FunctionRecord) : List String :=
  fn.nodeId :: fn.calls.map (·.nodeId)

/-- The nodes that the records of a graph refer to. -/
def CodeGraph.nodeIds (g : CodeGraph) : List String :=
  g.files.values.flatMap (·.nodeIds) ++ g.types.values.map (·.nodeId) ++
    g.functions.values.flatMap (·.nodeIds)

/-- The identifiers of a graph are those of its files, types and functions. -/
theorem CodeGraph.forall_nodeIds {g : CodeGraph} {P : String → Prop} :
    (∀ id ∈ g.nodeIds, P id) ↔
      (∀ r ∈ g.files.values, ∀ id ∈ r.nodeIds, P id) ∧ (∀ t ∈ g.types.values, P t.nodeId) ∧
        ∀ fn ∈ g.functions.values, ∀ id ∈ fn.nodeIds, P id := by
  simp only [nodeIds, List.forall_mem_append, List.forall_mem_flatMap, List.forall_mem_map,
    and_assoc]

/-- The nodes that the records of an extraction refer to. -/
def Extraction.nodeIds (x : Extraction) : List String :=
  x.file.nodeIds ++ x.types.map (·.record.nodeId) ++ x.functions.flatMap (·.nodeIds)

namespace Merger

/-- A merged type refers to the node of one of its declarations. -/
theorem forall_nodeId_foldl_addType {types : List ExtractedType} {m : Merger} {P : String → Prop}
    (hm : ∀ t ∈ m.graph.types.values, P t.nodeId) (htypes : ∀ x ∈ types, P x.record.nodeId) :
    ∀ t ∈ (types.foldl addType m).graph.types.values, P t.nodeId := by
  have hmerged : ∀ k t, (types.foldl addType m).graph.types.get? k = some t → P t.nodeId := by
    refine forall_types_foldl_addType (fun k t ht => hm t (Table.mem_values.2 ⟨k, ht⟩)) htypes ?_
    intro x hx t r ht _ hid
    obtain hid | hid := hid
    · exact hid ▸ ht
    · exact hid ▸ htypes x hx
  intro t ht
  obtain ⟨k, hk⟩ := Table.mem_values.1 ht
  exact hmerged k t hk

/-- Adding a file brings no identifiers but its own. -/
theorem forall_nodeIds_addFile {m : Merger} {x : Extraction} {P : String → Prop}
    (hm : ∀ id ∈ m.graph.nodeIds, P id) (hx : ∀ id ∈ x.nodeIds, P id) :
    ∀ id ∈ (m.addFile x).graph.nodeIds, P id := by
  obtain ⟨hfiles, htypes, hfunctions⟩ := CodeGraph.forall_nodeIds.1 hm
  simp only [Extraction.nodeIds, List.forall_mem_append, List.forall_mem_flatMap,
    List.forall_mem_map] at hx
  obtain ⟨⟨hfile, hxtypes⟩, hxfunctions⟩ := hx
  refine CodeGraph.forall_nodeIds.2 ⟨?_, ?_, ?_⟩
  · rw [files_addFile]
    exact Table.forall_values_insert hfiles hfile
  · rw [types_addFile]
    exact forall_nodeId_foldl_addType htypes hxtypes
  · rw [functions_addFile]
    exact Table.forall_values_foldl_insert hfunctions (List.forall_mem_map.2 hxfunctions)

end Merger

/-! ## Extractions -/

/-- All that an extraction holds belongs to its file, which lists it, and to its nodes. -/
structure Extraction.SelfContained (x : Extraction) : Prop where
  function_file : ∀ fn ∈ x.functions, fn.file = x.file.absolutePath
  type_file : ∀ t ∈ x.types, t.record.file = x.file.absolutePath
  nodup_functions : x.file.functions.Nodup
  nodup_types : x.file.types.Nodup
  mem_functions : ∀ k, k ∈ x.file.functions ↔ ∃ fn ∈ x.functions, fn.key = k
  mem_types : ∀ k, k ∈ x.file.types ↔ ∃ t ∈ x.types, t.record.key = k
  nodes : ∀ id ∈ x.nodeIds, id ∈ x.nodes.keys

namespace ParsedFile

variable {f : ParsedFile}

/-- The nodes that state imports, types, functions and calls. -/
def statingNodes (f : ParsedFile) : List Tree :=
  (f.importsByNode f.scopedNodes).map (·.1) ++ (f.typeDecls f.scopedNodes).map (·.1) ++
    (f.functionDecls f.scopedNodes).map (·.1) ++ f.sites.map (·.focus.node)

/-- The nodes of an extraction are those that state something. -/
theorem mem_keys_nodes_extract {id : String} :
    id ∈ f.extract.nodes.keys ↔ ∃ t ∈ f.statingNodes, t.id f.absolutePath = id := by
  have hnodes : f.extract.nodes = Table.ofListFirst
      (((f.importsByNode f.scopedNodes).map (·.1) ++ (f.typeDecls f.scopedNodes).map (·.1) ++
        (f.functionDecls f.scopedNodes).map (·.1) ++
        (f.ownedCalls f.bindings f.scopedNodes).map (·.node)).map fun t =>
          (t.id f.absolutePath, f.nodeRecord t)) := rfl
  have hcalls : (f.ownedCalls f.bindings f.scopedNodes).map (·.node) =
      f.sites.map (·.focus.node) := by
    rw [ownedCalls_eq, List.map_map]
    rfl
  rw [hnodes, hcalls, Table.mem_keys_ofListFirst, List.map_map, List.mem_map]
  rfl

theorem nodeId_of_mem_importsByNode {nodes : List (Focus × Scope)}
    {p : Tree × List ImportRecord} (h : p ∈ f.importsByNode nodes) {r : ImportRecord}
    (hr : r ∈ p.2) : r.nodeId = p.1.id f.absolutePath := by
  obtain ⟨⟨focus, scope⟩, -, hp⟩ := List.mem_filterMap.1 h
  dsimp only at hp
  split at hp
  · cases hp
  · obtain rfl := Option.some.inj hp
    obtain ⟨d, -, rfl⟩ := List.mem_map.1 hr
    rfl

/-- The node of a call is among the nodes of its file. -/
theorem nodeId_mem_of_mem_sites {s : CallSite} (h : s ∈ f.sites) :
    s.record.nodeId ∈ f.extract.nodes.keys := by
  refine mem_keys_nodes_extract.2 ⟨s.focus.node, ?_, (nodeId_of_mem_sites h).symm⟩
  exact List.mem_append_right _ (List.mem_map_of_mem h)

theorem nodeIds_extract (f : ParsedFile) : ∀ id ∈ f.extract.nodeIds, id ∈ f.extract.nodes.keys := by
  have hstating : ∀ t ∈ f.statingNodes, t.id f.absolutePath ∈ f.extract.nodes.keys :=
    fun t ht => mem_keys_nodes_extract.2 ⟨t, ht, rfl⟩
  simp only [statingNodes, List.forall_mem_append, List.forall_mem_map] at hstating
  obtain ⟨⟨⟨himports, htypes⟩, hfunctions⟩, -⟩ := hstating
  simp only [Extraction.nodeIds, FileRecord.nodeIds, FunctionRecord.nodeIds,
    List.forall_mem_append, List.forall_mem_flatMap, List.forall_mem_map, List.forall_mem_cons]
  refine ⟨⟨⟨?_, ?_⟩, ?_⟩, ?_⟩
  · intro r hr
    obtain ⟨p, hp, hr⟩ := List.mem_flatMap.1 hr
    exact nodeId_of_mem_importsByNode hp hr ▸ himports p hp
  · rw [topLevelCalls_extract]
    refine List.forall_mem_map.2 fun s hs => ?_
    exact nodeId_mem_of_mem_sites (List.mem_filter.1 hs).1
  · intro x hx
    obtain ⟨d, hd, rfl⟩ := List.mem_map.1 hx
    exact htypes d hd
  · rw [functions_extract]
    refine List.forall_mem_map.2 fun p hp => ⟨?_, List.forall_mem_map.2 fun s hs => ?_⟩
    · obtain ⟨d, hd, hp⟩ := List.mem_map.1 (List.fst_mem_of_mem_zipIdx hp)
      have hid : (f.attach p).nodeId = d.1.id f.absolutePath := by
        rw [attach, ← hp]
        rfl
      exact hid ▸ hfunctions d hd
    · exact nodeId_mem_of_mem_sites (List.mem_filter.1 hs).1

/-- The types of a file are read under some bindings of the imported names. -/
theorem types_extract (f : ParsedFile) : ∃ b : Bindings, f.extract.types =
    (f.typeDecls f.scopedNodes).map fun d => f.typeRecord b d.1 d.2.1 d.2.2 :=
  ⟨_, rfl⟩

/-- Attached calls change no key. -/
theorem keys_functions_extract (f : ParsedFile) :
    f.extract.functions.map (·.key) = f.declared.map (·.key) := by
  have hkey : (fun fn : FunctionRecord => fn.key) ∘ f.attach = (·.key) ∘ Prod.fst := rfl
  rw [functions_extract, List.map_map, hkey, ← List.map_map, List.zipIdx_map_fst]

theorem selfContained_extract (f : ParsedFile) : f.extract.SelfContained where
  function_file := by
    intro fn hfn
    rw [functions_extract] at hfn
    obtain ⟨p, hp, rfl⟩ := List.mem_map.1 hfn
    obtain ⟨d, -, hp⟩ := List.mem_map.1 (List.fst_mem_of_mem_zipIdx hp)
    rw [attach, ← hp]
    rfl
  type_file := by
    intro x hx
    obtain ⟨d, -, rfl⟩ := List.mem_map.1 hx
    rfl
  nodup_functions := nodup_appendUnique List.nodup_nil _
  nodup_types := nodup_appendUnique List.nodup_nil _
  mem_functions := by
    intro k
    have hlist : f.extract.file.functions = appendUnique [] (f.extract.functions.map (·.key)) := rfl
    simp [hlist]
  mem_types := by
    intro k
    have hlist : f.extract.file.types = appendUnique [] (f.extract.types.map (·.record.key)) := rfl
    simp [hlist]
  nodes := f.nodeIds_extract

end ParsedFile

/-! ## Merging -/

namespace CodeGraph

/-- Every entry sits at its own key, each file lists what belongs to it, and the nodes that records
refer to are there. -/
structure Consistent (g : CodeGraph) (nodes : Table NodeRecord) : Prop where
  files : ∀ path r, g.files.get? path = some r → r.absolutePath = path
  functions : g.functions.ListedBy FunctionRecord.key (·.file) (·.functions) g.files
  types : g.types.ListedBy TypeRecord.key (·.file) (·.types) g.files
  nodeIds : ∀ id ∈ g.nodeIds, id ∈ nodes.keys

theorem consistent_empty : Consistent {} .empty where
  files := by simp
  functions := Table.listedBy_empty
  types := Table.listedBy_empty
  nodeIds := by simp [CodeGraph.nodeIds, Table.values, Table.empty]

end CodeGraph

namespace Merger

open CodeGraph

variable {m : Merger} {x : Extraction}

/-- A type is put at its own key, since the one that it is absorbed by has that key. -/
theorem puts_addType : Table.Puts TypeRecord.key (·.file) (fun m : Merger => m.graph.types)
    ExtractedType.record addType := by
  intro m x hm hx
  obtain ⟨r, htable, hr⟩ := types_addType m x
  obtain rfl | ⟨earlier, hearlier, hfile, hscope, -⟩ := hr
  · exact ⟨x.record, rfl, hx, htable⟩
  · have hkey : r.key = x.record.key := by
      rw [← hm.keyed _ earlier hearlier, TypeRecord.key, hfile, hscope, TypeRecord.key]
    refine ⟨r, hkey, ?_, hkey ▸ htable⟩
    change ':' ∉ r.file.toList
    rw [hfile]
    exact hm.plain _ earlier hearlier

/-- A function is put at its own key. -/
theorem puts_addFunction : Table.Puts FunctionRecord.key (·.file)
    (fun g : CodeGraph => g.functions) id addFunction :=
  fun _ fn _ hfn => ⟨fn, rfl, hfn, rfl⟩

/-- Merging a file with a new path keeps a graph consistent. -/
theorem consistent_addFile (h : m.graph.Consistent m.nodes) (hx : x.SelfContained)
    (hnew : x.file.absolutePath ∉ m.graph.files.keys)
    (hcolon : ':' ∉ x.file.absolutePath.toList) :
    (m.addFile x).graph.Consistent (m.addFile x).nodes where
  files := by
    intro path r hr
    rw [files_addFile, Table.get?_insert] at hr
    split at hr
    next hpath => exact Option.some.inj hr ▸ hpath
    next => exact h.files path r hr
  functions := by
    have hfunctions := h.functions
    rw [← (foldl_addType x.types m).1] at hfunctions
    rw [files_addFile]
    exact puts_addFunction.listedBy (fun fn => ⟨fn.scope, rfl⟩) hfunctions hnew hcolon
      hx.function_file hx.nodup_functions hx.mem_functions
  types := by
    rw [files_addFile, types_addFile]
    exact puts_addType.listedBy (fun t => ⟨t.scope, rfl⟩) h.types hnew hcolon hx.type_file
      hx.nodup_types hx.mem_types
  nodeIds := by
    rw [nodes_addFile]
    refine forall_nodeIds_addFile (fun id hid => ?_) fun id hid => ?_
    · exact Table.mem_keys_insertAll.2 (.inl (h.nodeIds id hid))
    · exact Table.mem_keys_insertAll.2 (.inr (hx.nodes id hid))

/-- Merging files one after the other keeps the graph consistent, if their paths are distinct and
have no colon. -/
theorem consistent_foldl_addFile {xs : List Extraction} {m : Merger}
    (h : m.graph.Consistent m.nodes) (hxs : ∀ x ∈ xs, x.SelfContained)
    (hnew : ∀ x ∈ xs, x.file.absolutePath ∉ m.graph.files.keys)
    (hdistinct : (xs.map (·.file.absolutePath)).Nodup)
    (hcolon : ∀ x ∈ xs, ':' ∉ x.file.absolutePath.toList) :
    (xs.foldl addFile m).graph.Consistent (xs.foldl addFile m).nodes := by
  induction xs generalizing m with
  | nil => exact h
  | cons x rest ih =>
    rw [List.map_cons, List.nodup_cons] at hdistinct
    rw [List.forall_mem_cons] at hxs hnew hcolon
    refine ih (consistent_addFile h hxs.1 hnew.1 hcolon.1) hxs.2 ?_ hdistinct.2 hcolon.2
    intro y hy
    rw [files_addFile, Table.mem_keys_insert, not_or]
    exact ⟨fun heq => hdistinct.1 (List.mem_map.2 ⟨y, hy, heq⟩), hnew.2 y hy⟩

end Merger

namespace CodeGraph

/-- Derived types change no key, no file and no node. -/
theorem Consistent.finalizeRelations {g : CodeGraph} {nodes : Table NodeRecord}
    (h : g.Consistent nodes) : g.finalizeRelations.Consistent nodes where
  files := h.files
  functions := h.functions
  types := by
    rw [types_finalizeRelations]
    exact h.types.map g.withDerived (fun _ => rfl) fun _ => rfl
  nodeIds := by
    obtain ⟨hfiles, htypes, hfunctions⟩ := forall_nodeIds.1 h.nodeIds
    refine forall_nodeIds.2 ⟨hfiles, ?_, hfunctions⟩
    intro t ht
    obtain ⟨k, hk⟩ := Table.mem_values.1 ht
    rw [get?_types_finalizeRelations] at hk
    obtain ⟨earlier, hearlier, rfl⟩ := Option.map_eq_some_iff.1 hk
    exact htypes earlier (Table.mem_values.2 ⟨k, hearlier⟩)

/-- Files with different paths give a consistent graph, before and after the derived types are
added. -/
theorem merged_files_consistent (files : List ParsedFile)
    (hdistinct : (files.map (·.absolutePath)).Nodup)
    (hcolon : ∀ f ∈ files, ':' ∉ f.absolutePath.toList) :
    let merged := (files.map (·.extract)).foldl Merger.addFile {}
    merged.graph.Consistent merged.nodes ∧ (ofFiles files).Consistent merged.nodes := by
  intro merged
  have hmerged : merged.graph.Consistent merged.nodes := by
    refine Merger.consistent_foldl_addFile consistent_empty ?_ ?_ ?_ ?_
    · exact List.forall_mem_map.2 fun f _ => f.selfContained_extract
    · simp [Table.mem_keys]
    · rw [List.map_map]
      exact hdistinct
    · exact List.forall_mem_map.2 hcolon
  exact ⟨hmerged, hmerged.finalizeRelations⟩

/-- Two blocks with methods of one name, before the declaration of their type. -/
def lateStruct : ParsedFile where
  grammar := .rust
  source := ⟨"A f A f A".toUTF8⟩
  tree := part "source_file" none 0 9
    [part "impl_item" none 0 3
      [part "type_identifier" (some "type") 0 1 [],
        part "function_item" none 2 3 [part "identifier" (some "name") 2 3 []]],
      part "impl_item" none 4 7
        [part "type_identifier" (some "type") 4 5 [],
          part "function_item" none 6 7 [part "identifier" (some "name") 6 7 []]],
      part "struct_item" none 8 9 [part "type_identifier" (some "name") 8 9 []]]
  path := "a.rs"
  absolutePath := "/r/a.rs"
  resolve := ⟨fun origin _ => ⟨origin, true⟩⟩

theorem keys_lateStruct :
    lateStruct.extract.functions.map (·.key) = ["/r/a.rs::A::f", "/r/a.rs::A::f"] ∧
      lateStruct.extract.types.map (·.record.key) = ["/r/a.rs::A", "/r/a.rs::A", "/r/a.rs::A"] := by
  obtain ⟨b, htypes⟩ := lateStruct.types_extract
  have hkey : (fun x : ExtractedType => x.record.key) ∘
      (fun d : Tree × Scope × TypeDecl => lateStruct.typeRecord b d.1 d.2.1 d.2.2) =
        fun d => d.2.1.key "/r/a.rs" := rfl
  rw [ParsedFile.keys_functions_extract, htypes, List.map_map, hkey, ParsedFile.declared,
    ParsedFile.scopedNodes_eq]
  decide +kernel

/-- Functions with one key are listed once, and all declarations of a type make one entry. -/
theorem lateStruct_consistent :
    let files := [lateStruct, blankFile]
    let merged := (files.map (·.extract)).foldl Merger.addFile {}
    (files.map (·.absolutePath)).Nodup ∧ (∀ f ∈ files, ':' ∉ f.absolutePath.toList) ∧
      (ofFiles files).Consistent merged.nodes ∧
      ∃ r, (ofFiles files).files.get? "/r/a.rs" = some r ∧
        r.functions = ["/r/a.rs::A::f"] ∧ r.types = ["/r/a.rs::A"] ∧
        ∃ t, (ofFiles files).types.get? "/r/a.rs::A" = some t ∧ t.key = "/r/a.rs::A" ∧
          t.file = "/r/a.rs" ∧ t.nodeId ∈ merged.nodes.keys := by
  intro files merged
  have hdistinct : (files.map (·.absolutePath)).Nodup := by decide
  have hcolon : ∀ f ∈ files, ':' ∉ f.absolutePath.toList := by
    simp [files, lateStruct, blankFile]
  have hconsistent := (merged_files_consistent files hdistinct hcolon).2
  have hfile : (ofFiles files).files.get? "/r/a.rs" = some lateStruct.extract.file :=
    get?_files_ofFiles hdistinct List.mem_cons_self
  have hfunctions : lateStruct.extract.file.functions = ["/r/a.rs::A::f"] :=
    congrArg (appendUnique []) keys_lateStruct.1
  have htypes : lateStruct.extract.file.types = ["/r/a.rs::A"] :=
    congrArg (appendUnique []) keys_lateStruct.2
  obtain ⟨t, ht, hpath⟩ :=
    (hconsistent.types.mem_listed _ _ hfile "/r/a.rs::A").1 (by simp [htypes])
  refine ⟨hdistinct, hcolon, hconsistent, _, hfile, hfunctions, htypes, t, ht,
    hconsistent.types.keyed _ t ht, hpath, ?_⟩
  exact (forall_nodeIds.1 hconsistent.nodeIds).2.1 t (Table.mem_values.2 ⟨_, ht⟩)

end CodeGraph

end CodeImpact
