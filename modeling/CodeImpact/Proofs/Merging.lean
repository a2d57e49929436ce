import CodeImpact.CodeGraph.Heritage
import CodeImpact.CodeGraph.Merge
import CodeImpact.Proofs.KeyParts
import CodeImpact.Proofs.Table

/-!
# Merged graphs

The graph of a list of files holds the functions of all files under their keys, the last of several
with one key, and each file under its absolute path. Types with one key become one, which keeps the
file, the scope and the name of the first.
-/

namespace CodeImpact

namespace Merger

/-- A type leaves functions and files as they are. -/
theorem addType_keeps (m : Merger) (x : ExtractedType) :
    (m.addType x).graph.functions = m.graph.functions ∧
      (m.addType x).graph.files = m.graph.files := by
  cases hearlier : m.graph.types.get? x.record.key <;> simp [addType, hearlier]

/-- Types change nothing about functions and files. -/
theorem foldl_addType (types : List ExtractedType) (m : Merger) :
    (types.foldl addType m).graph.functions = m.graph.functions ∧
      (types.foldl addType m).graph.files = m.graph.files := by
  induction types generalizing m with
  | nil => exact ⟨rfl, rfl⟩
  | cons x rest ih =>
    obtain ⟨hfunctions, hfiles⟩ := ih (m.addType x)
    exact ⟨hfunctions.trans (addType_keeps m x).1, hfiles.trans (addType_keeps m x).2⟩

theorem addType_keeps_nodes (m : Merger) (x : ExtractedType) :
    (m.addType x).nodes = m.nodes ∧ (m.addType x).fileCount = m.fileCount := by
  cases hearlier : m.graph.types.get? x.record.key <;> simp [addType, hearlier]

theorem foldl_addType_nodes (types : List ExtractedType) (m : Merger) :
    (types.foldl addType m).nodes = m.nodes ∧
      (types.foldl addType m).fileCount = m.fileCount := by
  induction types generalizing m with
  | nil => exact ⟨rfl, rfl⟩
  | cons x rest ih =>
    obtain ⟨hnodes, hcount⟩ := ih (m.addType x)
    exact ⟨hnodes.trans (addType_keeps_nodes m x).1, hcount.trans (addType_keeps_nodes m x).2⟩

/-- A type is put at its key as it is, or its members are added to the type that is there, which
keeps its file, scope and name. -/
theorem types_addType (m : Merger) (x : ExtractedType) :
    ∃ r, (m.addType x).graph.types = m.graph.types.insert x.record.key r ∧
      (r = x.record ∨ ∃ t, m.graph.types.get? x.record.key = some t ∧ r.file = t.file ∧
        r.scope = t.scope ∧ r.name = t.name ∧
        (r.nodeId = t.nodeId ∨ r.nodeId = x.record.nodeId)) := by
  cases hearlier : m.graph.types.get? x.record.key with
  | none => exact ⟨x.record, by simp [addType, hearlier], .inl rfl⟩
  | some t =>
    by_cases hadopts : (!x.provisional && m.provisional.contains x.record.key) = true
    · refine ⟨(adopt t x.record).mergeFrom x.record, ?_, .inr ⟨t, rfl, rfl, rfl, rfl, .inr rfl⟩⟩
      simp only [addType, hearlier, hadopts, if_true]
    · refine ⟨t.mergeFrom x.record, ?_, .inr ⟨t, rfl, rfl, rfl, rfl, .inl rfl⟩⟩
      simp only [addType, hearlier, hadopts, if_false, Bool.false_eq_true]

/-- What holds of every declaration, and goes over to the type that it is added to, holds of every
merged type. -/
theorem forall_types_foldl_addType {types : List ExtractedType} {m : Merger}
    {P : String → TypeRecord → Prop} (hm : ∀ k t, m.graph.types.get? k = some t → P k t)
    (hdeclared : ∀ x ∈ types, P x.record.key x.record)
    (hkept : ∀ x ∈ types, ∀ t r : TypeRecord, P x.record.key t → r.name = t.name →
      (r.nodeId = t.nodeId ∨ r.nodeId = x.record.nodeId) → P x.record.key r) :
    ∀ k t, (types.foldl addType m).graph.types.get? k = some t → P k t := by
  induction types generalizing m with
  | nil => exact hm
  | cons x rest ih =>
    obtain ⟨hx, hrest⟩ := List.forall_mem_cons.1 hdeclared
    obtain ⟨hxkept, hrestkept⟩ := List.forall_mem_cons.1 hkept
    refine ih (fun k t ht => ?_) hrest hrestkept
    obtain ⟨r, htable, hr⟩ := types_addType m x
    rw [htable, Table.get?_insert] at ht
    split at ht
    next hkey =>
      obtain rfl := Option.some.inj ht
      subst hkey
      obtain rfl | ⟨earlier, hearlier, -, -, hname, hid⟩ := hr
      · exact hx
      · exact hxkept earlier r (hm _ earlier hearlier) hname hid
    next => exact hm k t ht

/-- Every type that is added has its key in the table. -/
theorem mem_keys_foldl_addType {types : List ExtractedType} {m : Merger} {k : String} :
    k ∈ (types.foldl addType m).graph.types.keys ↔
      k ∈ m.graph.types.keys ∨ ∃ x ∈ types, x.record.key = k := by
  induction types generalizing m with
  | nil => simp
  | cons x rest ih =>
    obtain ⟨r, htable, -⟩ := types_addType m x
    rw [List.foldl_cons, ih, htable, Table.mem_keys_insert, List.exists_mem_cons_iff,
      eq_comm (a := k)]
    tauto

/-- Of functions with one key the last is in the table. -/
theorem foldl_addFunction (functions : List FunctionRecord) (g : CodeGraph) :
    (functions.foldl addFunction g).functions =
        (functions.map fun f => (f.key, f)).foldl (fun t (k, f) => t.insert k f) g.functions ∧
      (functions.foldl addFunction g).files = g.files := by
  induction functions generalizing g with
  | nil => exact ⟨rfl, rfl⟩
  | cons f rest ih => exact ih (addFunction g f)

/-- A file adds its functions, and later ones replace earlier ones. -/
theorem functions_addFile (m : Merger) (x : Extraction) :
    (m.addFile x).graph.functions =
      (x.functions.map fun f => (f.key, f)).foldl (fun t (k, f) => t.insert k f)
        m.graph.functions := by
  unfold addFile
  rw [← (foldl_addType x.types m).1]
  exact (foldl_addFunction x.functions _).1

theorem files_addFile (m : Merger) (x : Extraction) :
    (m.addFile x).graph.files = m.graph.files.insert x.file.absolutePath x.file := by
  rw [← (foldl_addType x.types m).2,
    ← (foldl_addFunction x.functions (x.types.foldl addType m).graph).2]
  rfl

theorem types_addFile (m : Merger) (x : Extraction) :
    (m.addFile x).graph.types = (x.types.foldl addType m).graph.types := by
  have hfunctions : ∀ (functions : List FunctionRecord) (g : CodeGraph),
      (functions.foldl addFunction g).types = g.types := by
    intro functions g
    induction functions generalizing g with
    | nil => rfl
    | cons f rest ih => exact ih (addFunction g f)
  exact hfunctions x.functions _

theorem nodes_addFile (m : Merger) (x : Extraction) :
    (m.addFile x).nodes = m.nodes.insertAll x.nodes := by
  rw [← (foldl_addType_nodes x.types m).1]
  rfl

/-- The functions of several files are added like those of one. -/
theorem functions_foldl_addFile (xs : List Extraction) (m : Merger) :
    (xs.foldl addFile m).graph.functions =
      ((xs.flatMap (·.functions)).map fun f => (f.key, f)).foldl (fun t (k, f) => t.insert k f)
        m.graph.functions := by
  induction xs generalizing m with
  | nil => rfl
  | cons x rest ih =>
    rw [List.foldl_cons, ih, functions_addFile, List.flatMap_cons, List.map_append,
      List.foldl_append]

/-- The keys of merged types are those of the types from before and of all files. -/
theorem mem_keys_types_foldl_addFile {xs : List Extraction} {m : Merger} {k : String} :
    k ∈ (xs.foldl addFile m).graph.types.keys ↔
      k ∈ m.graph.types.keys ∨ ∃ x ∈ xs, ∃ t ∈ x.types, t.record.key = k := by
  induction xs generalizing m with
  | nil => simp
  | cons x rest ih =>
    rw [List.foldl_cons, ih, types_addFile, mem_keys_foldl_addType, List.exists_mem_cons_iff,
      or_assoc]

/-- Of files with one path the last is in the table. -/
theorem files_foldl_addFile (xs : List Extraction) (m : Merger) :
    (xs.foldl addFile m).graph.files =
      (xs.map fun x => (x.file.absolutePath, x.file)).foldl (fun t (k, f) => t.insert k f)
        m.graph.files := by
  induction xs generalizing m with
  | nil => rfl
  | cons x rest ih => rw [List.foldl_cons, ih, files_addFile, List.map_cons, List.foldl_cons]

end Merger

namespace CodeGraph

/-- The completed graph of these files, merged in this order. -/
def ofFiles (files : List ParsedFile) : CodeGraph :=
  ((files.map (·.extract)).foldl Merger.addFile {}).graph.finalizeRelations

/-- The functions of a graph are those of its files, the last one for each key. -/
theorem functions_ofFiles (files : List ParsedFile) :
    (ofFiles files).functions =
      Table.ofList ((files.flatMap (·.extract.functions)).map fun f => (f.key, f)) := by
  have hmerged := Merger.functions_foldl_addFile (files.map (·.extract)) {}
  rwa [List.flatMap_map] at hmerged

theorem files_ofFiles (files : List ParsedFile) :
    (ofFiles files).files = Table.ofList (files.map fun f => (f.absolutePath, f.extract.file)) := by
  have hmerged := Merger.files_foldl_addFile (files.map (·.extract)) {}
  rwa [List.map_map] at hmerged

end CodeGraph

end CodeImpact
