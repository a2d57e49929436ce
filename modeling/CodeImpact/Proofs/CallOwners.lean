import CodeImpact.Proofs.CallSites
import CodeImpact.Proofs.Merging

/-!
# Calls of a graph

Of several functions with one key, a graph keeps the last, which is the one that has the calls of
all of them. So a graph has every call of its files once, where it belongs.
-/

namespace CodeImpact

namespace CodeGraph

open ParsedFile

variable {files : List ParsedFile}

/-- Files with different paths have no key in common. -/
theorem key_ne_of_path_ne (hcolon : ∀ f ∈ files, ':' ∉ f.absolutePath.toList)
    {f other : ParsedFile} (hf : f ∈ files) (hother : other ∈ files)
    (hne : f.absolutePath ≠ other.absolutePath) {fn fn' : FunctionRecord}
    (hfn : fn ∈ f.extract.functions) (hfn' : fn' ∈ other.extract.functions) :
    fn.key ≠ fn'.key := by
  intro heq
  rw [key_of_mem hfn, key_of_mem hfn'] at heq
  have hpath := endsAtSeparator_of_not_mem (hcolon f hf)
  have hpath' := endsAtSeparator_of_not_mem (hcolon other hother)
  exact hne (compositeKey_inj_of_path hpath hpath' heq).1

/-- The functions of a graph have the calls that the functions of its files have. -/
theorem functionCalls_perm (hdistinct : (files.map (·.absolutePath)).Nodup)
    (hcolon : ∀ f ∈ files, ':' ∉ f.absolutePath.toList) :
    ((ofFiles files).functions.values.flatMap (·.calls)).Perm
      (files.flatMap fun f => f.extract.functions.flatMap (·.calls)) := by
  have hreplaced : (files.flatMap (·.extract.functions)).Pairwise fun fn later =>
      fn.key = later.key → fn.calls = [] := by
    refine List.pairwise_flatMap.2 ⟨fun f _ => f.calls_of_replaced, ?_⟩
    refine (List.pairwise_map.1 hdistinct).imp_of_mem ?_
    intro f other hf hother hne fn hfn later hlater hkey
    exact absurd hkey (key_ne_of_path_ne hcolon hf hother hne hfn hlater)
  rw [functions_ofFiles]
  refine (Table.flatMap_values_ofList _ (List.pairwise_map.2 hreplaced)).trans (List.Perm.of_eq ?_)
  rw [List.flatMap_map, List.flatMap_assoc]

/-- The files of a graph have the calls that its files have at top level. -/
theorem topLevelCalls_perm (hdistinct : (files.map (·.absolutePath)).Nodup) :
    ((ofFiles files).files.values.flatMap (·.topLevelCalls)).Perm
      (files.flatMap (·.extract.file.topLevelCalls)) := by
  have hreplaced : files.Pairwise fun f later =>
      f.absolutePath = later.absolutePath → f.extract.file.topLevelCalls = [] :=
    (List.pairwise_map.1 hdistinct).imp fun hne heq => absurd heq hne
  rw [files_ofFiles]
  refine (Table.flatMap_values_ofList _ (List.pairwise_map.2 hreplaced)).trans (List.Perm.of_eq ?_)
  rw [List.flatMap_map]

/-- A graph has the calls of its files, each once. -/
theorem calls_ofFiles_perm (hdistinct : (files.map (·.absolutePath)).Nodup)
    (hcolon : ∀ f ∈ files, ':' ∉ f.absolutePath.toList) :
    ((ofFiles files).functions.values.flatMap (·.calls) ++
      (ofFiles files).files.values.flatMap (·.topLevelCalls)).Perm
      (files.flatMap (·.extract.calls)) := by
  have hmerged := (functionCalls_perm hdistinct hcolon).append (topLevelCalls_perm hdistinct)
  have hfiles : (files.flatMap fun f =>
      f.extract.functions.flatMap (·.calls) ++ f.extract.file.topLevelCalls).Perm
        (files.flatMap (·.extract.calls)) :=
    List.Perm.flatMap_left files fun f _ => f.calls_perm
  exact hmerged.trans ((List.flatMap_append_perm files _ _).trans hfiles)

/-- A graph keeps the last function with a key of one of its files. -/
theorem get?_functions_ofFiles (hdistinct : (files.map (·.absolutePath)).Nodup)
    (hcolon : ∀ f ∈ files, ':' ∉ f.absolutePath.toList) {f : ParsedFile} (hf : f ∈ files)
    {key : String} {fn : FunctionRecord}
    (hlast : (f.extract.functions.filter fun fn => fn.key = key).getLast? = some fn) :
    (ofFiles files).functions.get? key = some fn := by
  obtain ⟨hfn, hkey⟩ := List.mem_filter.1 (List.mem_of_getLast? hlast)
  have hothers : ∀ other ∈ files, f.absolutePath ≠ other.absolutePath →
      (other.extract.functions.filter fun fn => fn.key = key) = [] := by
    intro other hother hne
    refine List.filter_eq_nil_iff.2 fun fn' hfn' hkey' => ?_
    refine key_ne_of_path_ne hcolon hf hother hne hfn hfn' ?_
    exact (of_decide_eq_true hkey).trans (of_decide_eq_true hkey').symm
  have hfilter : (files.flatMap (·.extract.functions)).filter (fun fn => fn.key = key) =
      f.extract.functions.filter fun fn => fn.key = key := by
    rw [List.filter_flatMap]
    exact flatMap_eq_of_distinct hdistinct hf hothers
  rw [functions_ofFiles, Table.get?_ofList, List.filter_map, List.getLast?_map, Option.map_map]
  refine Option.map_eq_some_iff.2 ⟨fn, ?_, rfl⟩
  exact (congrArg List.getLast? hfilter).trans hlast

/-- With distinct paths, every file is in the graph as it was extracted. -/
theorem get?_files_ofFiles (hdistinct : (files.map (·.absolutePath)).Nodup) {f : ParsedFile}
    (hf : f ∈ files) : (ofFiles files).files.get? f.absolutePath = some f.extract.file := by
  rw [files_ofFiles]
  refine Table.get?_ofList_of_nodup ?_ (List.mem_map.2 ⟨f, hf, rfl⟩)
  rw [List.map_map]
  exact hdistinct

/-- The calls of a file sit in a graph where they belong: those around which a node opens a function
with the function at its key, the others with the file. -/
structure Attributes (g : CodeGraph) (f : ParsedFile) : Prop where
  calls_eq : f.extract.calls = f.sites.map (·.record)
  stated : ∀ s ∈ f.sites, s.focus ∈ f.tree.namedNodes ∧ f.grammar.isCall s.focus.node = true
  owned : ∀ s ∈ f.sites, ∀ key, f.owner? s = some key →
    ∃ fn, g.functions.get? key = some fn ∧
      fn.calls = (f.sites.filter fun s => f.owner? s = some key).map (·.record)
  topLevel : ∃ file, g.files.get? f.absolutePath = some file ∧
    file.topLevelCalls = (f.sites.filter fun s => f.owner? s = none).map (·.record)

/-- In the graph of files no call is lost or repeated, and each sits where it belongs. -/
theorem ofFiles_attributes_calls (files : List ParsedFile)
    (hdistinct : (files.map (·.absolutePath)).Nodup)
    (hcolon : ∀ f ∈ files, ':' ∉ f.absolutePath.toList)
    (hnamed : ∀ f ∈ files, f.tree.innerNamed = true)
    (hlanguage : ∀ f ∈ files, ∃ l : Language, f.grammar = l.grammar) :
    (∀ f ∈ files, (ofFiles files).Attributes f) ∧
    ((ofFiles files).functions.values.flatMap (·.calls) ++
      (ofFiles files).files.values.flatMap (·.topLevelCalls)).Perm
      (files.flatMap (·.extract.calls)) ∧
    (ofFiles files).callCount = (files.flatMap (·.extract.calls)).length := by
  have hperm := calls_ofFiles_perm hdistinct hcolon
  refine ⟨fun f hf => ?_, hperm, ?_⟩
  · obtain ⟨l, hl⟩ := hlanguage f hf
    exact {
      calls_eq := f.calls_extract
      stated := fun s hs => mem_sitesIn hs
      owned := by
        intro s hs key howner
        obtain ⟨fn, hlast, hcalls⟩ :=
          last_of_key (exists_declared_of_owner? hl (hnamed f hf) hs howner)
        exact ⟨fn, get?_functions_ofFiles hdistinct hcolon hf hlast, hcalls⟩
      topLevel := ⟨f.extract.file, get?_files_ofFiles hdistinct hf,
        topLevelCalls_of_owner? hl (hnamed f hf)⟩ }
  · rw [callCount, ← List.length_append, hperm.length_eq]

/-- A named node of a tree. -/
def part (kind : String) (field : Option String) (start stop : Nat) (children : List Tree) :
    Tree :=
  ⟨kind, true, field, start, stop, children⟩

/-- A call in the first of two methods with one name. -/
def callOfG : Tree :=
  part "method_invocation" (some "body") 4 5 [part "identifier" (some "name") 4 5 []]

/-- A class with two methods of one name. -/
def overloads : ParsedFile where
  grammar := .java
  source := ⟨"A f g\nf".toUTF8⟩
  tree := part "class_declaration" none 0 7
    [part "identifier" (some "name") 0 1 [],
      part "method_declaration" none 2 5 [part "identifier" (some "name") 2 3 [], callOfG],
      part "method_declaration" none 6 7 [part "identifier" (some "name") 6 7 []]]
  path := "A.java"
  absolutePath := "/r/A.java"
  resolve := ⟨fun origin _ => ⟨origin, true⟩⟩

/-- A file with nothing in it. -/
def blankFile : ParsedFile :=
  { overloads with
    tree := part "program" none 0 0 []
    path := "B.java"
    absolutePath := "/r/B.java" }

/-- Where the call stands in its tree. -/
def callFocus : Focus :=
  overloads.tree.namedNodes.getD 4 default

theorem links_callOfG :
    (overloads.grammar.recallChain overloads.source overloads.absolutePath callOfG {}).1 =
      [⟨"g", .function⟩] := by
  have hpath : receiverPath overloads.grammar.receiver callOfG = [callOfG] := by
    rw [receiverPath]
    rfl
  have hstep : Walk.start.step (overloads.grammar.step overloads.source callOfG) =
      ⟨[⟨"g", .function⟩], false⟩ := by
    decide +kernel
  simp only [Grammar.recallChain, hpath, Grammar.recallWalk, Std.HashMap.getElem?_empty, hstep]

theorem sites_overloads :
    ∃ record, overloads.sites = [⟨callFocus, record⟩] ∧ record.function = "g" := by
  -- No other node calls, so the chain is read with nothing remembered.
  have hsites : overloads.sites =
      overloads.sitesIn (callFocus :: overloads.tree.namedNodes.drop 5) {} := rfl
  obtain ⟨record, hrecord, hfunction⟩ : ∃ record,
      overloads.callRecord? overloads.bindings callFocus.node
        (overloads.grammar.scopeOf overloads.source callFocus) [⟨"g", .function⟩] = some record ∧
      record.function = "g" := ⟨_, rfl, rfl⟩
  rw [← links_callOfG] at hrecord
  exact ⟨record, hsites.trans (sitesIn_of_call rfl hrecord), hfunction⟩

theorem overloads_keep_call :
    let files := [overloads, blankFile]
    (files.map (·.absolutePath)).Nodup ∧ (∀ f ∈ files, ':' ∉ f.absolutePath.toList) ∧
      (∀ f ∈ files, f.tree.innerNamed = true) ∧
      (∀ f ∈ files, ∃ l : Language, f.grammar = l.grammar) ∧
      (overloads.declared.map (·.key)).count "/r/A.java::A::f" = 2 ∧
      (∃ fn, (ofFiles files).functions.get? "/r/A.java::A::f" = some fn ∧
        fn.calls.map (·.function) = ["g"]) ∧
      (ofFiles files).callCount = 1 := by
  intro files
  have hdistinct : (files.map (·.absolutePath)).Nodup := by decide
  have hcolon : ∀ f ∈ files, ':' ∉ f.absolutePath.toList := by simp [files, overloads, blankFile]
  have hnamed : ∀ f ∈ files, f.tree.innerNamed = true := by
    simp only [files, List.forall_mem_cons, List.not_mem_nil, false_imp_iff, implies_true, and_true]
    exact ⟨by decide, by decide⟩
  have hlanguage : ∀ f ∈ files, ∃ l : Language, f.grammar = l.grammar := by
    simp only [files, List.forall_mem_cons, List.not_mem_nil, false_imp_iff, implies_true, and_true]
    exact ⟨⟨.java, rfl⟩, .java, rfl⟩
  have hkeys : (overloads.declared.map (·.key)).count "/r/A.java::A::f" = 2 := by
    rw [declared, scopedNodes_eq]
    decide +kernel
  obtain ⟨hattributes, -, hcount⟩ :=
    ofFiles_attributes_calls files hdistinct hcolon hnamed hlanguage
  obtain ⟨record, hsites, hfunction⟩ := sites_overloads
  have haround : ((overloads.grammar.functionAround? overloads.source callFocus).map fun opening =>
      (overloads.grammar.scopeOf overloads.source opening).key overloads.absolutePath) =
      some "/r/A.java::A::f" := by
    decide +kernel
  have howner : overloads.owner? ⟨callFocus, record⟩ = some "/r/A.java::A::f" := haround
  refine ⟨hdistinct, hcolon, hnamed, hlanguage, hkeys, ?_, ?_⟩
  · have hsite : ⟨callFocus, record⟩ ∈ overloads.sites := hsites ▸ List.mem_singleton_self _
    obtain ⟨fn, hget, hcalls⟩ :=
      (hattributes overloads List.mem_cons_self).owned ⟨callFocus, record⟩ hsite _ howner
    refine ⟨fn, hget, ?_⟩
    rw [hcalls, hsites, List.filter_cons_of_pos (by simp [howner])]
    simp [hfunction]
  · rw [hcount]
    simp only [files, List.flatMap_cons, List.flatMap_nil, List.length_append, calls_extract,
      List.length_map, hsites]
    rfl

end CodeGraph

end CodeImpact
