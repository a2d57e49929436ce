import CodeImpact.Proofs.Implementations

/-!
# Targets of calls

A call is looked up at several places in turn, each a file and a display name. The first place where
a function stands decides, and of the functions there the one with the least key. A function inside
another one has the display name of a function of the top level. So where several functions of a
file share a name, a call of this name without a receiver means the one whose scope comes first,
which may be one that the caller cannot see.
-/

namespace CodeImpact

namespace CodeGraph

variable {g : CodeGraph} {file name key source target : String} {function : Option FunctionRecord}
  {call : CallRecord}

/-! ## Places -/

/-- The method of the calling function's class that a call may mean, unless it has a receiver of
another name. -/
def ownPlaces (function : Option FunctionRecord) (call : CallRecord) : List (String × String) :=
  function.toList.flatMap fun f => f.className.toList.flatMap fun owner =>
    if call.caller = none ∨ call.caller = some owner then
      [(f.file, owner ++ "." ++ call.function)]
    else []

/-- Where a call is looked up, in turn, as files and display names: in its target file as a method
of the receiver's type, as a method of a type named like the receiver and as a function, and then as
a method of the calling function's class. -/
def callPlaces (function : Option FunctionRecord) (call : CallRecord) : List (String × String) :=
  let file := Path.normalize call.file
  call.callerType.toList.map (fun type => (file, type ++ "." ++ call.function)) ++
    call.caller.toList.map (fun receiver => (file, receiver ++ "." ++ call.function)) ++
    (file, call.function) :: ownPlaces function call

theorem isOwnCall_iff {owner : String} :
    isOwnCall owner call = true ↔ call.caller = none ∨ call.caller = some owner := by
  cases h : call.caller <;> simp [isOwnCall, h]

/-- A caller's own class is looked at only for calls without a receiver or on the class itself. -/
theorem findSome?_ownPlaces {α : Type} (look : String → String → Option α)
    (function : Option FunctionRecord) (call : CallRecord) :
    (ownPlaces function call).findSome? (fun p => look p.1 p.2) = function.bind fun f =>
      (f.className.filter fun owner => isOwnCall owner call).bind fun owner =>
        look f.file (owner ++ "." ++ call.function) := by
  cases function with
  | none => rfl
  | some f =>
    cases hclass : f.className with
    | none => simp [ownPlaces, hclass]
    | some owner =>
      cases hown : isOwnCall owner call with
      | true => simp [ownPlaces, hclass, ← isOwnCall_iff, Option.filter_some, hown]
      | false => simp [ownPlaces, hclass, ← isOwnCall_iff, Option.filter_some, hown]

/-- The target is the first function at one of the places, in their order. -/
theorem callTarget?_eq_findSome? (function : Option FunctionRecord) (call : CallRecord) :
    g.callTarget? function call =
      (callPlaces function call).findSome? fun p => g.functionNamed? p.1 p.2 := by
  have htoList : ∀ (owner : Option String) (look : String → Option String),
      owner.toList.findSome? look = owner.bind look := by
    intro owner look
    cases owner <;> simp
  simp only [callPlaces, List.findSome?_append, List.findSome?_map, htoList, List.findSome?_cons,
    findSome?_ownPlaces, Option.or_assoc, callTarget?, Function.comp_def]
  cases g.functionNamed? (Path.normalize call.file) call.function <;> rfl

/-- What a call means: the least key of the functions at the first place that has one. -/
def Resolves (g : CodeGraph) (function : Option FunctionRecord) (call : CallRecord) (key : String) :
    Prop :=
  ∃ before place after, callPlaces function call = before ++ place :: after ∧
    (∀ p ∈ before, g.functionsNamed p.1 p.2 = ∅) ∧ IsLeast (g.functionsNamed place.1 place.2) key

theorem callTarget?_eq_some_iff :
    g.callTarget? function call = some key ↔ g.Resolves function call key := by
  simp only [callTarget?_eq_findSome?, List.findSome?_eq_some_iff, functionNamed?_eq_some_iff,
    functionNamed?_eq_none_iff, Resolves, and_comm (a := IsLeast _ _)]

/-- A call has no target iff none of its places has a function. -/
theorem callTarget?_eq_none_iff : g.callTarget? function call = none ↔
    ∀ p ∈ callPlaces function call, g.functionsNamed p.1 p.2 = ∅ := by
  simp only [callTarget?_eq_findSome?, List.findSome?_eq_none_iff, functionNamed?_eq_none_iff]

/-- A call is looked up in the file it names and in the caller's own. -/
theorem file_of_mem_callPlaces {p : String × String} (h : p ∈ callPlaces function call) :
    p.1 = Path.normalize call.file ∨ ∃ f, function = some f ∧ p.1 = f.file := by
  simp only [callPlaces, ownPlaces, List.mem_append, List.mem_map, List.mem_cons, List.mem_flatMap,
    Option.mem_toList] at h
  rcases h with (⟨type, -, rfl⟩ | ⟨receiver, -, rfl⟩) | rfl | ⟨f, hf, owner, -, hp⟩
  · exact .inl rfl
  · exact .inl rfl
  · exact .inl rfl
  · split at hp
    · exact .inr ⟨f, hf, by rw [List.mem_singleton.1 hp]⟩
    · cases hp

/-- What a call means stands in its target file or in the file of the calling function. -/
theorem Resolves.lands (h : g.Resolves function call key) :
    ∃ f, g.functions.get? key = some f ∧ (f.file = Path.normalize call.file ∨
      ∃ caller, function = some caller ∧ f.file = caller.file) := by
  obtain ⟨before, place, after, hplaces, -, ⟨f, hf, hfile, -⟩, -⟩ := h
  have hplace : place ∈ callPlaces function call := hplaces ▸ by simp
  refine ⟨f, hf, ?_⟩
  rw [hfile]
  exact file_of_mem_callPlaces hplace

/-! ## Call edges -/

/-- The call edges are the calls that resolve. -/
theorem hasEdge_calls_iff : g.relations.HasEdge source target .calls ↔
    ∃ function call, g.CallFrom source function call ∧ g.Resolves function call target := by
  rw [hasEdge_iff (by decide), mem_proposedEdges]
  constructor
  · rintro ⟨caller, function, call, hcall, hk⟩
    obtain ⟨method, hmethod, hk | ⟨m, -, hk⟩⟩ := mem_callEdges.1 hk
    · obtain ⟨rfl, rfl⟩ : source = caller ∧ target = method := by simpa using hk
      exact ⟨function, call, hcall, callTarget?_eq_some_iff.1 hmethod⟩
    · -- What an implementation adds is of another kind.
      cases hk
  · rintro ⟨function, call, hcall, hresolves⟩
    exact ⟨source, function, call, hcall,
      mem_callEdges.2 ⟨target, callTarget?_eq_some_iff.2 hresolves, .inl rfl⟩⟩

/-- The call edges are those from a function or a file to what one of its calls means. A call that
no function answers at any place adds no edge, and an edge leads to the target file of a call or
stays in the file of the calling function. -/
theorem call_edges_exact (g : CodeGraph) (source target : String) :
    (g.relations.HasEdge source target .calls ↔
      ∃ function call, g.CallFrom source function call ∧ g.Resolves function call target) ∧
    (∀ function call, (∀ p ∈ callPlaces function call, g.functionsNamed p.1 p.2 = ∅) →
      g.callEdges source function call = []) ∧
    (g.relations.HasEdge source target .calls → ∃ function call f,
      g.CallFrom source function call ∧ g.Resolves function call target ∧
      g.functions.get? target = some f ∧
      (f.file = Path.normalize call.file ∨
        ∃ caller, function = some caller ∧ f.file = caller.file)) := by
  refine ⟨hasEdge_calls_iff, fun function call hnone => ?_, fun hedge => ?_⟩
  · rw [callEdges, callTarget?_eq_none_iff.2 hnone]
  · obtain ⟨function, call, hcall, hresolves⟩ := hasEdge_calls_iff.1 hedge
    obtain ⟨f, hf, hfile⟩ := hresolves.lands
    exact ⟨function, call, f, hcall, hresolves, hf, hfile⟩

/-- A class with two methods; the first calls the second and a function that nobody declares, both
taken for functions of another file. -/
def ownHelper : CodeGraph where
  functions := .ofList
    [("/main::Caller::go", bareMethod "/main" "Caller" "go" "Caller"
        [⟨"", "helper", "/util", none, none, 3⟩, ⟨"", "missing", "/util", none, none, 4⟩]),
      ("/main::Caller::helper", bareMethod "/main" "Caller" "helper" "Caller" [])]

theorem ownHelper_linked_in_own_file :
    let g := ownHelper
    g.relations.HasEdge "/main::Caller::go" "/main::Caller::helper" .calls ∧
      (∃ function call f, g.CallFrom "/main::Caller::go" function call ∧
        g.Resolves function call "/main::Caller::helper" ∧
        g.functions.get? "/main::Caller::helper" = some f ∧
        (f.file = Path.normalize call.file ∨
          ∃ caller, function = some caller ∧ f.file = caller.file)) ∧
      ∃ f, g.functions.get? "/main::Caller::go" = some f ∧
        g.callEdges "/main::Caller::go" (some f) ⟨"", "missing", "/util", none, none, 4⟩ = [] := by
  intro g
  obtain ⟨-, hnone, hlands⟩ := call_edges_exact g "/main::Caller::go" "/main::Caller::helper"
  have hedge : g.relations.HasEdge "/main::Caller::go" "/main::Caller::helper" .calls := by
    decide
  refine ⟨hedge, hlands hedge, _, rfl, hnone _ _ (callTarget?_eq_none_iff.1 ?_)⟩
  decide

/-! ## Names without a receiver -/

/-- The scopes of the functions of a file with a display name. -/
def scopesNamed (g : CodeGraph) (file name : String) : Set String :=
  {scope | ∃ f ∈ g.functions.values, f.file = file ∧ f.displayName = name ∧ f.scope = scope}

/-- A function stands at the top level of a file. -/
def DeclaresTopLevel (g : CodeGraph) (file name : String) : Prop :=
  ∃ f, g.functions.get? (compositeKey file name) = some f ∧ f.file = file ∧ f.scope = name ∧
    f.name = name ∧ f.className = none

/-- A call of a name in a file, without a receiver. -/
structure IsBareCall (call : CallRecord) (file name : String) : Prop where
  caller : call.caller = none
  callerType : call.callerType = none
  file : Path.normalize call.file = file
  function : call.function = name

/-- A file imports a symbol from another file of the project. -/
def ImportsSymbol (g : CodeGraph) (path file name : String) : Prop :=
  ∃ f, g.files.get? path = some f ∧ ∃ r ∈ f.imports, r.isExternal = false ∧
    Path.normalize r.path = file ∧ name ∈ r.symbols.map (·.name)

/-- Keys of one file are ordered as their scopes. -/
theorem compositeKey_lt {scope other : String} (h : scope < other) :
    compositeKey file scope < compositeKey file other := by
  rw [String.lt_iff_toList_lt, toList_compositeKey, toList_compositeKey]
  refine List.append_left_lt ?_
  simpa using String.lt_iff_toList_lt.1 h

/-- Where functions stand at the keys of their scopes, the least key belongs to the least scope. -/
theorem isLeast_scopesNamed (hkeys : ∀ key f, g.functions.get? key = some f → f.key = key)
    (h : IsLeast (g.functionsNamed file name) key) :
    ∃ scope, key = compositeKey file scope ∧ IsLeast (g.scopesNamed file name) scope := by
  obtain ⟨⟨f, hf, rfl, rfl⟩, hleast⟩ := h
  refine ⟨f.scope, (hkeys key f hf).symm, ⟨f, Table.mem_values.2 ⟨key, hf⟩, rfl, rfl, rfl⟩, ?_⟩
  rintro scope ⟨f', hf', hfile, hname, rfl⟩
  obtain ⟨other, hother⟩ := Table.mem_values.1 hf'
  have hle : key ≤ other := hleast ⟨f', hother, hfile, hname⟩
  -- A scope before that of the least key would have a key before it.
  refine String.not_lt.1 fun hlt => String.not_lt.2 hle ?_
  rw [← hkeys key f hf, ← hkeys other f' hother, FunctionRecord.key, FunctionRecord.key, hfile]
  exact compositeKey_lt hlt

theorem DeclaresTopLevel.mem_scopesNamed (h : g.DeclaresTopLevel file name) :
    name ∈ g.scopesNamed file name := by
  obtain ⟨f, hf, hfile, hscope, hname, hclass⟩ := h
  refine ⟨f, Table.mem_values.2 ⟨_, hf⟩, hfile, ?_, hscope⟩
  rw [FunctionRecord.displayName, hclass, hname]

/-- Where a scope has a function of the name, a function is found by the name. -/
theorem exists_functionNamed? {scope : String} (h : scope ∈ g.scopesNamed file name) :
    ∃ key, g.functionNamed? file name = some key := by
  obtain ⟨f, hf, hfile, hname, -⟩ := h
  obtain ⟨key, hkey⟩ := Table.mem_values.1 hf
  refine Option.ne_none_iff_exists'.1 fun hnone => ?_
  have hmem : key ∈ g.functionsNamed file name := ⟨f, hkey, hfile, hname⟩
  rw [functionNamed?_eq_none_iff.1 hnone] at hmem
  exact hmem

/-- A call without a receiver means the function found by its name alone. -/
theorem IsBareCall.callTarget? (h : IsBareCall call file name)
    (hkey : g.functionNamed? file name = some key) : g.callTarget? function call = some key := by
  obtain ⟨hcaller, htype, rfl, rfl⟩ := h
  simp [CodeGraph.callTarget?, hcaller, htype, hkey]

/-- An imported name that no type has is looked up among the functions. -/
theorem importedConstruct?_eq_functionNamed?
    (h : ∀ t ∈ g.types.values, t.reference ≠ compositeKey file name) :
    g.importedConstruct? file name = g.functionNamed? file name := by
  have hnone : g.typesNamed (compositeKey file name) = [] := by
    refine List.eq_nil_iff_forall_not_mem.2 fun key hkey => ?_
    obtain ⟨t, ht, hreference⟩ := mem_typesNamed.1 hkey
    exact h t (Table.mem_values.2 ⟨key, ht⟩) hreference
  rw [importedConstruct?, hnone, List.head?_nil, Option.none_or]

/-- The edge that an import of a file proposes to a function is there. -/
theorem hasEdge_of_mem_importEdges {path : String} {f : FileRecord} {r : ImportRecord}
    (hf : g.files.get? path = some f) (hr : r ∈ f.imports) (htarget : target ∈ g.functions.keys)
    (hk : ⟨path, target, .imports⟩ ∈ g.importEdges g.isNode path r) :
    g.relations.HasEdge path target .imports := by
  have hproposed : ⟨path, target, .imports⟩ ∈ g.proposedEdges g.isNode :=
    mem_proposedEdges.2 ⟨path, f, hf, r, hr, hk⟩
  have hsource := mem_ids_graphNodes.2 (.inl (Table.mem_keys.2 ⟨f, hf⟩))
  obtain ⟨e, he, heq⟩ :=
    exists_edge_iff.2 ⟨hproposed, hsource, mem_ids_graphNodes.2 (.inr (.inr htarget))⟩
  obtain ⟨rfl, rfl, hkind⟩ := EdgeKey.mk.inj heq
  exact ⟨e, he, rfl, rfl, hkind⟩

/-- An imported symbol that names no type leads to the function found by the name. -/
theorem ImportsSymbol.hasEdge {path : String} (h : g.ImportsSymbol path file name)
    (hfile : file ∈ g.files.keys) (hname : name ≠ "*")
    (htypes : ∀ t ∈ g.types.values, t.reference ≠ compositeKey file name)
    (hkey : g.functionNamed? file name = some key) : g.relations.HasEdge path key .imports := by
  obtain ⟨f, hf, r, hr, hexternal, rfl, hsymbol⟩ := h
  refine hasEdge_of_mem_importEdges hf hr (functionNamed?_mem hkey) ?_
  -- The import is not cut off: its file is a node, and it names more than a star.
  have hnode : g.isNode (Path.normalize r.path) = true :=
    isNode_iff.2 (mem_ids_graphNodes.2 (.inl hfile))
  have hnamed : name ∈ (r.symbols.map (·.name)).filter (· ≠ "*") :=
    List.mem_filter.2 ⟨hsymbol, decide_eq_true hname⟩
  rw [importEdges, hexternal, hnode, if_neg (by simp),
    if_neg (by simpa using List.ne_nil_of_mem hnamed)]
  refine List.mem_map.2 ⟨name, hnamed, ?_⟩
  rw [importedConstruct?_eq_functionNamed? htypes, hkey, Option.getD_some]

/-- Where several functions of a file share a name, one of them at the top level, a call of this
name without a receiver and an import of it lead to the one with the least scope. This is the
function of the top level if and only if its name comes first among the scopes. -/
theorem bare_name_means_least_scope
    (hkeys : ∀ key f, g.functions.get? key = some f → f.key = key)
    (htop : g.DeclaresTopLevel file name) :
    ∃ scope, IsLeast (g.scopesNamed file name) scope ∧
      (scope = name ↔ ∀ other ∈ g.scopesNamed file name, name ≤ other) ∧
      (∀ source function call, g.CallFrom source function call → IsBareCall call file name →
        g.relations.HasEdge source (compositeKey file scope) .calls) ∧
      ∀ path, g.ImportsSymbol path file name → file ∈ g.files.keys → name ≠ "*" →
        (∀ t ∈ g.types.values, t.reference ≠ compositeKey file name) →
        g.relations.HasEdge path (compositeKey file scope) .imports := by
  have hmem := htop.mem_scopesNamed
  obtain ⟨key, hkey⟩ := exists_functionNamed? hmem
  obtain ⟨scope, rfl, hleast⟩ := isLeast_scopesNamed hkeys (functionNamed?_eq_some_iff.1 hkey)
  refine ⟨scope, hleast, ⟨?_, fun hfirst => ?_⟩, fun source function call hcall hbare => ?_, ?_⟩
  · rintro rfl
    exact fun other hother => hleast.2 hother
  · exact le_antisymm (hleast.2 hmem) (hfirst scope hleast.1)
  · exact hasEdge_calls_iff.2
      ⟨function, call, hcall, callTarget?_eq_some_iff.1 (hbare.callTarget? hkey)⟩
  · intro path himports hfile hname htypes
    exact himports.hasEdge hfile hname htypes hkey

/-! ## A function behind another one -/

/-- A function outside all types. -/
def bareFunction (file scope name : String) (calls : List CallRecord) : FunctionRecord :=
  { (default : FunctionRecord) with file, name, scope, calls }

/-- A file with a function `run` and another function that has a `run` inside, and a file that
imports and calls `run`. -/
def nestedRun (outer : String) : CodeGraph where
  files := .ofList
    [("/main", { (default : FileRecord) with
        path := "main"
        absolutePath := "/main"
        imports := [⟨"", "./util", [⟨"run", none⟩], "/util", false, 1⟩] }),
      ("/util", { (default : FileRecord) with path := "util", absolutePath := "/util" })]
  functions := .ofList
    [("/main::go", bareFunction "/main" "go" "go" [⟨"", "run", "/util", none, none, 3⟩]),
      (compositeKey "/util" outer, bareFunction "/util" outer outer []),
      (compositeKey "/util" (compositeKey outer "run"),
        bareFunction "/util" (compositeKey outer "run") "run" []),
      ("/util::run", bareFunction "/util" "run" "run" [])]

theorem nestedRun_leads_to_top_level :
    let g := nestedRun "setup"
    g.KeyedByScope ∧ g.DeclaresTopLevel "/util" "run" ∧ g.ImportsSymbol "/main" "/util" "run" ∧
      g.relations.HasEdge "/main::go" "/util::run" .calls ∧
      g.relations.HasEdge "/main" "/util::run" .imports := by
  intro g
  have hkeyed : g.KeyedByScope := by decide
  have htop : g.DeclaresTopLevel "/util" "run" := ⟨_, rfl, rfl, rfl, rfl, rfl⟩
  have himports : g.ImportsSymbol "/main" "/util" "run" :=
    ⟨_, rfl, _, List.mem_singleton_self _, rfl, by decide, by decide⟩
  have hscopes : ∀ f ∈ g.functions.values, f.file = "/util" → f.displayName = "run" →
      "run" ≤ f.scope := by decide
  obtain ⟨scope, -, hfirst, hcalls, hedges⟩ :=
    bare_name_means_least_scope (fun key f hf => (hkeyed.functions key f hf).1) htop
  obtain rfl : scope = "run" := by
    refine hfirst.2 ?_
    rintro other ⟨f, hf, hfile, hname, rfl⟩
    exact hscopes f hf hfile hname
  have hkey : compositeKey "/util" "run" = "/util::run" := by decide
  rw [hkey] at hcalls hedges
  refine ⟨hkeyed, htop, himports, hcalls _ _ _ (.inl ⟨_, rfl, rfl, List.mem_singleton_self _⟩)
    ⟨rfl, rfl, by decide, rfl⟩, hedges "/main" himports (by decide) (by decide) ?_⟩
  decide

/-- The `run` inside `init` has a scope before that of the other one, and both edges lead to it. -/
theorem nestedRun_hides_top_level :
    let g := nestedRun "init"
    g.KeyedByScope ∧ g.DeclaresTopLevel "/util" "run" ∧ g.ImportsSymbol "/main" "/util" "run" ∧
      (∃ function call, g.CallFrom "/main::go" function call ∧ IsBareCall call "/util" "run") ∧
      g.types.values = [] ∧
      ¬ g.relations.HasEdge "/main::go" "/util::run" .calls ∧
      g.relations.HasEdge "/main::go" "/util::init::run" .calls ∧
      ¬ g.relations.HasEdge "/main" "/util::run" .imports ∧
      g.relations.HasEdge "/main" "/util::init::run" .imports := by
  intro g
  refine ⟨by decide, ⟨_, rfl, rfl, rfl, rfl, rfl⟩,
    ⟨_, rfl, _, List.mem_singleton_self _, rfl, by decide, by decide⟩,
    ⟨_, _, .inl ⟨_, rfl, rfl, List.mem_singleton_self _⟩, rfl, rfl, by decide, rfl⟩, rfl,
    by decide, by decide, by decide, by decide⟩

end CodeGraph

end CodeImpact
