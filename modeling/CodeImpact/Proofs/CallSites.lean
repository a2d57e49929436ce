import CodeImpact.Proofs.Scopes
import CodeImpact.Proofs.Unique

/-!
# Calls of a file

A call belongs to the function that the innermost node around it opens, or else to the file. Where
several functions have one key, the last one gets the calls of all of them. The functions and the
top level of a file together have each call once.
-/

namespace CodeImpact

/-! ## Numbered items -/

theorem pairwise_zipIdx {α : Type*} (l : List α) : l.zipIdx.Pairwise fun p q => p.2 < q.2 := by
  rw [← List.pairwise_map, List.zipIdx_map_snd]
  exact List.pairwise_lt_range'

theorem eq_of_mem_zipIdx {α : Type*} {l : List α} {a b : α} {i : Nat} (ha : (a, i) ∈ l.zipIdx)
    (hb : (b, i) ∈ l.zipIdx) : a = b :=
  Option.some.inj ((List.mk_mem_zipIdx_iff_getElem?.1 ha).symm.trans
    (List.mk_mem_zipIdx_iff_getElem?.1 hb))

namespace ParsedFile

/-! ## Calls and their nodes -/

variable {f : ParsedFile}

/-- What the names of a file are bound to when its calls are read. -/
def bindings (f : ParsedFile) : Bindings :=
  let nodes := f.scopedNodes
  let b := ((f.importsByNode nodes).flatMap (·.2)).foldl bindSymbols {}
  let b := (f.typeDecls nodes).foldl (fun b (_, scope, d) => bindType b scope d) b
  (f.functionDecls nodes).foldl (fun b (_, scope, d) => bindConstructor b scope d) b

/-- A call with the node that states it. -/
structure CallSite where
  focus : Focus
  record : CallRecord

/-- The calls that nodes state, with the scopes that their ancestors give. -/
def sitesIn (f : ParsedFile) : List Focus → ChainMemo → List CallSite
  | [], _ => []
  | focus :: rest, memo =>
    if f.grammar.isCall focus.node then
      let (links, memo) := f.grammar.recallChain f.source f.absolutePath focus.node memo
      let scope := f.grammar.scopeOf f.source focus
      match f.callRecord? f.bindings focus.node scope links with
      | some record => ⟨focus, record⟩ :: f.sitesIn rest memo
      | none => f.sitesIn rest memo
    else f.sitesIn rest memo

/-- A node that calls is a site, and the chains it read are remembered for the nodes behind it. -/
theorem sitesIn_of_call {focus : Focus} {rest : List Focus} {memo : ChainMemo}
    {record : CallRecord} (hcall : f.grammar.isCall focus.node = true)
    (hrecord : f.callRecord? f.bindings focus.node (f.grammar.scopeOf f.source focus)
      (f.grammar.recallChain f.source f.absolutePath focus.node memo).1 = some record) :
    f.sitesIn (focus :: rest) memo = ⟨focus, record⟩ ::
      f.sitesIn rest (f.grammar.recallChain f.source f.absolutePath focus.node memo).2 := by
  simp only [sitesIn, hcall, if_true, hrecord]

/-- The calls of a file. -/
def sites (f : ParsedFile) : List CallSite :=
  f.sitesIn f.tree.namedNodes {}

/-- The key of the function that is opened by the innermost node around a call. -/
def owner? (f : ParsedFile) (s : CallSite) : Option String :=
  (f.grammar.functionAround? f.source s.focus).map fun opening =>
    (f.grammar.scopeOf f.source opening).key f.absolutePath

/-- A call with what is needed to attach it. -/
def CallSite.owned (f : ParsedFile) (s : CallSite) : OwnedCall :=
  ⟨s.focus.node, f.owner? s, s.record⟩

/-- The owner of a call is the innermost function around it. -/
theorem owner?_eq (s : CallSite) : f.owner? s =
    (f.grammar.scopeOf f.source s.focus).enclosingFunction?.map (·.key f.absolutePath) := by
  rw [Grammar.enclosingFunction?_scopeOf, Option.map_map]
  rfl

/-- The calls of nodes with their scopes are those of the nodes. -/
theorem filterMap_callSites (nodes : List Focus) (memo : ChainMemo) :
    ((f.callSites (nodes.map fun focus => (focus, f.grammar.scopeOf f.source focus)) memo).filterMap
      fun (t, scope, links) => (f.callRecord? f.bindings t scope links).map fun record =>
        OwnedCall.mk t (scope.enclosingFunction?.map (·.key f.absolutePath)) record) =
      (f.sitesIn nodes memo).map (CallSite.owned f) := by
  induction nodes generalizing memo with
  | nil => rfl
  | cons focus rest ih =>
    rw [List.map_cons, callSites, sitesIn]
    split
    next =>
      cases hrecord : f.callRecord? f.bindings focus.node (f.grammar.scopeOf f.source focus)
          (f.grammar.recallChain f.source f.absolutePath focus.node memo).1 with
      | none => simp [hrecord, ih]
      | some record => simp [hrecord, ih, CallSite.owned, owner?_eq]
    next => exact ih memo

/-- The calls that are attached to functions are those of the sites. -/
theorem ownedCalls_eq (f : ParsedFile) :
    f.ownedCalls f.bindings f.scopedNodes = f.sites.map (CallSite.owned f) := by
  rw [ownedCalls, scopedNodes_eq]
  exact filterMap_callSites f.tree.namedNodes {}

/-- A call refers to the node that states it. -/
theorem nodeId_of_mem_sites {s : CallSite} (h : s ∈ f.sites) :
    s.record.nodeId = s.focus.node.id f.absolutePath := by
  have howned : s.owned f ∈ f.ownedCalls f.bindings f.scopedNodes :=
    f.ownedCalls_eq ▸ List.mem_map_of_mem h
  obtain ⟨site, -, hsite⟩ := List.mem_filterMap.1 howned
  obtain ⟨record, hrecord, heq⟩ := Option.map_eq_some_iff.1 hsite
  obtain ⟨callers, -, rfl⟩ := Option.map_eq_some_iff.1 hrecord
  obtain ⟨hnode, -, hrecord⟩ := OwnedCall.mk.inj heq
  rw [← hrecord, ← hnode]

/-- A site is one of the nodes, and it calls. -/
theorem mem_sitesIn {nodes : List Focus} {memo : ChainMemo} {s : CallSite}
    (h : s ∈ f.sitesIn nodes memo) : s.focus ∈ nodes ∧ f.grammar.isCall s.focus.node = true := by
  induction nodes generalizing memo with
  | nil => cases h
  | cons focus rest ih =>
    have hrest : ∀ {memo}, s ∈ f.sitesIn rest memo →
        s.focus ∈ focus :: rest ∧ f.grammar.isCall s.focus.node = true := fun hs =>
      ⟨List.mem_cons_of_mem _ (ih hs).1, (ih hs).2⟩
    rw [sitesIn] at h
    split at h
    next hcall =>
      dsimp only at h
      split at h
      · obtain rfl | h := List.mem_cons.1 h
        · exact ⟨List.mem_cons_self, hcall⟩
        · exact hrest h
      · exact hrest h
    next => exact hrest h

/-! ## Functions with one key -/

/-- The functions that a file declares, without their calls. -/
def declared (f : ParsedFile) : List FunctionRecord :=
  (f.functionDecls f.scopedNodes).map fun (t, scope, d) => f.functionRecord t scope d

/-- A function with the calls of the sites that belong to its number. -/
def attach (f : ParsedFile) (p : FunctionRecord × Nat) : FunctionRecord :=
  { p.1 with
    calls := (f.sites.filter fun s => ownerIndex? f.declared (s.owned f) = some p.2).map
      (·.record) }

theorem calls_extract (f : ParsedFile) : f.extract.calls = f.sites.map (·.record) := by
  have hcalls : f.extract.calls = (f.ownedCalls f.bindings f.scopedNodes).map (·.record) := rfl
  rw [hcalls, ownedCalls_eq, List.map_map]
  rfl

theorem functions_extract (f : ParsedFile) :
    f.extract.functions = f.declared.zipIdx.map f.attach := by
  have hfunctions : f.extract.functions = f.declared.zipIdx.map fun p =>
      { p.1 with
        calls := ((f.ownedCalls f.bindings f.scopedNodes).filter fun c =>
          ownerIndex? f.declared c = some p.2).map (·.record) } := rfl
  rw [hfunctions, ownedCalls_eq]
  simp only [List.filter_map, List.map_map]
  rfl

/-- A call is at top level iff it belongs to no function. -/
theorem topLevelCalls_extract (f : ParsedFile) :
    f.extract.file.topLevelCalls =
      (f.sites.filter fun s => (ownerIndex? f.declared (s.owned f)).isNone).map (·.record) := by
  have htop : f.extract.file.topLevelCalls =
      ((f.ownedCalls f.bindings f.scopedNodes).filter fun c =>
        (ownerIndex? f.declared c).isNone).map (·.record) := rfl
  rw [htop, ownedCalls_eq, List.filter_map, List.map_map]
  rfl

/-- Of the functions with a key, the one that gets the calls has the greatest number. -/
theorem lastWithKey?_spec {functions : List FunctionRecord} {key : String} {i : Nat}
    (h : lastWithKey? functions key = some i) :
    ∃ fn, (fn, i) ∈ functions.zipIdx ∧ fn.key = key ∧
      ∀ p ∈ functions.zipIdx, p.1.key = key → p.2 ≤ i := by
  obtain ⟨⟨fn, _⟩, hlast, rfl⟩ := Option.map_eq_some_iff.1 h
  obtain ⟨before, hfilter⟩ := List.getLast?_eq_some_iff.1 hlast
  have hordered := (pairwise_zipIdx functions).filter fun p => p.1.key = key
  rw [hfilter] at hordered
  obtain ⟨-, -, hbefore⟩ := List.pairwise_append.1 hordered
  obtain ⟨hmem, hkey⟩ := List.mem_filter.1 (List.mem_of_getLast? hlast)
  refine ⟨fn, hmem, of_decide_eq_true hkey, fun p hp hpkey => ?_⟩
  have hp : p ∈ before ++ [_] := hfilter ▸ List.mem_filter.2 ⟨hp, decide_eq_true hpkey⟩
  obtain hp | hp := List.mem_append.1 hp
  · exact Nat.le_of_lt (hbefore p hp _ (List.mem_singleton_self _))
  · exact Nat.le_of_eq (congrArg (·.2) (List.mem_singleton.1 hp))

/-- A function that a later one with its key replaces has no calls. -/
theorem calls_of_replaced (f : ParsedFile) :
    f.extract.functions.Pairwise fun fn later => fn.key = later.key → fn.calls = [] := by
  rw [functions_extract, List.pairwise_map]
  refine (pairwise_zipIdx f.declared).imp_of_mem ?_
  rintro ⟨fn, i⟩ ⟨later, j⟩ hfn hlater hlt hkey
  refine List.map_eq_nil_iff.2 (List.filter_eq_nil_iff.2 fun s _ hs => ?_)
  obtain ⟨key, -, hlast⟩ := Option.bind_eq_some_iff.1 (of_decide_eq_true hs)
  obtain ⟨fn', hfn', rfl, hmax⟩ := lastWithKey?_spec hlast
  obtain rfl := eq_of_mem_zipIdx hfn hfn'
  exact Nat.not_le_of_lt hlt (hmax _ hlater hkey.symm)

/-- If the last function with a key has number `i`, its sites are those that belong to the key. -/
theorem ownerIndex?_eq_some_iff {key : String} {i : Nat} (h : lastWithKey? f.declared key = some i)
    (s : CallSite) : ownerIndex? f.declared (s.owned f) = some i ↔ f.owner? s = some key := by
  constructor
  · intro hs
    obtain ⟨key', howner, hlast⟩ := Option.bind_eq_some_iff.1 hs
    obtain ⟨fn, hfn, hkey, -⟩ := lastWithKey?_spec h
    obtain ⟨fn', hfn', hkey', -⟩ := lastWithKey?_spec hlast
    rw [← hkey, eq_of_mem_zipIdx hfn hfn', hkey']
    exact howner
  · intro howner
    exact Option.bind_eq_some_iff.2 ⟨key, howner, h⟩

/-- Of several functions with one key the last is found. -/
theorem exists_lastWithKey? {functions : List FunctionRecord} {key : String}
    (h : ∃ fn ∈ functions, fn.key = key) :
    ∃ last, (functions.zipIdx.filter fun p => p.1.key = key).getLast? = some last ∧
      lastWithKey? functions key = some last.2 := by
  obtain ⟨fn, hfn, hkey⟩ := h
  obtain ⟨i, hi⟩ := List.mem_iff_getElem?.1 hfn
  have hmem : (fn, i) ∈ functions.zipIdx.filter fun p => p.1.key = key :=
    List.mem_filter.2 ⟨List.mk_mem_zipIdx_iff_getElem?.2 hi, decide_eq_true hkey⟩
  obtain ⟨last, hlast⟩ :=
    Option.isSome_iff_exists.1 (List.getLast?_isSome.2 (List.ne_nil_of_mem hmem))
  exact ⟨last, hlast, Option.map_eq_some_iff.2 ⟨last, hlast, rfl⟩⟩

/-- Of the functions with a key, the last has the calls that belong to the key. -/
theorem last_of_key {key : String} (h : ∃ fn ∈ f.declared, fn.key = key) :
    ∃ fn, (f.extract.functions.filter fun fn => fn.key = key).getLast? = some fn ∧
      fn.calls = (f.sites.filter fun s => f.owner? s = some key).map (·.record) := by
  obtain ⟨last, hlast, hindex⟩ := exists_lastWithKey? h
  refine ⟨f.attach last, ?_, ?_⟩
  · rw [functions_extract, List.filter_map, List.getLast?_map]
    exact congrArg (Option.map f.attach) hlast
  · refine congrArg (List.map _) (List.filter_congr fun s _ => ?_)
    exact decide_eq_decide.2 (ownerIndex?_eq_some_iff hindex s)

/-- A call around which a node opens a function belongs to a function of the file. -/
theorem exists_declared_of_owner? {l : Language} (hlanguage : f.grammar = l.grammar)
    (hnamed : f.tree.innerNamed = true) {s : CallSite} (hs : s ∈ f.sites) {key : String}
    (howner : f.owner? s = some key) : ∃ fn ∈ f.declared, fn.key = key := by
  obtain ⟨opening, hopening, rfl⟩ := Option.map_eq_some_iff.1 howner
  have hopens : l.grammar.opensFunction f.source opening = true :=
    hlanguage ▸ List.find?_some hopening
  have hmem : opening ∈ f.tree.namedNodes :=
    Focus.lineage_subset hnamed (mem_sitesIn hs).1 (List.mem_of_find?_eq_some hopening)
  obtain ⟨d, hd⟩ := Option.isSome_iff_exists.1 (l.function?_isSome hopens)
  have hscoped : (opening, f.grammar.scopeOf f.source opening) ∈ f.scopedNodes := by
    rw [scopedNodes_eq]
    exact List.mem_map.2 ⟨opening, hmem, rfl⟩
  have hdecl : (opening.node, f.grammar.scopeOf f.source opening, d) ∈
      f.functionDecls f.scopedNodes := by
    refine List.mem_filterMap.2 ⟨_, hscoped, Option.map_eq_some_iff.2 ⟨d, ?_, rfl⟩⟩
    rw [hlanguage]
    exact hd
  exact ⟨_, List.mem_map.2 ⟨_, hdecl, rfl⟩, rfl⟩

/-- The calls at top level are those around which no node opens a function. -/
theorem topLevelCalls_of_owner? {l : Language} (hlanguage : f.grammar = l.grammar)
    (hnamed : f.tree.innerNamed = true) :
    f.extract.file.topLevelCalls =
      (f.sites.filter fun s => f.owner? s = none).map (·.record) := by
  rw [topLevelCalls_extract]
  refine congrArg (List.map _) (List.filter_congr fun s hs => ?_)
  cases howner : f.owner? s with
  | none =>
    have hindex : ownerIndex? f.declared (s.owned f) = none := by
      rw [ownerIndex?, CallSite.owned, howner, Option.bind_none]
    simp [hindex]
  | some key =>
    obtain ⟨last, -, hlast⟩ :=
      exists_lastWithKey? (exists_declared_of_owner? hlanguage hnamed hs howner)
    simp [(ownerIndex?_eq_some_iff hlast s).2 howner]

/-! ## All calls of a file -/

/-- The functions and the top level of a file have its calls, each once. -/
theorem calls_perm (f : ParsedFile) :
    (f.extract.functions.flatMap (·.calls) ++ f.extract.file.topLevelCalls).Perm
      f.extract.calls := by
  have hnumbers : ∀ s ∈ f.sites, ∀ i, ownerIndex? f.declared (s.owned f) = some i →
      i ∈ f.declared.zipIdx.map (·.2) := by
    intro s _ i hs
    obtain ⟨key, -, hlast⟩ := Option.bind_eq_some_iff.1 hs
    obtain ⟨fn, hfn, -⟩ := lastWithKey?_spec hlast
    exact List.mem_map.2 ⟨(fn, i), hfn, rfl⟩
  have hdistinct : (f.declared.zipIdx.map (·.2)).Nodup := by
    rw [List.zipIdx_map_snd]
    exact List.nodup_range'
  have hperm := flatMap_filter_perm (fun s : CallSite => ownerIndex? f.declared (s.owned f))
    hdistinct hnumbers
  rw [functions_extract, topLevelCalls_extract, calls_extract]
  refine List.Perm.trans (List.Perm.of_eq ?_) (hperm.map (·.record))
  rw [List.map_append, List.map_flatMap, List.flatMap_map, List.flatMap_map]
  rfl

/-- The functions of a file have its path in their keys. -/
theorem key_of_mem {fn : FunctionRecord} (h : fn ∈ f.extract.functions) :
    fn.key = compositeKey f.absolutePath fn.scope := by
  rw [functions_extract] at h
  obtain ⟨⟨fn, i⟩, hmem, rfl⟩ := List.mem_map.1 h
  obtain ⟨⟨t, scope, d⟩, -, rfl⟩ := List.mem_map.1 (List.fst_mem_of_mem_zipIdx hmem)
  rfl

end ParsedFile

end CodeImpact
