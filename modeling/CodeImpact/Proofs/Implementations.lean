import CodeImpact.Proofs.HeritageEdges
import CodeImpact.Proofs.Methods

/-!
# Calls of implementations

A call of an interface's method also leads to a method of the same name of a type that implements the
interface. The implementing types are found by their references, so what is reached is a method of a
type that has the reference of an implementing type. Where types that share a reference implement the
same interfaces, that type implements the interface itself; where they do not, a call may lead to a
type that implements nothing.
-/

namespace CodeImpact

/-! ## Owners of functions -/

/-- The scope of a function is its name, or ends with a separator and its name. -/
def FunctionRecord.EndsScope (f : FunctionRecord) : Prop :=
  ':' ∉ f.name.toList ∧ (f.scope = f.name ∨ ':' :: ':' :: f.name.toList <:+ f.scope.toList)

instance (f : FunctionRecord) : Decidable f.EndsScope :=
  inferInstanceAs (Decidable (_ ∧ _))

namespace CodeGraph

variable {g : CodeGraph}

/-- What stands before the name in the key of a function is the key of its owner, if it has one. -/
theorem owner_of_key_eq {f : FunctionRecord} (hends : f.EndsScope) {type name : String}
    (hname : ':' ∉ name.toList) (hkey : f.key = compositeKey type name) :
    f.name = name ∧ ∀ owner, ownerKey? f = some owner → owner = type := by
  obtain ⟨hcolon, hscope | ⟨outer, houter⟩⟩ := hends
  · rw [FunctionRecord.key, hscope] at hkey
    refine ⟨(compositeKey_inj hcolon hname hkey).2, fun owner howner => ?_⟩
    -- A scope that is only a name has no separator.
    obtain ⟨_, -, hcut⟩ := Option.bind_eq_some_iff.1 howner
    obtain ⟨⟨before, last⟩, hcut, -⟩ := Option.map_eq_some_iff.1 hcut
    obtain ⟨⟨after, lead⟩, hcut', -⟩ := Option.map_eq_some_iff.1 hcut
    have htext := Text.cut?_eq_some hcut'
    rw [hscope, toList_keySeparator] at htext
    exact absurd (List.mem_reverse.1 (htext ▸ by simp)) hcolon
  · have hscope : f.scope = compositeKey (String.ofList outer) f.name := by
      rw [← String.toList_inj, toList_compositeKey, String.toList_ofList, houter]
    rw [FunctionRecord.key, hscope, compositeKey_assoc] at hkey
    obtain ⟨rfl, hname⟩ := compositeKey_inj hcolon hname hkey
    refine ⟨hname, fun owner howner => ?_⟩
    obtain ⟨_, -, hcut⟩ := Option.bind_eq_some_iff.1 howner
    rw [hscope, cutLast?_compositeKey hcolon] at hcut
    simpa using hcut.symm

/-! ## Graphs in their usual form -/

/-- Types and functions stand at the keys of their own files and scopes. -/
structure KeyedByScope (g : CodeGraph) : Prop where
  types : ∀ key t, g.types.get? key = some t → t.key = key
  functions : ∀ key f, g.functions.get? key = some f → f.key = key ∧ f.EndsScope

instance (g : CodeGraph) : Decidable g.KeyedByScope :=
  decidable_of_iff ((∀ e ∈ g.types.entries, e.2.key = e.1) ∧
      ∀ e ∈ g.functions.entries, e.2.key = e.1 ∧ e.2.EndsScope)
    ⟨fun h => ⟨fun key t ht => h.1 (key, t) (Table.mem_entries.2 ht),
        fun key f hf => h.2 (key, f) (Table.mem_entries.2 hf)⟩,
      fun h => ⟨fun _ he => h.types _ _ (Table.mem_entries.1 he),
        fun _ he => h.functions _ _ (Table.mem_entries.1 he)⟩⟩

/-- The files of types have normal paths without a colon. -/
def PlainFiles (g : CodeGraph) : Prop :=
  ∀ t ∈ g.types.values, ':' ∉ t.file.toList ∧ Path.normalize t.file = t.file

/-- Types that share a reference implement the same interfaces. -/
def ReferencesAgree (g : CodeGraph) : Prop :=
  ∀ t ∈ g.types.values, ∀ u ∈ g.types.values, t.reference = u.reference →
    t.interfaces ⊆ u.interfaces

instance (g : CodeGraph) : Decidable g.PlainFiles :=
  inferInstanceAs (Decidable (∀ t ∈ g.types.values, _ ∧ _))

instance (g : CodeGraph) : Decidable g.ReferencesAgree :=
  inferInstanceAs (Decidable (∀ t ∈ g.types.values, ∀ u ∈ g.types.values,
    t.reference = u.reference → ∀ r ∈ t.interfaces, r ∈ u.interfaces))

/-- Each type comes from one to which the derived types were added. -/
theorem exists_of_mem_types_finalizeRelations {t : TypeRecord}
    (ht : t ∈ g.finalizeRelations.types.values) : ∃ u ∈ g.types.values, g.withDerived u = t := by
  obtain ⟨key, hkey⟩ := Table.mem_values.1 ht
  rw [get?_types_finalizeRelations] at hkey
  obtain ⟨u, hu, rfl⟩ := Option.map_eq_some_iff.1 hkey
  exact ⟨u, Table.mem_values.2 ⟨key, hu⟩, rfl⟩

theorem KeyedByScope.finalizeRelations (h : g.KeyedByScope) :
    g.finalizeRelations.KeyedByScope where
  types key t ht := by
    rw [get?_types_finalizeRelations] at ht
    obtain ⟨u, hu, rfl⟩ := Option.map_eq_some_iff.1 ht
    exact h.types key u hu
  functions := h.functions

theorem PlainFiles.finalizeRelations (h : g.PlainFiles) : g.finalizeRelations.PlainFiles := by
  intro t ht
  obtain ⟨u, hu, rfl⟩ := exists_of_mem_types_finalizeRelations ht
  exact h u hu

theorem ReferencesAgree.finalizeRelations (h : g.ReferencesAgree) :
    g.finalizeRelations.ReferencesAgree := by
  intro t ht u hu
  obtain ⟨t', ht', rfl⟩ := exists_of_mem_types_finalizeRelations ht
  obtain ⟨u', hu', rfl⟩ := exists_of_mem_types_finalizeRelations hu
  exact h t' ht' u' hu'

/-- In plain files the reference of a type means the types that share it. -/
theorem PlainFiles.typesReferredTo_reference (h : g.PlainFiles) {t : TypeRecord}
    (ht : t ∈ g.types.values) : g.typesReferredTo t.reference = g.typesNamed t.reference := by
  obtain ⟨hcolon, hnormal⟩ := h t ht
  refine typesReferredTo_of_normal fun file name hsplit => ?_
  have hpath := endsAtSeparator_of_not_mem hcolon
  rw [TypeRecord.reference, splitComposite?_compositeKey hpath] at hsplit
  obtain ⟨rfl, rfl⟩ := Prod.mk.inj (Option.some.inj hsplit)
  exact hnormal

/-! ## Edges to implementations -/

/-- What an edge to an implementation comes with: a call of a method of an interface, and a type
whose method of the same name is the target. -/
structure ThroughInterface (g : CodeGraph) (source target method interface type : String) :
    Prop where
  calls : g.relations.HasEdge source method .calls
  hasMethod : g.relations.HasEdge interface method .hasMethod
  isInterface : ∃ i, g.types.get? interface = some i ∧ i.kind = .interfaceType
  sameName : ∃ m f, g.functions.get? method = some m ∧ g.functions.get? target = some f ∧
    f.name = m.name ∧ target = compositeKey type m.name
  isType : type ∈ g.types.keys
  owner : ∀ other, g.relations.HasEdge other target .hasMethod → other = type

/-- A type lists an interface, and its reference means `type`. -/
def ImplementsAs (g : CodeGraph) (interface type : String) : Prop :=
  ∃ i t, g.types.get? interface = some i ∧ t ∈ g.types.values ∧ i.reference ∈ t.interfaces ∧
    type ∈ g.typesReferredTo t.reference

/-- A call has an edge to its target, and one to the method that implements it. -/
theorem mem_callEdges {source : String} {function : Option FunctionRecord} {call : CallRecord}
    {k : EdgeKey} : k ∈ g.callEdges source function call ↔
      ∃ method, g.callTarget? function call = some method ∧ (k = ⟨source, method, .calls⟩ ∨
        ∃ m, g.implementation? method = some m ∧ k = ⟨source, m, .callsImplementation⟩) := by
  unfold callEdges
  cases htarget : g.callTarget? function call with
  | none => simp
  | some method => simp [eq_comm]

/-- An edge to an implementation comes from the method that the same call means. -/
theorem exists_calls_of_callsImplementation {source target : String}
    (h : g.relations.HasEdge source target .callsImplementation) :
    ∃ method, g.relations.HasEdge source method .calls ∧ g.implementation? method = some target := by
  rw [hasEdge_iff (by decide), mem_proposedEdges] at h
  obtain ⟨caller, function, call, hcall, hk⟩ := h
  obtain ⟨method, hmethod, hk | ⟨m, himplementation, hk⟩⟩ := mem_callEdges.1 hk
  · cases hk
  · obtain ⟨rfl, rfl⟩ : source = caller ∧ target = m := by simpa using hk
    refine ⟨method, ?_, himplementation⟩
    rw [hasEdge_iff (by decide), mem_proposedEdges]
    exact ⟨source, function, call, hcall, mem_callEdges.2 ⟨method, hmethod, .inl rfl⟩⟩

/-- A method has an edge from the type that owns it, if the type is there. -/
theorem hasEdge_hasMethod_iff {source target : String} :
    g.relations.HasEdge source target .hasMethod ↔ ∃ fn, g.functions.get? target = some fn ∧
      ownerKey? fn = some source ∧ source ∈ g.types.keys := by
  rw [hasEdge_iff (by decide), hasMethod_mem_proposedEdges]

/-- The method found in a type has the asked name, and no other owner. -/
theorem KeyedByScope.methodOf? (h : g.KeyedByScope) {type name target : String} {t : TypeRecord}
    (ht : g.types.get? type = some t) (hname : ':' ∉ name.toList)
    (hmethod : g.methodOf? t name = some target) :
    target = compositeKey type name ∧ (∃ f, g.functions.get? target = some f ∧ f.name = name) ∧
      ∀ other, g.relations.HasEdge other target .hasMethod → other = type := by
  obtain ⟨f, hf⟩ := Table.mem_keys.1 (methodOf?_mem hmethod)
  have htarget : target = compositeKey type name := by
    simp only [CodeGraph.methodOf?, Option.ite_none_right_eq_some, Option.some.injEq] at hmethod
    rw [← hmethod.2, compositeKey_assoc, ← h.types type t ht]
    rfl
  obtain ⟨hkey, hends⟩ := h.functions target f hf
  obtain ⟨hfname, howner⟩ := owner_of_key_eq hends hname (hkey.trans htarget)
  refine ⟨htarget, ⟨f, hf, hfname⟩, fun other hother => ?_⟩
  obtain ⟨f', hf', hown, -⟩ := hasEdge_hasMethod_iff.1 hother
  obtain rfl := Option.some.inj (hf.symm.trans hf')
  exact howner other hown

/-- What is listed as implementing an interface is the reference of a type that lists it. -/
theorem exists_implementer (hunderived : g.Underived) {interface r : String} {i : TypeRecord}
    (hi : g.finalizeRelations.types.get? interface = some i) (hr : r ∈ i.implementedBy) :
    ∃ t ∈ g.finalizeRelations.types.values, i.reference ∈ t.interfaces ∧ t.reference = r := by
  obtain ⟨-, hlists⟩ := listsDerived_of_underived hunderived hi
  obtain ⟨key, hderives⟩ := (hlists.mem_iff r).1 hr
  obtain ⟨t, ht, hlisted, rfl⟩ := (derives_finalizeRelations fun _ => rfl).2 hderives
  exact ⟨t, Table.mem_values.2 ⟨key, ht⟩, hlisted, rfl⟩

/-- In plain files, a type that shares the reference of an implementing one has an edge to the
interface, if such types implement the same interfaces. -/
theorem ImplementsAs.hasEdge_implements {interface type : String} (h : g.ImplementsAs interface type)
    (hplain : g.PlainFiles) (hagree : g.ReferencesAgree) :
    g.relations.HasEdge type interface .implements := by
  obtain ⟨i, t, hi, ht, hlisted, htype⟩ := h
  rw [hplain.typesReferredTo_reference ht] at htype
  obtain ⟨u, hu, hreference⟩ := mem_typesNamed.1 htype
  have hlisted' := hagree t ht u (Table.mem_values.2 ⟨type, hu⟩) hreference.symm hlisted
  refine hasEdge_implements_iff.2 ⟨u, hu, i.reference, hlisted', ?_⟩
  rw [hplain.typesReferredTo_reference (Table.mem_values.2 ⟨interface, hi⟩)]
  exact mem_typesNamed.2 ⟨i, hi, rfl⟩

/-- A call of an implementation goes through an interface to a method of the same name of a type
that has the reference of an implementing type. Where types that share a reference implement the same
interfaces, the type that owns the method implements the interface. -/
theorem implementation_calls_by_reference (hunderived : g.Underived) (hkeys : g.KeyedByScope)
    {source target : String}
    (h : g.finalizeRelations.relations.HasEdge source target .callsImplementation) :
    ∃ method interface type,
      g.finalizeRelations.ThroughInterface source target method interface type ∧
      g.finalizeRelations.ImplementsAs interface type ∧
      (g.PlainFiles → g.ReferencesAgree →
        g.finalizeRelations.relations.HasEdge type interface .implements) := by
  obtain ⟨method, hcalls, himplementation⟩ := exists_calls_of_callsImplementation h
  obtain ⟨m, i, hm, howner, hkind, r, hr, type, htype, t, ht, hmethod⟩ :=
    implementation?_eq_some himplementation
  obtain ⟨interface, hinterface, hi⟩ := Option.bind_eq_some_iff.1 howner
  have hkeys' := hkeys.finalizeRelations
  have hname : ':' ∉ m.name.toList := (hkeys'.functions method m hm).2.1
  obtain ⟨htarget, ⟨f, hf, hfname⟩, hown⟩ := hkeys'.methodOf? ht hname hmethod
  obtain ⟨u, hu, hlisted, rfl⟩ := exists_implementer hunderived hi hr
  have has : g.finalizeRelations.ImplementsAs interface type := ⟨i, u, hi, hu, hlisted, htype⟩
  refine ⟨method, interface, type, ?_, has, fun hplain hagree =>
    has.hasEdge_implements hplain.finalizeRelations hagree.finalizeRelations⟩
  exact
    { calls := hcalls
      hasMethod := hasEdge_hasMethod_iff.2 ⟨m, hm, hinterface, Table.mem_keys.2 ⟨i, hi⟩⟩
      isInterface := ⟨i, hi, hkind⟩
      sameName := ⟨m, f, hm, hf, hfname, htarget⟩
      isType := Table.mem_keys.2 ⟨t, ht⟩
      owner := hown }

/-! ## Two local classes of one name -/

/-- A method without parameters. -/
def bareMethod (file owner name : String) (className : String) (calls : List CallRecord) :
    FunctionRecord :=
  { (default : FunctionRecord) with
    file, name, scope := compositeKey owner name, className := some className, calls }

/-- An interface, a class that calls its method, and two functions with a local class `Worker` each,
of which the second implements the interface and the first what is given. -/
def localWorkers (interfaces : List String) : CodeGraph where
  types := .ofList
    [("/main::Caller", bareClass "/main" "Caller" "Caller" [] []),
      ("/runner::Runner",
        { bareClass "/runner" "Runner" "Runner" [] [] with kind := .interfaceType }),
      ("/work::first::Worker", bareClass "/work" "Worker" "first::Worker" [] interfaces),
      ("/work::second::Worker",
        bareClass "/work" "Worker" "second::Worker" [] ["/runner::Runner"])]
  functions := .ofList
    [("/main::Caller::go", bareMethod "/main" "Caller" "go" "Caller"
        [⟨"", "run", "/runner", some "runner", some "Runner", 7⟩]),
      ("/runner::Runner::run", bareMethod "/runner" "Runner" "run" "Runner" []),
      ("/work::first::Worker::run", bareMethod "/work" "first::Worker" "run" "Worker" []),
      ("/work::second::Worker::run", bareMethod "/work" "second::Worker" "run" "Worker" [])]

theorem localWorkers_call_reaches_implementer :
    let g := localWorkers ["/runner::Runner"]
    g.Underived ∧ g.KeyedByScope ∧ g.PlainFiles ∧ g.ReferencesAgree ∧
      g.finalizeRelations.relations.HasEdge "/main::Caller::go" "/work::first::Worker::run"
        .callsImplementation ∧
      ∃ method interface type,
        g.finalizeRelations.ThroughInterface "/main::Caller::go" "/work::first::Worker::run" method
          interface type ∧
        g.finalizeRelations.relations.HasEdge type interface .implements := by
  intro g
  have hunderived : g.Underived := by decide
  have hkeys : g.KeyedByScope := by decide
  have hplain : g.PlainFiles := by decide
  have hagree : g.ReferencesAgree := by decide
  have hedge : g.finalizeRelations.relations.HasEdge "/main::Caller::go"
      "/work::first::Worker::run" .callsImplementation := by decide +kernel
  obtain ⟨method, interface, type, hthrough, -, himplements⟩ :=
    implementation_calls_by_reference hunderived hkeys hedge
  exact ⟨hunderived, hkeys, hplain, hagree, hedge, method, interface, type, hthrough,
    himplements hplain hagree⟩

/-- The first `Worker` implements nothing, but has the reference of the second: the call leads to its
method, and no type that owns the method implements anything. -/
theorem localWorkers_call_reaches_other_class :
    let g := localWorkers []
    g.Underived ∧ g.KeyedByScope ∧ g.PlainFiles ∧
      g.finalizeRelations.relations.HasEdge "/main::Caller::go" "/work::first::Worker::run"
        .callsImplementation ∧
      ∀ type interface,
        g.finalizeRelations.relations.HasEdge type "/work::first::Worker::run" .hasMethod →
          ¬ g.finalizeRelations.relations.HasEdge type interface .implements := by
  intro g
  refine ⟨by decide, by decide, by decide, by decide +kernel, ?_⟩
  rintro type interface ⟨e, he, rfl, htarget, hkind⟩ ⟨e', he', hsource, rfl, hkind'⟩
  have hnone : ∀ e ∈ g.finalizeRelations.relations.edges, e.kind = .hasMethod →
      e.target = "/work::first::Worker::run" →
      ∀ e' ∈ g.finalizeRelations.relations.edges, e'.kind = .implements → e'.source ≠ e.source := by
    decide +kernel
  exact hnone e he hkind htarget e' he' hkind' hsource

end CodeGraph

end CodeImpact
