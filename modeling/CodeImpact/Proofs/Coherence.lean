import CodeImpact.Proofs.Methods

/-!
# Coherent grammars

What a grammar says about declarations and about scopes fits together. A node declares a function if
and only if it opens the frame of a function, and a type other than an alias if and only if it opens
the frame of a type, under the same name. So the functions and types that are extracted from a file
are those whose frames its nodes open, at the keys of the scopes that they open.
-/

namespace CodeImpact

/-- What a node that declares a type opens: the frame of a type with the declared name, or none if
the type is an alias. -/
inductive TypeDecl.Opens (d : TypeDecl) : Option Frame → Prop
  | frame {kind : ScopeKind} (htype : kind.isType = true) (hkind : d.kind ≠ .aliasType) :
    d.Opens (some ⟨kind, d.name⟩)
  | nothing (hkind : d.kind = .aliasType) : d.Opens none

namespace Grammar

/-! ## The types of each language -/

variable {src : SourceText} {t : Tree} {d : TypeDecl}

theorem Rust.opens_of_type? (h : Rust.type? src t = some d) : d.Opens (Rust.frame? src t) := by
  unfold Rust.type? at h
  split_ifs at h with hstruct henum htrait himpl halias
  all_goals obtain ⟨name, hname, rfl⟩ := Option.map_eq_some_iff.1 h
  · rw [Rust.frame?, if_pos hstruct, hname]
    exact .frame rfl (by simp)
  · rw [Rust.frame?, if_neg hstruct, if_pos henum, hname]
    exact .frame rfl (by simp)
  · rw [Rust.frame?, if_neg hstruct, if_neg henum, if_pos htrait, hname]
    exact .frame rfl (by simp)
  · rw [Rust.frame?, if_neg hstruct, if_neg henum, if_neg htrait, if_pos himpl, hname]
    exact .frame rfl (by simp)
  · have hnone : Rust.frame? src t = none := by
      simp [Rust.frame?, halias, Rust.structKinds, Rust.functionKinds]
    exact hnone ▸ .nothing rfl

/-- A class that derives from a marker is declared as an interface, and opens the frame of a
class. -/
theorem Python.opens_of_type? (h : Python.type? src t = some d) : d.Opens (Python.frame? src t) := by
  unfold Python.type? at h
  split_ifs at h with hclass
  obtain ⟨name, hname, rfl⟩ := Option.map_eq_some_iff.1 h
  rw [Python.frame?, if_pos hclass, hname]
  refine .frame rfl ?_
  dsimp only
  split <;> simp

theorem Java.opens_of_type? (h : Java.type? src t = some d) : d.Opens (Java.frame? src t) := by
  obtain ⟨kind, hk, hnamed⟩ := Option.bind_eq_some_iff.1 h
  obtain ⟨name, hname, rfl⟩ := Option.map_eq_some_iff.1 hnamed
  unfold Java.typeKind? at hk
  split_ifs at hk with hclass hinterface henum
  all_goals obtain rfl := Option.some.inj hk
  · rw [Java.frame?, Java.frameKind?, if_pos hclass, hname]
    exact .frame rfl (by simp)
  · rw [Java.frame?, Java.frameKind?, if_neg hclass, if_pos hinterface, hname]
    exact .frame rfl (by simp)
  · rw [Java.frame?, Java.frameKind?, if_neg hclass, if_neg hinterface, if_pos henum, hname]
    exact .frame rfl (by simp)

theorem TypeScript.opens_of_type? (h : TypeScript.type? src t = some d) :
    d.Opens (TypeScript.frame? src t) := by
  unfold TypeScript.type? at h
  split_ifs at h with hclass hinterface henum halias
  all_goals obtain ⟨name, hname, rfl⟩ := Option.map_eq_some_iff.1 h
  · rw [TypeScript.frame?, TypeScript.typeFrameKind?, if_pos hclass]
    exact hname ▸ .frame rfl (by simp)
  · rw [TypeScript.frame?, TypeScript.typeFrameKind?, if_neg hclass, if_pos hinterface]
    exact hname ▸ .frame rfl (by simp)
  · rw [TypeScript.frame?, TypeScript.typeFrameKind?, if_neg hclass, if_neg hinterface,
      if_pos henum]
    exact hname ▸ .frame rfl (by simp)
  · have hnone : TypeScript.frame? src t = none := by
      simp [TypeScript.frame?, TypeScript.typeFrameKind?, TypeScript.classKinds, halias,
        Script.functionFrame?, Script.functionName?, Script.functionKinds, Script.fieldKinds]
    exact hnone ▸ .nothing rfl

theorem JavaScript.opens_of_type? (h : javascript.type? src t = some d) :
    d.Opens (javascript.frame? src t) := by
  simp only [javascript] at h ⊢
  split_ifs at h with hclass
  obtain ⟨name, hname, rfl⟩ := Option.map_eq_some_iff.1 h
  rw [if_pos hclass, hname]
  exact .frame rfl (by simp)

/-- What a grammar says about declarations agrees with the frames that it opens. -/
structure Coherent (g : Grammar) : Prop where
  function_iff : ∀ src t name, (∃ d, g.function? src t = some d ∧ d.name = name) ↔
    g.frame? src t = some ⟨.function, name⟩
  type_iff : ∀ src t name, (∃ d, g.type? src t = some d ∧ d.kind ≠ .aliasType ∧ d.name = name) ↔
    ∃ kind : ScopeKind, kind.isType = true ∧ g.frame? src t = some ⟨kind, name⟩
  alias_frame : ∀ src t d, g.type? src t = some d → d.kind = .aliasType → g.frame? src t = none

end Grammar

/-- In every language a declaration of a type opens the frame of its name, or none. -/
theorem Language.opens_of_type? (l : Language) {src : SourceText} {t : Tree} {d : TypeDecl}
    (h : l.grammar.type? src t = some d) : d.Opens (l.grammar.frame? src t) := by
  cases l with
  | rust => exact Grammar.Rust.opens_of_type? h
  | python => exact Grammar.Python.opens_of_type? h
  | java => exact Grammar.Java.opens_of_type? h
  | javascript => exact Grammar.JavaScript.opens_of_type? h
  | typescript => exact Grammar.TypeScript.opens_of_type? h
  | tsx => exact Grammar.TypeScript.opens_of_type? h

/-- In every language a frame of a function belongs to a declaration of it. -/
theorem Language.exists_function?_of_frame? (l : Language) {src : SourceText} {t : Tree}
    {name : String} (h : l.grammar.frame? src t = some ⟨.function, name⟩) :
    ∃ d, l.grammar.function? src t = some d ∧ d.name = name := by
  have hopens : l.grammar.opensFunction src ⟨t, []⟩ = true := by
    simp [Grammar.opensFunction, h, ScopeKind.isFunction]
  obtain ⟨d, hd⟩ := Option.isSome_iff_exists.1 (l.function?_isSome hopens)
  have hframe := (l.frame?_of_function? hd).symm.trans h
  exact ⟨d, hd, (Frame.mk.inj (Option.some.inj hframe)).2⟩

/-- In every language a frame of a type belongs to a declaration of it, which is no alias. -/
theorem Language.exists_type?_of_frame? (l : Language) {src : SourceText} {t : Tree}
    {kind : ScopeKind} {name : String} (hkind : kind.isType = true)
    (h : l.grammar.frame? src t = some ⟨kind, name⟩) :
    ∃ d, l.grammar.type? src t = some d ∧ d.kind ≠ .aliasType ∧ d.name = name := by
  have hname := l.typeName_of_frame? h
  rw [if_pos hkind] at hname
  obtain ⟨d, hd, hname⟩ := Option.map_eq_some_iff.1 hname
  have hopens := l.opens_of_type? hd
  rw [h] at hopens
  cases hopens with
  | frame _ halias => exact ⟨d, hd, halias, hname⟩

/-- All grammars are coherent. -/
theorem Language.coherent_grammar (l : Language) : l.grammar.Coherent where
  function_iff := by
    intro src t name
    constructor
    · rintro ⟨d, hd, hname⟩
      exact hname ▸ l.frame?_of_function? hd
    · exact l.exists_function?_of_frame?
  type_iff := by
    intro src t name
    constructor
    · rintro ⟨d, hd, halias, hname⟩
      have hopens := l.opens_of_type? hd
      generalize l.grammar.frame? src t = opened at hopens
      cases hopens with
      | frame hkind => exact ⟨_, hkind, hname ▸ rfl⟩
      | nothing h => exact absurd h halias
    · rintro ⟨kind, hkind, hframe⟩
      exact l.exists_type?_of_frame? hkind hframe
  alias_frame := by
    intro src t d hd halias
    have hopens := l.opens_of_type? hd
    generalize l.grammar.frame? src t = opened at hopens
    cases hopens with
    | frame _ h => exact absurd halias h
    | nothing => rfl

/-! ## The functions and types of a file -/

namespace ParsedFile

variable {f : ParsedFile}

/-- A named node that opens a frame of some kinds, with its identifier, the name of the frame and
the key of the scope that it opens. -/
structure Opening (f : ParsedFile) (kinds : ScopeKind → Prop) (id name key : String)
    (focus : Focus) : Prop where
  named : focus ∈ f.tree.namedNodes
  node : focus.node.id f.absolutePath = id
  frame : ∃ kind, kinds kind ∧ f.grammar.frame? f.source focus.node = some ⟨kind, name⟩
  scope : (f.grammar.scopeOf f.source focus).key f.absolutePath = key

/-- The functions of a file, and its types other than aliases, are what its nodes open. The key of
an alias is that of a frame added to the scope of its node. -/
structure KeyedByFrames (f : ParsedFile) : Prop where
  functions : ∀ id name key,
    (∃ fn ∈ f.extract.functions, fn.nodeId = id ∧ fn.name = name ∧ fn.key = key) ↔
      ∃ focus, f.Opening (· = .function) id name key focus
  types : ∀ id name key,
    (∃ x ∈ f.extract.types, x.record.kind ≠ .aliasType ∧ x.record.nodeId = id ∧
      x.record.name = name ∧ x.record.key = key) ↔
      ∃ focus, f.Opening (·.isType = true) id name key focus
  aliases : ∀ x ∈ f.extract.types, x.record.kind = .aliasType →
    ∃ focus ∈ f.tree.namedNodes, focus.node.id f.absolutePath = x.record.nodeId ∧
      f.grammar.frame? f.source focus.node = none ∧ x.record.key =
        ((f.grammar.scopeOf f.source focus).push ⟨.aliasType, x.record.name⟩).key f.absolutePath

/-- The functions of a file are those that its nodes declare. -/
theorem exists_function_iff {id name key : String} :
    (∃ fn ∈ f.extract.functions, fn.nodeId = id ∧ fn.name = name ∧ fn.key = key) ↔
      ∃ focus ∈ f.tree.namedNodes, ∃ d, f.grammar.function? f.source focus.node = some d ∧
        focus.node.id f.absolutePath = id ∧ d.name = name ∧
        (f.grammar.scopeOf f.source focus).key f.absolutePath = key := by
  rw [functions_extract]
  constructor
  · rintro ⟨fn, hfn, hid, hname, hkey⟩
    obtain ⟨p, hp, rfl⟩ := List.mem_map.1 hfn
    obtain ⟨declared, hdeclared, hrecord⟩ := List.mem_map.1 (List.fst_mem_of_mem_zipIdx hp)
    obtain ⟨focus, hfocus, d, hd, rfl⟩ := mem_functionDecls.1 hdeclared
    simp only [attach, ← hrecord] at hid hname hkey
    exact ⟨focus, hfocus, d, hd, hid, hname, hkey⟩
  · rintro ⟨focus, hfocus, d, hd, hid, hname, hkey⟩
    have hmem : f.functionRecord focus.node (f.grammar.scopeOf f.source focus) d ∈ f.declared :=
      List.mem_map.2 ⟨_, mem_functionDecls.2 ⟨focus, hfocus, d, hd, rfl⟩, rfl⟩
    obtain ⟨i, hi⟩ := List.mem_iff_getElem?.1 hmem
    refine ⟨_, List.mem_map_of_mem (List.mk_mem_zipIdx_iff_getElem?.2 hi), ?_⟩
    exact ⟨hid, hname, hkey⟩

theorem keyedByFrames (h : f.grammar.Coherent) : f.KeyedByFrames where
  functions := by
    intro id name key
    rw [exists_function_iff]
    constructor
    · rintro ⟨focus, hfocus, d, hd, hid, hname, hkey⟩
      exact ⟨focus, hfocus, hid, ⟨_, rfl, (h.function_iff _ _ _).1 ⟨d, hd, hname⟩⟩, hkey⟩
    · rintro ⟨focus, hfocus, hid, ⟨kind, hkind, hframe⟩, hkey⟩
      obtain ⟨d, hd, hname⟩ := (h.function_iff _ _ _).2 (hkind ▸ hframe)
      exact ⟨focus, hfocus, d, hd, hid, hname, hkey⟩
  types := by
    intro id name key
    constructor
    · rintro ⟨x, hx, halias, hrest⟩
      obtain ⟨focus, hfocus, d, hd, hkind, hid, hname, hkey⟩ :=
        exists_type_iff.1 ⟨x, hx, rfl, hrest⟩
      obtain ⟨kind, htype, hframe⟩ := (h.type_iff _ _ _).1 ⟨d, hd, hkind ▸ halias, hname⟩
      rw [typeScope_of_frame? hframe] at hkey
      exact ⟨focus, hfocus, hid, ⟨kind, htype, hframe⟩, hkey⟩
    · rintro ⟨focus, hfocus, hid, ⟨kind, htype, hframe⟩, hkey⟩
      obtain ⟨d, hd, halias, hname⟩ := (h.type_iff _ _ _).2 ⟨kind, htype, hframe⟩
      rw [← typeScope_of_frame? hframe (f.grammar.scopeOf f.source focus) d] at hkey
      obtain ⟨x, hx, hkind, hrest⟩ :=
        exists_type_iff.2 ⟨focus, hfocus, d, hd, rfl, hid, hname, hkey⟩
      exact ⟨x, hx, hkind ▸ halias, hrest⟩
  aliases := by
    intro x hx halias
    obtain ⟨focus, hfocus, d, hd, hkind, hid, hname, hkey⟩ :=
      exists_type_iff.1 ⟨x, hx, halias, rfl, rfl, rfl⟩
    have hframe := h.alias_frame _ _ _ hd hkind
    refine ⟨focus, hfocus, hid, hframe, ?_⟩
    rw [← hkey, typeScope, hframe, hname]
    rfl

end ParsedFile

/-- In every language, the nodes that declare functions are those that open frames of functions, and
the nodes that declare types other than aliases are those that open frames of types, with the same
names; so the functions and types of a file have the keys of the scopes that their nodes open. -/
theorem Language.declarations_open_frames (l : Language) :
    l.grammar.Coherent ∧ ∀ f : ParsedFile, f.grammar = l.grammar → f.KeyedByFrames := by
  refine ⟨l.coherent_grammar, ?_⟩
  intro f hl
  exact ParsedFile.keyedByFrames (hl ▸ l.coherent_grammar)

namespace CodeGraph

/-- The declaration after the blocks of its type. -/
def lateDeclaration : Focus :=
  ⟨part "struct_item" none 8 9 [part "type_identifier" (some "name") 8 9 []],
    [(2, lateStruct.tree)]⟩

/-- The declaration opens the scope of its type, and the methods in the blocks before it open scopes
inside. -/
theorem lateStruct_opens_frames :
    lateStruct.grammar = Language.rust.grammar ∧ lateStruct.KeyedByFrames ∧
      (∃ id name focus, lateStruct.Opening (· = .function) id name "/r/a.rs::A::f" focus) ∧
      ∃ x ∈ lateStruct.extract.types, x.record.kind ≠ .aliasType ∧
        x.record.nodeId = lateDeclaration.node.id "/r/a.rs" ∧
        x.record.name = "A" ∧ x.record.key = "/r/a.rs::A" := by
  have hlanguage : lateStruct.grammar = Language.rust.grammar := rfl
  have hkeyed := (Language.declarations_open_frames .rust).2 lateStruct hlanguage
  refine ⟨hlanguage, hkeyed, ?_, ?_⟩
  · have hkey : "/r/a.rs::A::f" ∈ lateStruct.extract.functions.map (·.key) := by
      simp [keys_lateStruct.1]
    obtain ⟨fn, hfn, hkey⟩ := List.mem_map.1 hkey
    obtain ⟨focus, hfocus⟩ := (hkeyed.functions _ _ _).1 ⟨fn, hfn, rfl, rfl, hkey⟩
    exact ⟨_, _, focus, hfocus⟩
  · have hnamed : lateDeclaration ∈ lateStruct.tree.namedNodes := by
      simp [lateStruct, lateDeclaration, Tree.namedNodes, Focus.named, Focus.namedIn, part]
    apply (hkeyed.types _ _ _).2
    refine ⟨lateDeclaration, hnamed, rfl, ⟨.classType, rfl, ?_⟩, ?_⟩
    · decide +kernel
    · decide +kernel

end CodeGraph

end CodeImpact
