import CodeImpact.Grammar.Registry
import Mathlib.Tactic.SplitIfs

/-!
# Declarations and frames

In every language, what a node declares fits the frame that it opens. A node that declares a
function opens a frame for it, with its name. A node that opens the frame of a type declares a type
with the name of the frame, and one that opens another frame declares no type.
-/

namespace CodeImpact

namespace Grammar

variable {src : SourceText} {t : Tree} {frame : Frame} {d : FunctionDecl}

theorem Rust.frame?_of_function? (h : Rust.function? src t = some d) :
    Rust.frame? src t = some ⟨.function, d.name⟩ := by
  have hkinds : ∀ k ∈ Rust.functionKinds, ¬ Rust.structKinds.contains k = true ∧ k ≠ "enum_item" ∧
      k ≠ "trait_item" ∧ k ≠ "impl_item" := by decide
  unfold Rust.function? at h
  split_ifs at h with hfunction hlet
  · obtain ⟨name, hname, rfl⟩ := Option.map_eq_some_iff.1 h
    obtain ⟨hstruct, henum, htrait, himpl⟩ := hkinds t.kind (by simpa using hfunction)
    rw [Rust.frame?, if_neg hstruct, if_neg henum, if_neg htrait, if_neg himpl, if_pos hfunction,
      hname]
    rfl
  · obtain ⟨closure, hclosure, rfl⟩ := Option.map_eq_some_iff.1 h
    simp [Rust.frame?, hlet, Rust.structKinds, Rust.functionKinds, hclosure]

theorem Rust.typeName_of_frame? (h : Rust.frame? src t = some frame) :
    (Rust.type? src t).map (·.name) = if frame.kind.isType then some frame.name else none := by
  unfold Rust.frame? at h
  split_ifs at h with hstruct henum htrait himpl hfunction hlet
  all_goals obtain ⟨name, hname, rfl⟩ := Option.map_eq_some_iff.1 h
  · rw [Rust.type?, if_pos hstruct, hname]
    rfl
  · rw [Rust.type?, if_neg hstruct, if_pos henum, hname]
    rfl
  · rw [Rust.type?, if_neg hstruct, if_neg henum, if_pos htrait, hname]
    rfl
  · rw [Rust.type?, if_neg hstruct, if_neg henum, if_neg htrait, if_pos himpl, hname]
    rfl
  · have halias : t.kind ≠ "type_item" := by
      intro hkind
      rw [hkind] at hfunction
      revert hfunction
      decide
    rw [Rust.type?, if_neg hstruct, if_neg henum, if_neg htrait, if_neg himpl, if_neg halias]
    rfl
  · simp [Rust.type?, hlet, Rust.structKinds, ScopeKind.isType]

theorem Python.frame?_of_function? (h : Python.function? src t = some d) :
    Python.frame? src t = some ⟨.function, d.name⟩ := by
  unfold Python.function? at h
  split_ifs at h with hfunction hassign
  all_goals obtain ⟨name, hname, rfl⟩ := Option.map_eq_some_iff.1 h
  · simp [Python.frame?, hfunction, hname]
  · simp [Python.frame?, hassign, hname]

theorem Python.typeName_of_frame? (h : Python.frame? src t = some frame) :
    (Python.type? src t).map (·.name) = if frame.kind.isType then some frame.name else none := by
  unfold Python.frame? at h
  split_ifs at h with hclass hfunction hassign
  all_goals obtain ⟨name, hname, rfl⟩ := Option.map_eq_some_iff.1 h
  · rw [Python.type?, if_pos hclass, hname]
    rfl
  · rw [Python.type?, if_neg hclass]
    rfl
  · rw [Python.type?, if_neg hclass]
    rfl

theorem Java.frame?_of_function? (h : Java.function? src t = some d) :
    Java.frame? src t = some ⟨.function, d.name⟩ := by
  have hkinds : ∀ k ∈ "method_declaration" :: Java.constructorKinds,
      Java.frameKind? k = some .function := by decide
  unfold Java.function? at h
  split_ifs at h with hfunction
  obtain ⟨name, hname, rfl⟩ := Option.map_eq_some_iff.1 h
  rw [Java.frame?, hkinds t.kind (by simpa using hfunction), hname]
  rfl

theorem Java.typeName_of_frame? (h : Java.frame? src t = some frame) :
    (Java.type? src t).map (·.name) = if frame.kind.isType then some frame.name else none := by
  obtain ⟨kind, hk, hnamed⟩ := Option.bind_eq_some_iff.1 h
  obtain ⟨name, hname, rfl⟩ := Option.map_eq_some_iff.1 hnamed
  unfold Java.frameKind? at hk
  split_ifs at hk with hclass hinterface henum hfunction
  all_goals obtain rfl := Option.some.inj hk
  · rw [Java.type?, Java.typeKind?, if_pos hclass, hname]
    rfl
  · rw [Java.type?, Java.typeKind?, if_neg hclass, if_pos hinterface, hname]
    rfl
  · rw [Java.type?, Java.typeKind?, if_neg hclass, if_neg hinterface, if_pos henum, hname]
    rfl
  · rw [Java.type?, Java.typeKind?, if_neg hclass, if_neg hinterface, if_neg henum]
    rfl

/-- The kinds of nodes that name a function. -/
def Script.namingKinds : List String :=
  Script.functionKinds ++ "variable_declarator" :: Script.fieldKinds

theorem Script.mem_namingKinds {name : String} (h : Script.functionName? src t = some name) :
    t.kind ∈ Script.namingKinds := by
  unfold Script.functionName? at h
  split_ifs at h with hfunction hvar hfield
  · exact List.mem_append_left _ (by simpa using hfunction)
  · exact List.mem_append_right _ (hvar ▸ List.mem_cons_self)
  · exact List.mem_append_right _ (List.mem_cons_of_mem _ (by simpa using hfield))

theorem Script.functionFrame?_of_function? (h : Script.function? src t = some d) :
    Script.functionFrame? src t = some ⟨.function, d.name⟩ := by
  obtain ⟨name, hname, hd⟩ := Option.bind_eq_some_iff.1 h
  rw [Script.functionFrame?, hname]
  split_ifs at hd
  · obtain ⟨value, -, rfl⟩ := Option.map_eq_some_iff.1 hd
    rfl
  · obtain rfl := Option.some.inj hd
    rfl

/-- No node that names a function is one of a type. -/
theorem TypeScript.typeFrameKind?_of_function {name : String}
    (h : Script.functionName? src t = some name) : TypeScript.typeFrameKind? t.kind = none := by
  have hkinds : ∀ k ∈ Script.namingKinds, TypeScript.typeFrameKind? k = none := by decide
  exact hkinds _ (Script.mem_namingKinds h)

theorem TypeScript.frame?_of_function? (h : Script.function? src t = some d) :
    TypeScript.frame? src t = some ⟨.function, d.name⟩ := by
  obtain ⟨name, hname, -⟩ := Option.bind_eq_some_iff.1 h
  rw [TypeScript.frame?, TypeScript.typeFrameKind?_of_function hname]
  exact Script.functionFrame?_of_function? h

theorem TypeScript.typeName_of_frame? (h : TypeScript.frame? src t = some frame) :
    (TypeScript.type? src t).map (·.name) =
      if frame.kind.isType then some frame.name else none := by
  unfold TypeScript.frame? at h
  split at h
  next kind htype =>
    obtain ⟨name, hname, rfl⟩ := Option.map_eq_some_iff.1 h
    unfold TypeScript.typeFrameKind? at htype
    split_ifs at htype with hclass hinterface henum
    all_goals obtain rfl := Option.some.inj htype
    · rw [TypeScript.type?, if_pos hclass, Script.class?, hname]
      rfl
    · rw [TypeScript.type?, if_neg hclass, if_pos hinterface, hname]
      rfl
    · rw [TypeScript.type?, if_neg hclass, if_neg hinterface, if_pos henum, hname]
      rfl
  next =>
    have hkinds : ∀ k ∈ Script.namingKinds, ¬ TypeScript.classKinds.contains k = true ∧
        k ≠ "interface_declaration" ∧ k ≠ "enum_declaration" ∧ k ≠ "type_alias_declaration" := by
      decide
    obtain ⟨name, hname, rfl⟩ := Option.map_eq_some_iff.1 h
    obtain ⟨hclass, hinterface, henum, halias⟩ := hkinds _ (Script.mem_namingKinds hname)
    rw [TypeScript.type?, if_neg hclass, if_neg hinterface, if_neg henum, if_neg halias]
    rfl

theorem JavaScript.frame?_of_function? (h : javascript.function? src t = some d) :
    javascript.frame? src t = some ⟨.function, d.name⟩ := by
  have hkinds : ∀ k ∈ Script.namingKinds, ¬ Script.classKinds.contains k = true := by decide
  obtain ⟨name, hname, -⟩ := Option.bind_eq_some_iff.1 h
  simp only [javascript]
  rw [if_neg (hkinds _ (Script.mem_namingKinds hname))]
  exact Script.functionFrame?_of_function? h

theorem JavaScript.typeName_of_frame? (h : javascript.frame? src t = some frame) :
    (javascript.type? src t).map (·.name) =
      if frame.kind.isType then some frame.name else none := by
  simp only [javascript] at h ⊢
  split_ifs at h with hclass
  · obtain ⟨name, hname, rfl⟩ := Option.map_eq_some_iff.1 h
    rw [if_pos hclass, Script.class?, hname]
    rfl
  · obtain ⟨name, -, rfl⟩ := Option.map_eq_some_iff.1 h
    rw [if_neg hclass]
    rfl

end Grammar

/-- In every language, a node that declares a function opens a frame for it. -/
theorem Language.frame?_of_function? (l : Language) {src : SourceText} {t : Tree} {d : FunctionDecl}
    (h : l.grammar.function? src t = some d) :
    l.grammar.frame? src t = some ⟨.function, d.name⟩ := by
  cases l with
  | rust => exact Grammar.Rust.frame?_of_function? h
  | python => exact Grammar.Python.frame?_of_function? h
  | java => exact Grammar.Java.frame?_of_function? h
  | javascript => exact Grammar.JavaScript.frame?_of_function? h
  | typescript => exact Grammar.TypeScript.frame?_of_function? h
  | tsx => exact Grammar.TypeScript.frame?_of_function? h

/-- In every language, a node that opens a frame declares a type with the frame's name if the frame
is that of a type, and no type otherwise. -/
theorem Language.typeName_of_frame? (l : Language) {src : SourceText} {t : Tree} {frame : Frame}
    (h : l.grammar.frame? src t = some frame) :
    (l.grammar.type? src t).map (·.name) =
      if frame.kind.isType then some frame.name else none := by
  cases l with
  | rust => exact Grammar.Rust.typeName_of_frame? h
  | python => exact Grammar.Python.typeName_of_frame? h
  | java => exact Grammar.Java.typeName_of_frame? h
  | javascript => exact Grammar.JavaScript.typeName_of_frame? h
  | typescript => exact Grammar.TypeScript.typeName_of_frame? h
  | tsx => exact Grammar.TypeScript.typeName_of_frame? h

end CodeImpact
