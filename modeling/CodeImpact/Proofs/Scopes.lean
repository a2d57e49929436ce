import CodeImpact.Extraction.Basic
import CodeImpact.Grammar.Registry
import CodeImpact.Proofs.Occurrence
import Mathlib.Tactic.SplitIfs

/-!
# Scopes of nodes

Remembered scopes are those that the ancestors of a node give. The function around a node is opened
by the innermost node of its lineage that opens one, and in every language such a node declares a
function. A type that is the innermost frame is opened by an ancestor with the same scope.
-/

namespace CodeImpact

namespace Grammar

variable {g : Grammar} {src : SourceText} {root : Tree}

/-- The scope around a place with these ancestors. -/
def around (g : Grammar) (src : SourceText) : List (Nat × Tree) → Scope
  | [] => Scope.file
  | (_, a) :: above => g.scopeOf src ⟨a, above⟩

theorem scopeOf_eq (g : Grammar) (src : SourceText) (t : Tree) (above : List (Nat × Tree)) :
    g.scopeOf src ⟨t, above⟩ =
      ((g.frame? src t).map (g.around src above).push).getD (g.around src above) := by
  have haround : ((above.map (·.2)).reverse.filterMap (g.frame? src)).foldl Scope.push Scope.file =
      g.around src above := by
    cases above <;> simp [around, scopeOf]
  rw [scopeOf, List.filterMap_append, List.foldl_append, haround]
  cases hframe : g.frame? src t <;> simp [hframe]

/-! ## Remembered scopes -/

/-- What is remembered for a place is the scope of the node there. -/
def Agrees (g : Grammar) (src : SourceText) (root : Tree) (memo : ScopeMemo) : Prop :=
  ∀ f, f.Occurs root → ∀ scope, memo[f.place]? = some scope → scope = g.scopeOf src f

theorem agrees_empty : g.Agrees src root {} := by
  intro f _ scope h
  simp at h

/-- A scope that is remembered rightly keeps the memory right. -/
theorem Agrees.insert {memo : ScopeMemo} (h : g.Agrees src root memo) {f : Focus}
    (hf : f.Occurs root) : g.Agrees src root (memo.insert f.place (g.scopeOf src f)) := by
  intro f' hf' scope hget
  rw [Std.HashMap.getElem?_insert] at hget
  split at hget
  next heq =>
    rw [hf'.eq_of_place hf (eq_of_beq heq).symm]
    exact (Option.some.inj hget).symm
  next => exact h f' hf' scope hget

/-- A memory that is right answers rightly and stays right. -/
theorem scopeAround_eq {above : List (Nat × Tree)} {t : Tree} {memo : ScopeMemo}
    (ht : Focus.Occurs root ⟨t, above⟩) (h : g.Agrees src root memo) :
    (g.scopeAround src above memo).1 = g.around src above ∧
      g.Agrees src root (g.scopeAround src above memo).2 := by
  induction above generalizing t with
  | nil => exact ⟨rfl, h⟩
  | cons step above ih =>
    obtain ⟨i, a⟩ := step
    have ha : Focus.Occurs root ⟨a, above⟩ := ht.parent.1
    obtain ⟨hscope, hmemo⟩ := ih ha
    have hself : g.around src ((i, a) :: above) = g.scopeOf src ⟨a, above⟩ := rfl
    rw [hself]
    cases hframe : g.frame? src a with
    | none =>
      simp only [scopeAround, hframe, scopeOf_eq, Option.map_none, Option.getD_none]
      exact ⟨hscope, hmemo⟩
    | some frame =>
      cases hhit : memo[above.map (·.1)]? with
      | some scope =>
        simp only [scopeAround, hframe, hhit]
        exact ⟨h ⟨a, above⟩ ha scope hhit, h⟩
      | none =>
        have hpush : (g.around src above).push frame = g.scopeOf src ⟨a, above⟩ := by
          rw [scopeOf_eq, hframe, Option.map_some, Option.getD_some]
        simp only [scopeAround, hframe, hhit, hscope, hpush, true_and]
        exact hmemo.insert ha

theorem recallScope_eq {f : Focus} {memo : ScopeMemo} (hf : f.Occurs root)
    (h : g.Agrees src root memo) : (g.recallScope src f memo).1 = g.scopeOf src f ∧
      g.Agrees src root (g.recallScope src f memo).2 := by
  unfold recallScope
  cases hhit : memo[f.place]? with
  | some scope => exact ⟨h f hf scope hhit, h⟩
  | none =>
    obtain ⟨hscope, hmemo⟩ := scopeAround_eq hf h
    simp only [hscope, ← scopeOf_eq, true_and]
    exact hmemo.insert hf

/-- A run over nodes: all scopes are as if nothing had been remembered. -/
theorem recallScopes_eq {nodes : List Focus} {memo : ScopeMemo}
    (hnodes : ∀ f ∈ nodes, f.Occurs root) (h : g.Agrees src root memo) :
    g.recallScopes src nodes memo = nodes.map fun f => (f, g.scopeOf src f) := by
  induction nodes generalizing memo with
  | nil => rfl
  | cons f rest ih =>
    obtain ⟨hf, hrest⟩ := List.forall_mem_cons.1 hnodes
    obtain ⟨hscope, hmemo⟩ := recallScope_eq hf h
    simp only [recallScopes, List.map_cons, hscope, ih hrest hmemo]

end Grammar

/-- The named nodes of a file are paired with the scopes that their ancestors give. -/
theorem ParsedFile.scopedNodes_eq (f : ParsedFile) :
    f.scopedNodes = f.tree.namedNodes.map fun focus => (focus, f.grammar.scopeOf f.source focus) :=
  Grammar.recallScopes_eq (fun _ h => (Focus.mem_namedNodes.1 h).2) Grammar.agrees_empty

/-! ## The function around a node -/

namespace Scope

/-- A frame keeps being that of a function, or not being one, when it is pushed. -/
theorem frames_push (s : Scope) (frame : Frame) :
    ∃ pushed, (s.push frame).frames = s.frames ++ [pushed] ∧
      pushed.kind.isFunction = frame.kind.isFunction := by
  refine ⟨_, rfl, ?_⟩
  split
  next h =>
    simp only [Bool.and_eq_true, decide_eq_true_eq] at h
    rw [h.1]
    rfl
  next => rfl

theorem upToFunction_push_function {s : Scope} {frame : Frame}
    (h : frame.kind.isFunction = true) : (s.push frame).upToFunction = (s.push frame).frames := by
  obtain ⟨pushed, hframes, hkind⟩ := frames_push s frame
  rw [upToFunction, hframes, List.reverse_concat, List.dropWhile_cons_of_neg (by simp [hkind, h]),
    ← List.reverse_concat, List.reverse_reverse]

/-- Inside a function, it is the enclosing one. -/
theorem enclosingFunction?_push_function {s : Scope} {frame : Frame}
    (h : frame.kind.isFunction = true) :
    (s.push frame).enclosingFunction? = some (s.push frame) := by
  obtain ⟨pushed, hframes, -⟩ := frames_push s frame
  have hup := upToFunction_push_function (s := s) h
  unfold enclosingFunction?
  split
  next hnil => simp [hup, hframes] at hnil
  next => rw [hup]

/-- Without the function just opened, the scope is what it was. -/
theorem withoutInnermostFunction_push {s : Scope} {frame : Frame}
    (h : frame.kind.isFunction = true) : (s.push frame).withoutInnermostFunction = s := by
  obtain ⟨pushed, hframes, -⟩ := frames_push s frame
  have hup := upToFunction_push_function (s := s) h
  unfold withoutInnermostFunction
  split
  next hnil => simp [hup, hframes] at hnil
  next => rw [hup, hframes, List.dropLast_concat]

theorem parent?_push (s : Scope) (frame : Frame) : (s.push frame).parent? = some s := by
  simp [parent?, push]

theorem innermost?_push (s : Scope) (frame : Frame) : (s.push frame).innermost? =
    some (if frame.kind = .function && s.innermost?.any (·.kind.isType) then
      { frame with kind := .method } else frame) := by
  simp [innermost?, push]

theorem enclosingFunction?_push_other {s : Scope} {frame : Frame}
    (h : frame.kind.isFunction = false) :
    (s.push frame).enclosingFunction? = s.enclosingFunction? := by
  obtain ⟨pushed, hframes, hkind⟩ := frames_push s frame
  have hup : (s.push frame).upToFunction = s.upToFunction := by
    rw [upToFunction, hframes, List.reverse_concat, List.dropWhile_cons_of_pos (by simp [hkind, h])]
    rfl
  rw [enclosingFunction?, hup]
  rfl

end Scope

namespace Grammar

variable {g : Grammar} {src : SourceText}

/-- Whether a node opens the frame of a function. -/
def opensFunction (g : Grammar) (src : SourceText) (f : Focus) : Bool :=
  (g.frame? src f.node).any (·.kind.isFunction)

/-- The innermost node of the lineage that opens a function. -/
def functionAround? (g : Grammar) (src : SourceText) (f : Focus) : Option Focus :=
  f.lineage.find? (g.opensFunction src)

/-- A node that opens a function is enclosed by it. -/
theorem enclosingFunction?_of_opens {t : Tree} {above : List (Nat × Tree)}
    (h : g.opensFunction src ⟨t, above⟩ = true) :
    (g.scopeOf src ⟨t, above⟩).enclosingFunction? = some (g.scopeOf src ⟨t, above⟩) := by
  obtain ⟨frame, hframe, hfunction⟩ := (Option.any_eq_true _ _).1 h
  rw [scopeOf_eq, hframe]
  exact Scope.enclosingFunction?_push_function hfunction

/-- Another node is enclosed by what encloses its parent. -/
theorem enclosingFunction?_of_not_opens {t : Tree} {above : List (Nat × Tree)}
    (h : g.opensFunction src ⟨t, above⟩ = false) :
    (g.scopeOf src ⟨t, above⟩).enclosingFunction? = (g.around src above).enclosingFunction? := by
  rw [opensFunction] at h
  rw [scopeOf_eq]
  cases hframe : g.frame? src t with
  | none => rfl
  | some frame =>
    rw [hframe, Option.any_some] at h
    exact Scope.enclosingFunction?_push_other h

/-- The scope of a node up to its innermost function is the scope of the node that opens it. -/
theorem enclosingFunction?_scopeOf (g : Grammar) (src : SourceText) (f : Focus) :
    (g.scopeOf src f).enclosingFunction? = (g.functionAround? src f).map (g.scopeOf src) := by
  obtain ⟨t, above⟩ := f
  induction above generalizing t with
  | nil =>
    have hlineage : Focus.lineage ⟨t, []⟩ = [⟨t, []⟩] := rfl
    rw [functionAround?, hlineage]
    cases hopens : g.opensFunction src ⟨t, []⟩ with
    | true => simp [hopens, enclosingFunction?_of_opens hopens]
    | false =>
      rw [enclosingFunction?_of_not_opens hopens]
      simp only [List.find?_cons, hopens, List.find?_nil, Option.map_none]
      rfl
  | cons step above ih =>
    obtain ⟨i, a⟩ := step
    have hlineage : Focus.lineage ⟨t, (i, a) :: above⟩ =
        ⟨t, (i, a) :: above⟩ :: Focus.lineage ⟨a, above⟩ := rfl
    rw [functionAround?, hlineage]
    cases hopens : g.opensFunction src ⟨t, (i, a) :: above⟩ with
    | true => simp [hopens, enclosingFunction?_of_opens hopens]
    | false =>
      rw [enclosingFunction?_of_not_opens hopens, List.find?_cons_of_neg (by simp [hopens])]
      exact ih a

/-- The scope around a place that ends with the frame of a type is the scope of the ancestor that
opens the frame. -/
theorem exists_opening {above : List (Nat × Tree)} {frame : Frame}
    (h : (g.around src above).innermost? = some frame) (hkind : frame.kind.isType = true)
    (t : Tree) : ∃ x ∈ Focus.lineage ⟨t, above⟩,
      g.frame? src x.node = some frame ∧ g.scopeOf src x = g.around src above := by
  induction above generalizing t with
  | nil => cases h
  | cons step above ih =>
    obtain ⟨i, a⟩ := step
    have hlineage : Focus.lineage ⟨t, (i, a) :: above⟩ =
        ⟨t, (i, a) :: above⟩ :: Focus.lineage ⟨a, above⟩ := rfl
    have haround : g.around src ((i, a) :: above) = g.scopeOf src ⟨a, above⟩ := rfl
    rw [haround, scopeOf_eq] at h
    rw [haround]
    cases hframe : g.frame? src a with
    | none =>
      rw [hframe] at h
      obtain ⟨x, hx, hopens, hscope⟩ := ih h a
      refine ⟨x, hlineage ▸ List.mem_cons_of_mem _ hx, hopens, hscope.trans ?_⟩
      rw [scopeOf_eq, hframe]
      rfl
    | some opened =>
      rw [hframe, Option.map_some, Option.getD_some, Scope.innermost?_push] at h
      have heq := Option.some.inj h
      split at heq
      next =>
        rw [← heq] at hkind
        cases hkind
      next =>
        refine ⟨⟨a, above⟩, ?_, heq ▸ hframe, rfl⟩
        rw [hlineage]
        exact List.mem_cons_of_mem _ (Focus.mem_lineage_self _)

/-! ## Functions that frames announce -/

variable {t : Tree} {frame : Frame}

theorem Rust.function?_of_frame? (h : Rust.frame? src t = some frame)
    (hkind : frame.kind.isFunction = true) : (Rust.function? src t).isSome = true := by
  unfold Rust.frame? at h
  split_ifs at h with hstruct henum htrait himpl hfunction hlet
  all_goals obtain ⟨name, hname, rfl⟩ := Option.map_eq_some_iff.1 h
  · cases hkind
  · cases hkind
  · cases hkind
  · cases hkind
  · rw [Rust.function?, if_pos hfunction, hname]
    rfl
  · rw [Rust.function?, if_neg hfunction, if_pos hlet, hname]
    rfl

theorem Python.function?_of_frame? (h : Python.frame? src t = some frame)
    (hkind : frame.kind.isFunction = true) : (Python.function? src t).isSome = true := by
  unfold Python.frame? at h
  split_ifs at h with hclass hfunction hassign
  all_goals obtain ⟨name, hname, rfl⟩ := Option.map_eq_some_iff.1 h
  · cases hkind
  · simp [Python.function?, hfunction, hname]
  · simp [Python.function?, hassign, hname]

theorem Java.function?_of_frame? (h : Java.frame? src t = some frame)
    (hkind : frame.kind.isFunction = true) : (Java.function? src t).isSome = true := by
  obtain ⟨kind, hk, hnamed⟩ := Option.bind_eq_some_iff.1 h
  obtain ⟨name, hname, rfl⟩ := Option.map_eq_some_iff.1 hnamed
  unfold Java.frameKind? at hk
  split_ifs at hk with hclass hinterface henum hfunction
  all_goals obtain rfl := Option.some.inj hk
  · cases hkind
  · cases hkind
  · cases hkind
  · rw [Java.function?, if_pos hfunction, hname]
    rfl

/-- A declarator or field that names a function has one as its value. -/
theorem Script.functionValue?_of_functionName? {name : String}
    (h : Script.functionName? src t = some name)
    (hkind : t.kind = "variable_declarator" ∨ t.kind ∈ Script.fieldKinds) :
    (Script.functionValue? t).isSome = true := by
  have hother : ¬ Script.functionKinds.contains t.kind = true := by
    obtain hk | hk : t.kind = "variable_declarator" ∨
        t.kind = "public_field_definition" ∨ t.kind = "field_definition" := by
      simpa [Script.fieldKinds] using hkind
    · rw [hk]
      decide
    · obtain hk | hk := hk <;> rw [hk] <;> decide
  rw [Script.functionName?, if_neg hother] at h
  split_ifs at h with hvar hfield
  all_goals
    obtain ⟨value, hvalue, -⟩ := Option.bind_eq_some_iff.1 h
    rw [hvalue]
    rfl

theorem Script.function?_of_functionFrame? (h : Script.functionFrame? src t = some frame) :
    (Script.function? src t).isSome = true := by
  obtain ⟨name, hname, -⟩ := Option.map_eq_some_iff.1 h
  rw [Script.function?, hname, Option.bind_some]
  split
  next hkind =>
    rw [Option.isSome_map]
    exact Script.functionValue?_of_functionName? hname (by simpa using hkind)
  next => rfl

theorem TypeScript.function?_of_frame? (h : TypeScript.frame? src t = some frame)
    (hkind : frame.kind.isFunction = true) : (Script.function? src t).isSome = true := by
  unfold TypeScript.frame? at h
  split at h
  next kind htype =>
    obtain ⟨name, -, rfl⟩ := Option.map_eq_some_iff.1 h
    unfold TypeScript.typeFrameKind? at htype
    split_ifs at htype
    all_goals obtain rfl := Option.some.inj htype
    all_goals cases hkind
  next => exact Script.function?_of_functionFrame? h

theorem JavaScript.function?_of_frame? (h : javascript.frame? src t = some frame)
    (hkind : frame.kind.isFunction = true) : (javascript.function? src t).isSome = true := by
  simp only [javascript] at h
  split_ifs at h with hclass
  · obtain ⟨name, -, rfl⟩ := Option.map_eq_some_iff.1 h
    cases hkind
  · exact Script.function?_of_functionFrame? h

end Grammar

/-- In every language, a node that opens the frame of a function declares one. -/
theorem Language.function?_isSome (l : Language) {src : SourceText} {f : Focus}
    (h : l.grammar.opensFunction src f = true) :
    (l.grammar.function? src f.node).isSome = true := by
  obtain ⟨frame, hframe, hkind⟩ := (Option.any_eq_true _ _).1 h
  cases l with
  | rust => exact Grammar.Rust.function?_of_frame? hframe hkind
  | python => exact Grammar.Python.function?_of_frame? hframe hkind
  | java => exact Grammar.Java.function?_of_frame? hframe hkind
  | javascript => exact Grammar.JavaScript.function?_of_frame? hframe hkind
  | typescript => exact Grammar.TypeScript.function?_of_frame? hframe hkind
  | tsx => exact Grammar.TypeScript.function?_of_frame? hframe hkind

end CodeImpact
