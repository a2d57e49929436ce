import CodeImpact.Proofs.Declarations
import CodeImpact.Proofs.Scopes
import Mathlib.Data.List.Induction
import Mathlib.Data.List.TakeWhile

/-!
# The frames of a scope

A scope holds the frames that the nodes from the root down to its own node open, in this order. Only
the kind of a frame may differ: a function that comes directly after a type is a method. For calls a
scope is cut at its innermost function. What owns the call is the scope up to and with this function,
and its receiver is looked up in the scope before it.
-/

namespace CodeImpact

namespace Scope

variable {s : Scope} {opened : List Frame} {given frame : Frame} {i : Nat}

/-! ## Frames that are pushed one after the other -/

/-- The frame with this number comes directly after the frame of a type. -/
def FollowsType (opened : List Frame) (i : Nat) : Prop :=
  ∃ j before, i = j + 1 ∧ opened[j]? = some before ∧ before.kind.isType = true

/-- What a scope makes of the frame with this number: a method of a function that follows a type,
and else no change. -/
structure Settles (opened : List Frame) (i : Nat) (given frame : Frame) : Prop where
  name_eq : frame.name = given.name
  method_iff : frame.kind = .method ↔ given.kind = .function ∧ FollowsType opened i
  kind_eq : frame.kind ≠ .method → frame.kind = given.kind

/-- The scope holds the opened frames. -/
structure Holds (s : Scope) (opened : List Frame) : Prop where
  length_eq : s.frames.length = opened.length
  settles : ∀ i given frame, opened[i]? = some given → s.frames[i]? = some frame →
    Settles opened i given frame

theorem holds_file : file.Holds [] where
  length_eq := rfl
  settles := by simp

/-- Types stay what they are. -/
theorem Settles.isType_eq (h : Settles opened i given frame) :
    frame.kind.isType = given.kind.isType := by
  by_cases hmethod : frame.kind = .method
  · rw [hmethod, (h.method_iff.1 hmethod).1]
    rfl
  · rw [h.kind_eq hmethod]

/-- A scope ends with a type if and only if what is opened next follows one. -/
theorem Holds.innermost?_isType_iff (h : s.Holds opened) :
    s.innermost?.any (·.kind.isType) = true ↔ FollowsType opened opened.length := by
  rw [Option.any_eq_true, innermost?, List.getLast?_eq_getElem?, h.length_eq]
  constructor
  · rintro ⟨frame, hframe, htype⟩
    have hlt := (List.getElem?_eq_some_iff.1 hframe).1
    rw [h.length_eq] at hlt
    have hgiven := List.getElem?_eq_getElem hlt
    exact ⟨_, _, by omega, hgiven, (h.settles _ _ _ hgiven hframe).isType_eq ▸ htype⟩
  · rintro ⟨j, before, hj, hbefore, htype⟩
    have hlt : j < s.frames.length := by
      rw [h.length_eq]
      omega
    have hframe := List.getElem?_eq_getElem hlt
    rw [hj, Nat.add_sub_cancel]
    exact ⟨_, hframe, (h.settles _ _ _ hbefore hframe).isType_eq.trans htype⟩

/-- What a scope makes of a frame does not depend on what is opened after it. -/
theorem Settles.concat (h : Settles opened i given frame) (hi : i ≤ opened.length) (last : Frame) :
    Settles (opened ++ [last]) i given frame := by
  have hfollows : FollowsType (opened ++ [last]) i ↔ FollowsType opened i := by
    refine exists_congr fun j => exists_congr fun before => and_congr_right fun hj => ?_
    rw [List.getElem?_append_left (by omega)]
  exact ⟨h.name_eq, h.method_iff.trans (and_congr_right fun _ => hfollows.symm), h.kind_eq⟩

/-- The frame that is pushed settles what is opened next. -/
theorem Holds.settles_push (h : s.Holds opened) (hkind : given.kind ≠ .method)
    (hframe : (s.push given).innermost? = some frame) :
    Settles opened opened.length given frame := by
  rw [innermost?_push] at hframe
  obtain rfl := Option.some.inj hframe
  split
  next hmethod =>
    rw [Bool.and_eq_true, decide_eq_true_eq, h.innermost?_isType_iff] at hmethod
    exact ⟨rfl, iff_of_true rfl hmethod, absurd rfl⟩
  next hother =>
    rw [Bool.and_eq_true, decide_eq_true_eq, h.innermost?_isType_iff] at hother
    exact ⟨rfl, iff_of_false hkind hother, fun _ => rfl⟩

/-- One more frame is opened and pushed. -/
theorem Holds.push (h : s.Holds opened) (hkind : given.kind ≠ .method) :
    (s.push given).Holds (opened ++ [given]) := by
  obtain ⟨pushed, hframes, -⟩ := frames_push s given
  refine ⟨by simp [hframes, h.length_eq], fun i opening frame hopening hframe => ?_⟩
  rw [hframes] at hframe
  obtain hi | rfl | hi := Nat.lt_trichotomy i opened.length
  · rw [List.getElem?_append_left hi] at hopening
    rw [List.getElem?_append_left (h.length_eq ▸ hi)] at hframe
    exact (h.settles i opening frame hopening hframe).concat (Nat.le_of_lt hi) given
  · rw [List.getElem?_concat_length] at hopening
    rw [← h.length_eq, List.getElem?_concat_length] at hframe
    obtain rfl := Option.some.inj hopening
    have hlast : (s.push given).innermost? = some frame := by
      rw [innermost?, hframes, List.getLast?_concat, hframe]
    exact (h.settles_push hkind hlast).concat (Nat.le_refl _) given
  · have hout : (opened ++ [given]).length ≤ i := by
      rw [List.length_append]
      exact hi
    rw [List.getElem?_eq_none hout] at hopening
    cases hopening

/-- The scope that arises when frames are pushed from file level on holds them. -/
theorem holds_foldl_push (hkinds : ∀ given ∈ opened, given.kind ≠ .method) :
    (opened.foldl Scope.push file).Holds opened := by
  induction opened using List.reverseRecOn with
  | nil => exact holds_file
  | append_singleton opened given ih =>
    rw [List.foldl_append, List.foldl_cons, List.foldl_nil]
    refine (ih fun x hx => hkinds x ?_).push (hkinds given ?_)
    · exact List.mem_append_left _ hx
    · exact List.mem_append_right _ (List.mem_singleton_self given)

/-! ## Where a scope is cut -/

/-- The scope is cut at its innermost function. The scope that owns a call consists of the frames
before this function and of the function, and only other frames come after it. Without a function
nothing owns a call, and nothing is cut off. -/
structure CutAtFunction (s : Scope) : Prop where
  owner : ∀ e, s.enclosingFunction? = some e → ∃ frame inner, frame.kind.isFunction = true ∧
    e.frames = s.withoutInnermostFunction.frames ++ [frame] ∧ s.frames = e.frames ++ inner ∧
    ∀ x ∈ inner, x.kind.isFunction = false
  owner_eq_none_iff : s.enclosingFunction? = none ↔ ∀ x ∈ s.frames, x.kind.isFunction = false
  uncut : s.enclosingFunction? = none → s.withoutInnermostFunction = s

/-- Only other frames come after the innermost function. -/
theorem exists_frames_eq (s : Scope) : ∃ inner, s.frames = s.upToFunction ++ inner ∧
    ∀ x ∈ inner, x.kind.isFunction = false := by
  refine ⟨(s.frames.reverse.takeWhile fun x => !x.kind.isFunction).reverse, ?_, fun x hx => ?_⟩
  · rw [upToFunction, ← List.reverse_append, List.takeWhile_append_dropWhile, List.reverse_reverse]
  · simpa using List.mem_takeWhile_imp (List.mem_reverse.1 hx)

/-- The frames up to the innermost function end with it. -/
theorem isFunction_of_upToFunction {outer : List Frame} (h : s.upToFunction = outer ++ [frame]) :
    frame.kind.isFunction = true := by
  have hrest : s.frames.reverse.dropWhile (fun x => !x.kind.isFunction) = frame :: outer.reverse := by
    rw [← List.reverse_concat, ← h, upToFunction, List.reverse_reverse]
  have hhead := List.head?_dropWhile_not (fun x : Frame => !x.kind.isFunction) s.frames.reverse
  rw [hrest] at hhead
  simpa using hhead

theorem cutAtFunction (s : Scope) : s.CutAtFunction := by
  obtain ⟨inner, hframes, hinner⟩ := s.exists_frames_eq
  obtain hup | ⟨outer, frame, hup⟩ := List.eq_nil_or_concat s.upToFunction
  · have hnone : s.enclosingFunction? = none := by rw [enclosingFunction?, hup]
    rw [hup, List.nil_append] at hframes
    exact {
      owner := by simp [hnone]
      owner_eq_none_iff := iff_of_true hnone (hframes ▸ hinner)
      uncut := fun _ => by rw [withoutInnermostFunction, hup] }
  · rw [List.concat_eq_append] at hup
    have hfunction := isFunction_of_upToFunction hup
    have howner : s.enclosingFunction? = some ⟨outer ++ [frame]⟩ := by
      rw [enclosingFunction?]
      split
      next hnil => simp [hup] at hnil
      next => rw [hup]
    have houter : s.withoutInnermostFunction = ⟨outer⟩ := by
      rw [withoutInnermostFunction]
      split
      next hnil => simp [hup] at hnil
      next => rw [hup, List.dropLast_concat]
    rw [hup] at hframes
    refine ⟨fun e he => ?_, ?_, by simp [howner]⟩
    · obtain rfl := Option.some.inj (howner.symm.trans he)
      exact ⟨frame, inner, hfunction, by rw [houter], hframes, hinner⟩
    · refine iff_of_false (by simp [howner]) fun hall => ?_
      rw [hall frame (by simp [hframes])] at hfunction
      cases hfunction

end Scope

/-! ## The frames that the nodes of a tree open -/

namespace Grammar

/-- The frames that the ancestors of a node and the node itself open, the outermost first. -/
def openedFrames (g : Grammar) (src : SourceText) (f : Focus) : List Frame :=
  f.lineage.reverse.filterMap fun x => g.frame? src x.node

theorem map_node_lineage (f : Focus) : f.lineage.map (·.node) = f.node :: f.above.map (·.2) := by
  obtain ⟨t, above⟩ := f
  induction above generalizing t with
  | nil => rfl
  | cons step above ih =>
    have hlineage : Focus.lineage ⟨t, step :: above⟩ =
        ⟨t, step :: above⟩ :: Focus.lineage ⟨step.2, above⟩ := rfl
    rw [hlineage, List.map_cons, ih, List.map_cons]

/-- A scope is built from the frames that are opened on the way to a node, from the outside in. -/
theorem scopeOf_eq_foldl_push (g : Grammar) (src : SourceText) (f : Focus) :
    g.scopeOf src f = (g.openedFrames src f).foldl Scope.push Scope.file := by
  have hnodes : (f.above.map (·.2)).reverse ++ [f.node] = f.lineage.reverse.map (·.node) := by
    rw [List.map_reverse, map_node_lineage, List.reverse_cons]
  rw [scopeOf, hnodes, List.filterMap_map]
  rfl

end Grammar

/-- In every language, the frame of a function is opened as such and never as that of a method. -/
theorem Language.kind_ne_method (l : Language) {src : SourceText} {f : Focus} {frame : Frame}
    (h : l.grammar.frame? src f.node = some frame) : frame.kind ≠ .method := by
  intro hkind
  have hopens : l.grammar.opensFunction src f = true := by
    rw [Grammar.opensFunction, h, Option.any_some, hkind]
    rfl
  obtain ⟨d, hd⟩ := Option.isSome_iff_exists.1 (l.function?_isSome hopens)
  have hframe := l.frame?_of_function? hd
  rw [h] at hframe
  rw [Option.some.inj hframe] at hkind
  cases hkind

/-- In every language a scope holds the frames that are opened around the node. -/
theorem Language.holds_scopeOf (l : Language) (src : SourceText) (f : Focus) :
    (l.grammar.scopeOf src f).Holds (l.grammar.openedFrames src f) := by
  rw [Grammar.scopeOf_eq_foldl_push]
  refine Scope.holds_foldl_push fun frame hframe => ?_
  obtain ⟨x, -, hx⟩ := List.mem_filterMap.1 hframe
  exact l.kind_ne_method hx

/-- However the nodes of a tree are asked for their scopes one after the other, each is answered by
the frames that its ancestors and itself open, in which the functions directly after a type are the
methods. Each of these scopes is cut at its innermost function. -/
theorem Language.scopes_hold_opened_frames (l : Language) (src : SourceText) (root : Tree)
    (asked : List Focus) (h : ∀ f ∈ asked, f.Occurs root) :
    (l.grammar.recallScopes src asked {}).map (·.1) = asked ∧
    ∀ f s, (f, s) ∈ l.grammar.recallScopes src asked {} →
      s.Holds (l.grammar.openedFrames src f) ∧ s.CutAtFunction := by
  rw [Grammar.recallScopes_eq h Grammar.agrees_empty]
  refine ⟨by simp [Function.comp_def], fun f s hmem => ?_⟩
  obtain ⟨x, -, hx⟩ := List.mem_map.1 hmem
  obtain ⟨rfl, rfl⟩ := Prod.mk.inj hx
  exact ⟨l.holds_scopeOf src x, Scope.cutAtFunction _⟩

namespace Grammar.Python

/-- A class with a method that defines a function. -/
def classSource : SourceText :=
  ⟨"class A:\n def m():\n  def k(): 0".toUTF8⟩

/-- A definition up to the end of the source, with a name of one letter at `place`. -/
def definition (kind : String) (start place : Nat) (body : List Tree) : Tree :=
  ⟨kind, true, none, start, 31, ⟨"identifier", true, some "name", place, place + 1, []⟩ :: body⟩

def localFunction : Tree := definition "function_definition" 21 25 []

def methodBody : Tree := ⟨"block", true, some "body", 21, 31, [localFunction]⟩

def methodDefinition : Tree := definition "function_definition" 10 14 [methodBody]

def classBody : Tree := ⟨"block", true, some "body", 10, 31, [methodDefinition]⟩

def classDefinition : Tree := definition "class_definition" 0 6 [classBody]

/-- The method at its place in the class. -/
def methodFocus : Focus := ⟨methodDefinition, [(0, classBody), (1, classDefinition)]⟩

/-- The function at its place in the method. -/
def localFocus : Focus :=
  ⟨localFunction, (0, methodBody) :: (1, methodDefinition) :: methodFocus.above⟩

theorem methodFocus_occurs : methodFocus.Occurs classDefinition :=
  .tail (.tail .refl (.intro (i := 1) rfl)) (.intro rfl)

theorem localFocus_occurs : localFocus.Occurs classDefinition :=
  .tail (.tail methodFocus_occurs (.intro (i := 1) rfl)) (.intro rfl)

theorem localFocus_scopes_held :
    (∀ f ∈ [localFocus, methodFocus, localFocus], f.Occurs classDefinition) ∧
    ∃ s, (localFocus, s) ∈
        Language.python.grammar.recallScopes classSource [localFocus, methodFocus, localFocus] {} ∧
      s.Holds [⟨.classType, "A"⟩, ⟨.function, "m"⟩, ⟨.function, "k"⟩] ∧ s.CutAtFunction := by
  have hoccurs : ∀ f ∈ [localFocus, methodFocus, localFocus], f.Occurs classDefinition := by
    simp [localFocus_occurs, methodFocus_occurs]
  obtain ⟨hasked, hscopes⟩ := Language.python.scopes_hold_opened_frames classSource
    classDefinition [localFocus, methodFocus, localFocus] hoccurs
  have hopened : Language.python.grammar.openedFrames classSource localFocus =
      [⟨.classType, "A"⟩, ⟨.function, "m"⟩, ⟨.function, "k"⟩] := by
    decide +kernel
  have hmem : localFocus ∈ (Language.python.grammar.recallScopes classSource
      [localFocus, methodFocus, localFocus] {}).map (·.1) := by
    rw [hasked]
    exact List.mem_cons_self
  obtain ⟨⟨f, s⟩, hs, rfl⟩ := List.mem_map.1 hmem
  exact ⟨hoccurs, s, hs, hopened ▸ hscopes _ s hs⟩

end Grammar.Python

end CodeImpact
