import CodeImpact.Extraction.Basic
import CodeImpact.Proofs.Occurrence
import Mathlib.Data.List.Sort

/-!
# The tokens of a body

The digest of a body is that of its tokens: the texts of the leaves outside comments, in document
order. They can be collected with a stack of nodes, which takes no more steps than there are nodes.
-/

namespace CodeImpact

/-! ## Nodes and leaves -/

namespace Tree

/-- All nodes in document order. -/
def nodes (t : Tree) : List Tree :=
  (Focus.all t []).map (·.node)

/-- The leaves in document order, each with its ancestors. -/
def leaves (t : Tree) : List Focus :=
  (Focus.all t []).filter (·.node.children.isEmpty)

end Tree

mutual

/-- The nodes below a focus do not depend on what is above it. -/
theorem map_node_all : (t : Tree) → (above : List (Nat × Tree)) →
    (Focus.all t above).map (·.node) = t :: t.children.flatMap Tree.nodes
  | ⟨kind, isNamed, field, start, stop, children⟩, above => by
    have hbelow := map_node_allIn children 0 ⟨kind, isNamed, field, start, stop, children⟩ above
    rw [Focus.all, List.map_cons, hbelow]

theorem map_node_allIn : (ts : List Tree) → (first : Nat) → (t : Tree) →
    (above : List (Nat × Tree)) →
    (Focus.allIn ts first t above).map (·.node) = ts.flatMap Tree.nodes
  | [], _, _, _ => rfl
  | c :: rest, first, t, above => by
    rw [Focus.allIn, List.map_append, map_node_allIn rest, List.flatMap_cons, Tree.nodes,
      map_node_all c, map_node_all c]

end

theorem Tree.nodes_eq (t : Tree) : t.nodes = t :: t.children.flatMap Tree.nodes :=
  map_node_all t []

/-- The list has the leaves of a tree in document order. -/
structure LeavesInOrder (root : Tree) (leaves : List Focus) : Prop where
  mem_iff : ∀ f, f ∈ leaves ↔ Focus.Occurs root f ∧ f.node.children = []
  ordered : leaves.Pairwise Focus.Precedes

theorem leavesInOrder_leaves (root : Tree) : LeavesInOrder root root.leaves where
  mem_iff f := by
    rw [Tree.leaves, List.mem_filter, Focus.mem_all, List.isEmpty_iff]
    rfl
  ordered := (Focus.pairwise_all root []).filter _

/-- The leaves have only one order. -/
theorem leavesInOrder_iff {root : Tree} {leaves : List Focus} :
    LeavesInOrder root leaves ↔ leaves = root.leaves := by
  constructor
  · intro h
    have hall := leavesInOrder_leaves root
    refine h.ordered.eq_of_mem_iff hall.ordered fun f => ?_
    rw [h.mem_iff, hall.mem_iff]
  · rintro rfl
    exact leavesInOrder_leaves root

/-! ## Tokens -/

/-- The node is a comment or stands in one. -/
def Focus.inComment (f : Focus) : Bool :=
  f.node.isComment || f.above.any (·.2.isComment)

/-- What stands under a node in a comment stands in a comment. -/
theorem Focus.inComment_of_reaches {x y : Focus} (h : Relation.ReflTransGen Focus.IsChild x y)
    (hx : x.inComment = true) : y.inComment = true := by
  induction h with
  | refl => exact hx
  | tail _ hchild ih =>
    cases hchild with
    | intro => simp_all [inComment]

/-- The trimmed texts of the leaves outside comments, without empty ones. -/
def tokensOf (src : SourceText) (leaves : List Focus) : List String :=
  ((leaves.filter fun f => !f.inComment).map fun f => Text.trim (src.text f.node)).filter
    fun token => !token.isEmpty

theorem tokensOf_append (src : SourceText) (ls ms : List Focus) :
    tokensOf src (ls ++ ms) = tokensOf src ls ++ tokensOf src ms := by
  simp [tokensOf]

theorem tokensOf_of_inComment {src : SourceText} {ls : List Focus}
    (h : ∀ f ∈ ls, f.inComment = true) : tokensOf src ls = [] := by
  have hnone : (ls.filter fun f => !f.inComment) = [] := List.filter_eq_nil_iff.2 (by simpa using h)
  simp [tokensOf, hnone]

/-- The token that a leaf is, if it is not blank. -/
def leafTokens (src : SourceText) (t : Tree) : List String :=
  let token := Text.trim (src.text t)
  if token.isEmpty then [] else [token]

theorem bodyTokens_eq (src : SourceText) (t : Tree) :
    bodyTokens src t = if t.isComment then []
      else if t.children.isEmpty then leafTokens src t else bodyTokensIn src t.children := by
  obtain ⟨kind, isNamed, field, start, stop, children⟩ := t
  rw [bodyTokens]
  rfl

theorem bodyTokensIn_eq (src : SourceText) (ts : List Tree) :
    bodyTokensIn src ts = ts.flatMap (bodyTokens src) := by
  induction ts with
  | nil => rfl
  | cons t rest ih => rw [bodyTokensIn, ih, List.flatMap_cons]

mutual

/-- Under a node that is in no comment, the tokens are those of its leaves. -/
theorem tokensOf_all (src : SourceText) : (t : Tree) → (above : List (Nat × Tree)) →
    above.any (·.2.isComment) = false →
    tokensOf src ((Focus.all t above).filter (·.node.children.isEmpty)) = bodyTokens src t
  | ⟨kind, isNamed, field, start, stop, children⟩, above, habove => by
    let t : Tree := ⟨kind, isNamed, field, start, stop, children⟩
    change tokensOf src ((Focus.all t above).filter _) = bodyTokens src t
    rw [bodyTokens_eq]
    cases hcomment : t.isComment with
    | true =>
      -- everything under a comment is in it
      rw [if_pos rfl]
      refine tokensOf_of_inComment fun f hf => ?_
      have hreach := (Focus.mem_all t above).1 (List.mem_filter.1 hf).1
      exact Focus.inComment_of_reaches hreach (by simp [Focus.inComment, hcomment])
    | false =>
      have hout : (Focus.mk t above).inComment = false := by
        simp [Focus.inComment, hcomment, habove]
      have hbelow := tokensOf_allIn src children 0 t above hout
      rw [if_neg Bool.false_ne_true, Focus.all_eq, List.filter_cons]
      cases hleaf : t.children.isEmpty with
      | true =>
        have hnone : t.children = [] := List.isEmpty_iff.1 hleaf
        simp [hnone, Focus.allIn, tokensOf, Focus.inComment, hcomment, habove, leafTokens,
          List.filter_cons]
      | false => simpa [hleaf] using hbelow

theorem tokensOf_allIn (src : SourceText) : (ts : List Tree) → (first : Nat) → (t : Tree) →
    (above : List (Nat × Tree)) → (Focus.mk t above).inComment = false →
    tokensOf src ((Focus.allIn ts first t above).filter (·.node.children.isEmpty)) =
      bodyTokensIn src ts
  | [], _, _, _, _ => rfl
  | c :: rest, first, t, above, hparent => by
    rw [Focus.allIn, List.filter_append, tokensOf_append, bodyTokensIn,
      tokensOf_all src c ((first, t) :: above) hparent, tokensOf_allIn src rest _ t above hparent]

end

theorem tokensOf_leaves (src : SourceText) (t : Tree) : tokensOf src t.leaves = bodyTokens src t :=
  tokensOf_all src t [] rfl

/-! ## Reading with a stack -/

/-- What is still to be read, the next node first, and the tokens so far. -/
structure Harvest where
  stack : List Tree
  tokens : List String

namespace Harvest

variable (src : SourceText)

/-- Reads a node that was taken off the stack: a comment is dropped, a leaf gives its token, and the
children of another node are put on the stack, the last one first. -/
def read (t : Tree) (h : Harvest) : Harvest :=
  if t.isComment then h
  else if t.children.isEmpty then { h with tokens := h.tokens ++ leafTokens src t }
  else { h with stack := t.children.reverse.foldl (fun stack c => c :: stack) h.stack }

/-- Reads node after node, at most so many. -/
def run : Nat → Harvest → Harvest
  | 0, h => h
  | _ + 1, ⟨[], tokens⟩ => ⟨[], tokens⟩
  | n + 1, ⟨t :: rest, tokens⟩ => run n (read src t ⟨rest, tokens⟩)

/-- The tokens that the rest of the reading comes to. -/
def answer (h : Harvest) : List String :=
  h.tokens ++ h.stack.flatMap (bodyTokens src)

/-- The number of nodes that are left. -/
def weight (h : Harvest) : Nat :=
  (h.stack.flatMap Tree.nodes).length

/-- The three things that reading a node can do. -/
theorem read_cases (t : Tree) (h : Harvest) :
    (t.isComment = true ∧ read src t h = h) ∨
    (t.isComment = false ∧ t.children = [] ∧
      read src t h = { h with tokens := h.tokens ++ leafTokens src t }) ∨
    (t.isComment = false ∧ t.children ≠ [] ∧
      read src t h = { h with stack := t.children ++ h.stack }) := by
  cases hcomment : t.isComment with
  | true => exact .inl ⟨rfl, by simp [read, hcomment]⟩
  | false =>
    by_cases hleaf : t.children = []
    · exact .inr (.inl ⟨rfl, hleaf, by simp [read, hcomment, hleaf]⟩)
    · exact .inr (.inr ⟨rfl, hleaf, by simp [read, hcomment, hleaf]⟩)

/-- A step leaves the tokens as they are. -/
theorem answer_read (t : Tree) (rest : List Tree) (tokens : List String) :
    (read src t ⟨rest, tokens⟩).answer src = answer src ⟨t :: rest, tokens⟩ := by
  simp only [answer, List.flatMap_cons, bodyTokens_eq src t]
  obtain ⟨hcomment, hread⟩ | ⟨hcode, hleaf, hread⟩ | ⟨hcode, hinner, hread⟩ :=
    read_cases src t ⟨rest, tokens⟩
  · simp [hread, hcomment]
  · simp [hread, hcode, hleaf]
  · simp [hread, hcode, hinner, bodyTokensIn_eq]

/-- A step takes the node away, and at most its children come instead. -/
theorem weight_read_lt (t : Tree) (rest : List Tree) (tokens : List String) :
    (read src t ⟨rest, tokens⟩).weight < weight ⟨t :: rest, tokens⟩ := by
  simp only [weight, List.flatMap_cons, Tree.nodes_eq t, List.length_append, List.length_cons]
  obtain ⟨-, hread⟩ | ⟨-, -, hread⟩ | ⟨-, -, hread⟩ := read_cases src t ⟨rest, tokens⟩
  · simp only [hread]
    omega
  · simp only [hread]
    omega
  · simp only [hread, List.flatMap_append, List.length_append]
    omega

/-- Enough steps empty the stack, and more of them change nothing. -/
theorem run_eq {h : Harvest} {n : Nat} (hn : h.weight ≤ n) : run src n h = ⟨[], h.answer src⟩ := by
  -- on the steps that are allowed: each of them takes at least one node away
  induction n generalizing h with
  | zero =>
    obtain ⟨stack, tokens⟩ := h
    cases stack with
    | nil => simp [run, answer]
    | cons t rest => simp [weight, Tree.nodes_eq t] at hn
  | succ n ih =>
    obtain ⟨stack, tokens⟩ := h
    cases stack with
    | nil => simp [run, answer]
    | cons t rest =>
      have hless := weight_read_lt src t rest tokens
      rw [run, ih (by omega), answer_read]

end Harvest

end CodeImpact
