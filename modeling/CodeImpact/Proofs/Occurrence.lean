import CodeImpact.Source.Tree
import Mathlib.Data.List.Lex
import Mathlib.Logic.Relation

/-!
# Nodes in their places

A focus occurs in a tree if steps from a node to one of its children lead to it from the root. The
child numbers on the way tell a focus from all others, and their lexicographic order is the order of
the document. All foci that occur are listed in this order, and so are the named ones, each after
its ancestors.
-/

namespace CodeImpact

open Relation (ReflTransGen)

namespace Focus

/-- The second focus is a child of the first. -/
inductive IsChild : Focus → Focus → Prop
  | intro {t c : Tree} {above : List (Nat × Tree)} {i : Nat} (h : t.children[i]? = some c) :
      IsChild ⟨t, above⟩ ⟨c, (i, t) :: above⟩

/-- The focus is reached from the root. -/
def Occurs (root : Tree) (f : Focus) : Prop :=
  ReflTransGen IsChild ⟨root, []⟩ f

/-- A focus with an ancestor is a child of that ancestor. -/
theorem Occurs.parent {root t a : Tree} {i : Nat} {above : List (Nat × Tree)}
    (h : Occurs root ⟨t, (i, a) :: above⟩) : Occurs root ⟨a, above⟩ ∧ a.children[i]? = some t := by
  cases h with
  | tail hparent hchild =>
    cases hchild with
    | intro hget => exact ⟨hparent, hget⟩

theorem Occurs.eq_root {root t : Tree} (h : Occurs root ⟨t, []⟩) : t = root := by
  cases h with
  | refl => rfl
  | tail _ hchild => cases hchild

/-- In one tree no two foci share a place. -/
theorem Occurs.eq_of_place {root : Tree} {f f' : Focus} (h : Occurs root f) (h' : Occurs root f')
    (hplace : f.place = f'.place) : f = f' := by
  obtain ⟨t, above⟩ := f
  obtain ⟨t', above'⟩ := f'
  induction above generalizing t t' above' with
  | nil =>
    obtain rfl : above' = [] := List.map_eq_nil_iff.1 hplace.symm
    rw [h.eq_root, h'.eq_root]
  | cons step rest ih =>
    obtain ⟨i, a⟩ := step
    cases above' with
    | nil => cases hplace
    | cons step' rest' =>
      obtain ⟨i', a'⟩ := step'
      obtain ⟨hi, hrest⟩ := List.cons.inj hplace
      obtain ⟨ha, hget⟩ := h.parent
      obtain ⟨ha', hget'⟩ := h'.parent
      obtain ⟨rfl, rfl⟩ := Focus.mk.inj (ih a ha a' rest' ha' hrest)
      obtain rfl : i = i' := hi
      rw [Option.some.inj (hget.symm.trans hget')]

/-- What a node reaches is the node itself and what its children reach. -/
theorem reaches_iff {t : Tree} {above : List (Nat × Tree)} {f : Focus} :
    ReflTransGen IsChild ⟨t, above⟩ f ↔ ⟨t, above⟩ = f ∨
      ∃ i c, t.children[i]? = some c ∧ ReflTransGen IsChild ⟨c, (i, t) :: above⟩ f := by
  rw [ReflTransGen.cases_head_iff]
  refine or_congr_right ⟨?_, ?_⟩
  · rintro ⟨_, ⟨hget⟩, hreach⟩
    exact ⟨_, _, hget, hreach⟩
  · rintro ⟨i, c, hget, hreach⟩
    exact ⟨_, .intro hget, hreach⟩

/-! ## All nodes -/

mutual

/-- The node and all nodes under it in document order. -/
def all : Tree → List (Nat × Tree) → List Focus
  | ⟨kind, isNamed, field, start, stop, children⟩, above =>
    let t : Tree := ⟨kind, isNamed, field, start, stop, children⟩
    ⟨t, above⟩ :: allIn children 0 t above

/-- The nodes of the children of `t` from number `i` on. -/
def allIn : List Tree → Nat → Tree → List (Nat × Tree) → List Focus
  | [], _, _, _ => []
  | c :: rest, i, t, above => all c ((i, t) :: above) ++ allIn rest (i + 1) t above

end

theorem all_eq (t : Tree) (above : List (Nat × Tree)) :
    all t above = ⟨t, above⟩ :: allIn t.children 0 t above := by
  obtain ⟨kind, isNamed, field, start, stop, children⟩ := t
  rw [all]

mutual

/-- The nodes from a node on are the foci that it reaches. -/
theorem mem_all {f : Focus} : (t : Tree) → (above : List (Nat × Tree)) →
    (f ∈ all t above ↔ ReflTransGen IsChild ⟨t, above⟩ f)
  | ⟨kind, isNamed, field, start, stop, children⟩, above => by
    have hbelow := mem_allIn (f := f) children 0 ⟨kind, isNamed, field, start, stop, children⟩ above
    simp only [Nat.zero_add] at hbelow
    rw [reaches_iff, all, List.mem_cons, hbelow, eq_comm]

/-- What is listed for several nodes stands below one of them. -/
theorem mem_allIn {f : Focus} : (ts : List Tree) → (first : Nat) → (t : Tree) →
    (above : List (Nat × Tree)) → (f ∈ allIn ts first t above ↔
      ∃ i c, ts[i]? = some c ∧ ReflTransGen IsChild ⟨c, (first + i, t) :: above⟩ f)
  | [], _, _, _ => by simp [allIn]
  | c :: rest, first, t, above => by
    rw [allIn, List.mem_append, mem_all c, mem_allIn rest]
    constructor
    · rintro (hreach | ⟨i, c', hget, hreach⟩)
      · exact ⟨0, c, rfl, hreach⟩
      · exact ⟨i + 1, c', hget, by rwa [Nat.add_assoc, Nat.add_comm 1] at hreach⟩
    · rintro ⟨i, c', hget, hreach⟩
      cases i with
      | zero =>
        cases hget
        exact .inl hreach
      | succ i => exact .inr ⟨i, c', hget, by rwa [Nat.add_assoc, Nat.add_comm 1]⟩

end

mutual

/-- The named nodes are those of all nodes, in the same order. -/
theorem named_eq_filter : (t : Tree) → (above : List (Nat × Tree)) →
    named t above = (all t above).filter (·.node.named)
  | ⟨kind, isNamed, field, start, stop, children⟩, above => by
    have hbelow := namedIn_eq_filter children 0 ⟨kind, isNamed, field, start, stop, children⟩ above
    rw [named, all, List.filter_cons, hbelow]

theorem namedIn_eq_filter : (ts : List Tree) → (first : Nat) → (t : Tree) →
    (above : List (Nat × Tree)) →
    namedIn ts first t above = (allIn ts first t above).filter (·.node.named)
  | [], _, _, _ => rfl
  | c :: rest, first, t, above => by
    rw [namedIn, allIn, List.filter_append, named_eq_filter c, namedIn_eq_filter rest]

end

/-- The named nodes of a tree are the nodes that occur in it and are named. -/
theorem mem_namedNodes {root : Tree} {f : Focus} :
    f ∈ root.namedNodes ↔ f.node.named = true ∧ Occurs root f := by
  rw [Tree.namedNodes, named_eq_filter, List.mem_filter, mem_all, and_comm]
  rfl

/-! ## Document order -/

theorem IsChild.above_eq {x y : Focus} (h : IsChild x y) :
    ∃ i, y.above = (i, x.node) :: x.above := by
  cases h with
  | intro => exact ⟨_, rfl⟩

theorem IsChild.parent_unique {x y z : Focus} (hx : IsChild x z) (hy : IsChild y z) : x = y := by
  cases hx with
  | intro =>
    cases hy with
    | intro => rfl

/-- The ancestors of a node are ancestors of every node that it reaches. -/
theorem above_suffix {x y : Focus} (h : ReflTransGen IsChild x y) : x.above <:+ y.above := by
  induction h with
  | refl => exact List.suffix_rfl
  | tail _ hchild ih =>
    obtain ⟨i, habove⟩ := hchild.above_eq
    rw [habove]
    exact ih.trans (List.suffix_cons _ _)

/-- A node reaches only itself and deeper nodes. -/
theorem eq_or_lt_of_reaches {x y : Focus} (h : ReflTransGen IsChild x y) :
    x = y ∨ x.above.length < y.above.length := by
  cases h with
  | refl => exact .inl rfl
  | tail hreach hchild =>
    obtain ⟨i, habove⟩ := hchild.above_eq
    have hle := (above_suffix hreach).length_le
    simp only [habove, List.length_cons]
    omega

theorem eq_of_reaches {x y : Focus} (h : ReflTransGen IsChild x y) (h' : ReflTransGen IsChild y x) :
    x = y := by
  obtain heq | hlt := eq_or_lt_of_reaches h
  · exact heq
  · obtain heq | hlt' := eq_or_lt_of_reaches h'
    · exact heq.symm
    · omega

/-- Of two nodes around a third, one is around the other. -/
theorem reaches_total {x y z : Focus} (hx : ReflTransGen IsChild x z)
    (hy : ReflTransGen IsChild y z) : ReflTransGen IsChild x y ∨ ReflTransGen IsChild y x := by
  have hunique : Relator.RightUnique (Function.swap IsChild) := fun _ _ _ h h' => h.parent_unique h'
  have htotal := ReflTransGen.total_of_right_unique hunique hx.swap hy.swap
  exact htotal.symm.imp (fun h => h.swap) fun h => h.swap

/-- Document order, by the child numbers on the way from the root. -/
def Precedes (x y : Focus) : Prop :=
  List.Lex (· < ·) x.place.reverse y.place.reverse

instance : Std.Asymm Precedes where
  asymm x y := Std.Asymm.asymm (r := List.Lex (· < ·)) x.place.reverse y.place.reverse

/-- The way to a node goes on to every node that it reaches. -/
theorem exists_place_of_reaches {x y : Focus} (h : ReflTransGen IsChild x y) :
    ∃ more, y.place.reverse = x.place.reverse ++ more := by
  obtain ⟨more, hmore⟩ := above_suffix h
  exact ⟨(more.map (·.1)).reverse, by simp [place, ← hmore]⟩

/-- A node comes before those below it. -/
theorem precedes_of_place_eq {x y : Focus} {i : Nat} {more : List Nat}
    (h : y.place.reverse = x.place.reverse ++ i :: more) : Precedes x y := by
  rw [Precedes, h]
  simpa using List.Lex.append_left (· < ·) (List.Lex.nil (a := i) (l := more)) x.place.reverse

/-- A node comes before all nodes under its children. -/
theorem precedes_of_child {t c : Tree} {above : List (Nat × Tree)} {i : Nat} {y : Focus}
    (h : ReflTransGen IsChild ⟨c, (i, t) :: above⟩ y) : Precedes ⟨t, above⟩ y := by
  obtain ⟨more, hmore⟩ := exists_place_of_reaches h
  have hplace : y.place.reverse = (Focus.mk t above).place.reverse ++ i :: more := by
    simpa [place] using hmore
  exact precedes_of_place_eq hplace

/-- What is under one child comes before what is under a later one. -/
theorem precedes_of_children {t c d : Tree} {above : List (Nat × Tree)} {i j : Nat} {x y : Focus}
    (hx : ReflTransGen IsChild ⟨c, (i, t) :: above⟩ x)
    (hy : ReflTransGen IsChild ⟨d, (j, t) :: above⟩ y) (h : i < j) : Precedes x y := by
  obtain ⟨more, hmore⟩ := exists_place_of_reaches hx
  obtain ⟨more', hmore'⟩ := exists_place_of_reaches hy
  have hnumbers : List.Lex (· < ·) (i :: more) (j :: more') := .rel h
  rw [Precedes, hmore, hmore']
  simpa [place] using hnumbers.append_left (· < ·) (above.map (·.1)).reverse

theorem Precedes.not_reaches {x y : Focus} (h : Precedes x y) : ¬ ReflTransGen IsChild y x := by
  intro hreach
  obtain ⟨more, hmore⟩ := exists_place_of_reaches hreach
  cases more with
  | nil =>
    rw [List.append_nil] at hmore
    rw [Precedes, hmore] at h
    exact Std.Asymm.asymm _ _ h h
  | cons i more => exact Std.Asymm.asymm _ _ h (precedes_of_place_eq hmore)

mutual

/-- Document order lists nodes by their places. -/
theorem pairwise_all : (t : Tree) → (above : List (Nat × Tree)) → (all t above).Pairwise Precedes
  | ⟨kind, isNamed, field, start, stop, children⟩, above => by
    rw [all]
    refine List.pairwise_cons.2 ⟨fun y hy => ?_, pairwise_allIn children 0 _ above⟩
    obtain ⟨i, c, -, hreach⟩ := (mem_allIn children 0 _ above).1 hy
    exact precedes_of_child hreach

theorem pairwise_allIn : (ts : List Tree) → (first : Nat) → (t : Tree) →
    (above : List (Nat × Tree)) → (allIn ts first t above).Pairwise Precedes
  | [], _, _, _ => List.Pairwise.nil
  | c :: rest, first, t, above => by
    rw [allIn]
    refine List.pairwise_append.2 ⟨pairwise_all c _, pairwise_allIn rest _ t above, ?_⟩
    intro x hx y hy
    obtain ⟨i, c', -, hreach⟩ := (mem_allIn rest (first + 1) t above).1 hy
    exact precedes_of_children ((mem_all c _).1 hx) hreach (by omega)

end

/-- In document order no node comes after one that it is around. -/
theorem pairwise_namedNodes (root : Tree) :
    root.namedNodes.Pairwise fun x y => ¬ ReflTransGen IsChild y x := by
  rw [Tree.namedNodes, named_eq_filter]
  exact ((pairwise_all root []).filter _).imp fun h => h.not_reaches

end Focus

/-! ## Trees whose inner nodes are named -/

namespace Tree

mutual

/-- Whether only leaves lack a name. -/
def innerNamed : Tree → Bool
  | ⟨_, isNamed, _, _, _, children⟩ => (isNamed || children.isEmpty) && allInnerNamed children

/-- Whether only leaves of these trees lack a name. -/
def allInnerNamed : List Tree → Bool
  | [] => true
  | t :: rest => t.innerNamed && allInnerNamed rest

end

theorem allInnerNamed_iff {ts : List Tree} :
    allInnerNamed ts = true ↔ ∀ t ∈ ts, t.innerNamed = true := by
  induction ts with
  | nil => simp [allInnerNamed]
  | cons t rest ih => simp [allInnerNamed, ih]

theorem innerNamed_iff {t : Tree} : t.innerNamed = true ↔
    (t.named = true ∨ t.children = []) ∧ ∀ c ∈ t.children, c.innerNamed = true := by
  obtain ⟨kind, isNamed, field, start, stop, children⟩ := t
  simp [innerNamed, allInnerNamed_iff]

end Tree

namespace Focus

/-- What holds of all inner nodes of a tree holds below each of its nodes. -/
theorem Occurs.innerNamed {root : Tree} {f : Focus} (h : Occurs root f)
    (hroot : root.innerNamed = true) : f.node.innerNamed = true := by
  induction h with
  | refl => exact hroot
  | tail _ hchild ih =>
    cases hchild with
    | intro hget => exact (Tree.innerNamed_iff.1 ih).2 _ (List.mem_of_getElem? hget)

/-- The focus and its ancestors, from the inside out. -/
def lineage (f : Focus) : List Focus :=
  go f.node f.above
where
  /-- The same with the ancestors apart, on which it recurs. -/
  go (t : Tree) : List (Nat × Tree) → List Focus
    | [] => [⟨t, []⟩]
    | (i, a) :: above => ⟨t, (i, a) :: above⟩ :: go a above

theorem mem_lineage_self (f : Focus) : f ∈ f.lineage := by
  obtain ⟨t, above⟩ := f
  cases above <;> exact List.mem_cons_self

/-- If only leaves lack a name, the ancestors of a named node are named as well. -/
theorem lineage_subset {root : Tree} {f : Focus} (hroot : root.innerNamed = true)
    (h : f ∈ root.namedNodes) : f.lineage ⊆ root.namedNodes := by
  obtain ⟨t, above⟩ := f
  induction above generalizing t with
  | nil =>
    intro g hg
    rwa [List.mem_singleton.1 hg]
  | cons step above ih =>
    obtain ⟨i, a⟩ := step
    obtain ⟨hparent, hget⟩ := (mem_namedNodes.1 h).2.parent
    have hmem : t ∈ a.children := List.mem_of_getElem? hget
    have hnamed : a.named = true :=
      (Tree.innerNamed_iff.1 (hparent.innerNamed hroot)).1.resolve_right (List.ne_nil_of_mem hmem)
    intro g hg
    obtain rfl | hg := List.mem_cons.1 hg
    · exact h
    · exact ih a (mem_namedNodes.2 ⟨hnamed, hparent⟩) hg

end Focus

end CodeImpact
