import CodeImpact.Impact.Walk
import CodeImpact.Proofs.Unique
import Mathlib.Order.Lattice.Nat

/-!
# Distances along followed edges

A hop takes one edge of a followed kind in a requested direction, and the distance of an identifier
is the least number of hops that lead to it. A walk in rounds finds every distance: before each
round, `reached` holds exactly the identifiers up to the current level and `frontier` those at it.
The walk is not cut short, since each round adds an end of an edge and there are only so many.
-/

namespace CodeImpact

/-- Without a choice all kinds are followed. -/
theorem TraversalOptions.follows_iff {o : TraversalOptions} {kind : Relation} :
    o.follows kind = true ↔ ∀ kinds, o.kinds = some kinds → kind ∈ kinds := by
  cases h : o.kinds <;> simp [follows, h]

namespace RelationGraph

/-- One edge of a followed kind, taken in a requested direction. -/
inductive Hop (g : RelationGraph) (o : TraversalOptions) : String → String → Prop
  | ahead {e : GraphEdge} (mem : e ∈ g.edges)
      (kind : ∀ kinds, o.kinds = some kinds → e.kind ∈ kinds)
      (direction : o.direction ≠ .backward) : Hop g o e.source e.target
  | back {e : GraphEdge} (mem : e ∈ g.edges)
      (kind : ∀ kinds, o.kinds = some kinds → e.kind ∈ kinds)
      (direction : o.direction ≠ .forward) : Hop g o e.target e.source

/-- A path of this many hops. -/
inductive Path (g : RelationGraph) (o : TraversalOptions) : Nat → String → String → Prop
  | nil (x : String) : Path g o 0 x x
  | snoc {n : Nat} {x y z : String} : Path g o n x y → Hop g o y z → Path g o (n + 1) x z

/-- The least number of hops from one identifier to another. -/
def IsDistance (g : RelationGraph) (o : TraversalOptions) (x y : String) (d : Nat) : Prop :=
  IsLeast {n | g.Path o n x y} d

variable {g : RelationGraph} {o : TraversalOptions} {seed x y : String} {d : Nat}

/-- A hop is a followed edge, taken in one of the directions that are asked for. -/
theorem hop_iff : g.Hop o x y ↔
    (o.direction ≠ .backward ∧
      ∃ e ∈ g.edges, e.source = x ∧ o.follows e.kind = true ∧ e.target = y) ∨
    (o.direction ≠ .forward ∧
      ∃ e ∈ g.edges, e.target = x ∧ o.follows e.kind = true ∧ e.source = y) := by
  simp only [TraversalOptions.follows_iff]
  constructor
  · rintro (⟨he, hk, hd⟩ | ⟨he, hk, hd⟩)
    · exact .inl ⟨hd, _, he, rfl, hk, rfl⟩
    · exact .inr ⟨hd, _, he, rfl, hk, rfl⟩
  · rintro (⟨hd, e, he, rfl, hk, rfl⟩ | ⟨hd, e, he, rfl, hk, rfl⟩)
    · exact .ahead he hk hd
    · exact .back he hk hd

theorem mem_neighbors : y ∈ g.neighbors o x ↔ g.Hop o x y := by
  rw [hop_iff, neighbors]
  cases o.direction <;> simp [and_assoc]

/-! ## Distances -/

theorem IsDistance.unique {e : Nat} (hd : g.IsDistance o x y d) (he : g.IsDistance o x y e) :
    d = e :=
  IsLeast.unique hd he

/-- What a path leads to has a distance, and none above the length of the path. -/
theorem Path.exists_distance {n : Nat} (h : g.Path o n x y) : ∃ d ≤ n, g.IsDistance o x y d :=
  ⟨sInf {n | g.Path o n x y}, Nat.sInf_le h, Nat.sInf_mem ⟨n, h⟩, fun _ hm => Nat.sInf_le hm⟩

theorem isDistance_zero : g.IsDistance o x y 0 ↔ y = x := by
  constructor
  · rintro ⟨hpath, -⟩
    cases hpath
    rfl
  · rintro rfl
    exact ⟨.nil y, fun _ _ => Nat.zero_le _⟩

/-- The identifiers one hop further out are those that a hop leads to and that are no nearer. -/
theorem isDistance_succ : g.IsDistance o x y (d + 1) ↔
    (∃ z, g.IsDistance o x z d ∧ g.Hop o z y) ∧ ∀ k ≤ d, ¬ g.IsDistance o x y k := by
  constructor
  · intro h
    obtain ⟨hpath, hleast⟩ := h
    refine ⟨?_, fun k hk hdist => ?_⟩
    · cases hpath with
      | @snoc _ _ z _ hz hop =>
        refine ⟨z, ⟨hz, fun n hn => ?_⟩, hop⟩
        -- A shorter path to the last stop would give a shorter one to the end.
        have := hleast (Path.snoc hn hop)
        omega
    · have := hleast hdist.1
      omega
  · rintro ⟨⟨z, hz, hop⟩, hnone⟩
    refine ⟨.snoc hz.1 hop, fun n hn => ?_⟩
    obtain ⟨k, hkn, hk⟩ := Path.exists_distance hn
    by_contra hlt
    exact hnone k (by omega) hk

/-- Every shorter distance occurs on the way. -/
theorem IsDistance.exists_of_le {k : Nat} (h : g.IsDistance o x y d) (hk : k ≤ d) :
    ∃ z, g.IsDistance o x z k := by
  induction d generalizing y with
  | zero => exact ⟨y, Nat.le_zero.1 hk ▸ h⟩
  | succ d ih =>
    rcases Nat.lt_or_eq_of_le hk with hlt | rfl
    · obtain ⟨⟨z, hz, -⟩, -⟩ := isDistance_succ.1 h
      exact ih hz (by omega)
    · exact ⟨y, h⟩

/-! ## The rounds of a walk -/

/-- The identifiers of a list that are new, each once. -/
def fresh (known : List (String × Nat)) (ids : List String) : List String :=
  ids.foldl (fun acc id =>
    if acc.contains id || known.any (·.1 = id) then acc else acc ++ [id]) []

/-- Walks at most `rounds` levels on from a frontier at `level`. -/
def spread (step : String → List String) :
    (rounds level : Nat) → (reached : List (String × Nat)) → (frontier : List String) →
      List (String × Nat)
  | 0, _, reached, _ => reached
  | rounds + 1, level, reached, frontier =>
    match fresh reached (frontier.flatMap step) with
    | [] => reached
    | next => spread step rounds (level + 1) (reached ++ next.map (·, level + 1)) next

/-- Every identifier that can be reached from the seed, with its distance. No walk without
repetition is longer than twice the number of edges. -/
def distances (g : RelationGraph) (o : TraversalOptions) (seed : String) : List (String × Nat) :=
  spread (g.neighbors o) (2 * g.edges.length + 1) 0 [(seed, 0)] [seed]

/-- The new identifiers are those not known, each once, in order. -/
theorem fresh_eq (known : List (String × Nat)) (ids : List String) :
    fresh known ids = appendUnique [] (ids.filter fun id => !known.any (·.1 = id)) := by
  rw [fresh, appendUnique, List.foldl_filter]
  congr
  funext acc id
  by_cases hacc : id ∈ acc <;> by_cases hknown : known.any (·.1 = id) <;> simp [hacc, hknown]

theorem mem_fresh {known : List (String × Nat)} {ids : List String} :
    x ∈ fresh known ids ↔ x ∈ ids ∧ x ∉ known.map (·.1) := by
  rw [fresh_eq, mem_appendUnique, List.mem_filter, ← any_eq_true_iff_mem_map, Bool.not_eq_true']
  simp only [List.not_mem_nil, false_or, Bool.not_eq_true]

theorem nodup_fresh (known : List (String × Nat)) (ids : List String) :
    (fresh known ids).Nodup := by
  rw [fresh_eq]
  exact nodup_appendUnique List.nodup_nil _

theorem keys_at_level (ids : List String) (level : Nat) :
    (ids.map (·, level)).map (·.1) = ids := by
  rw [List.map_map]
  exact List.map_id ids

/-- What is new is added without repetition. -/
theorem nodup_keys_append_fresh {known : List (String × Nat)} (h : (known.map (·.1)).Nodup)
    (ids : List String) (level : Nat) :
    ((known ++ (fresh known ids).map (·, level)).map (·.1)).Nodup := by
  rw [List.map_append, keys_at_level]
  exact h.append (nodup_fresh known ids) fun x hold hnew => (mem_fresh.1 hnew).2 hold

/-- What is known before a round: the identifiers up to a level with their distances. -/
structure Explored (g : RelationGraph) (o : TraversalOptions) (seed : String) (level : Nat)
    (reached : List (String × Nat)) (frontier : List String) : Prop where
  distinct : (reached.map (·.1)).Nodup
  reached_iff : ∀ x d, (x, d) ∈ reached ↔ d ≤ level ∧ g.IsDistance o seed x d
  frontier_iff : ∀ x, x ∈ frontier ↔ g.IsDistance o seed x level
  /-- Every round so far has added something. -/
  grown : level < reached.length

namespace Explored

variable {level : Nat} {reached : List (String × Nat)} {frontier : List String}

theorem start (g : RelationGraph) (o : TraversalOptions) (seed : String) :
    Explored g o seed 0 [(seed, 0)] [seed] where
  distinct := List.nodup_singleton seed
  reached_iff x d := by
    constructor
    · intro h
      obtain ⟨rfl, rfl⟩ := Prod.mk.inj (List.mem_singleton.1 h)
      exact ⟨Nat.le_refl 0, isDistance_zero.2 rfl⟩
    · rintro ⟨hd, hdist⟩
      obtain rfl := Nat.le_zero.1 hd
      obtain rfl := isDistance_zero.1 hdist
      exact List.mem_singleton_self _
  frontier_iff x := by rw [List.mem_singleton, isDistance_zero]
  grown := Nat.zero_lt_one

/-- The new neighbours of the frontier are exactly the identifiers at the next level. -/
theorem mem_next (h : Explored g o seed level reached frontier) :
    x ∈ fresh reached (frontier.flatMap (g.neighbors o)) ↔ g.IsDistance o seed x (level + 1) := by
  have hknown : x ∉ reached.map (·.1) ↔ ∀ k ≤ level, ¬ g.IsDistance o seed x k := by
    simp only [List.mem_map, Prod.exists, exists_and_right, exists_eq_right, h.reached_iff]
    push Not
    rfl
  rw [mem_fresh, hknown, isDistance_succ, List.mem_flatMap]
  simp only [h.frontier_iff, mem_neighbors]

/-- One round: the new neighbours of a frontier are the next level. -/
theorem advance (h : Explored g o seed level reached frontier) {next : List String}
    (hnext : fresh reached (frontier.flatMap (g.neighbors o)) = next) (hne : next ≠ []) :
    Explored g o seed (level + 1) (reached ++ next.map (·, level + 1)) next := by
  have hmem : ∀ x, x ∈ next ↔ g.IsDistance o seed x (level + 1) := fun x => hnext ▸ h.mem_next
  refine ⟨?_, fun x d => ?_, hmem, ?_⟩
  · exact hnext ▸ nodup_keys_append_fresh h.distinct _ _
  · rw [List.mem_append, h.reached_iff]
    simp only [List.mem_map, Prod.mk.injEq]
    constructor
    · rintro (⟨hd, hdist⟩ | ⟨z, hz, rfl, rfl⟩)
      · exact ⟨by omega, hdist⟩
      · exact ⟨Nat.le_refl _, (hmem z).1 hz⟩
    · rintro ⟨hd, hdist⟩
      rcases Nat.lt_or_eq_of_le hd with hlt | rfl
      · exact .inl ⟨by omega, hdist⟩
      · exact .inr ⟨x, (hmem x).2 hdist, rfl, rfl⟩
  · have hgrown := h.grown
    have hpos := List.length_pos_iff.2 hne
    rw [List.length_append, List.length_map]
    omega

end Explored

theorem Hop.mem_ends (h : g.Hop o x y) : y ∈ g.ends :=
  mem_ends_of_mem_neighbors (mem_neighbors.2 h)

theorem IsDistance.mem_ends (h : g.IsDistance o x y d) : y ∈ x :: g.ends := by
  cases h.1 with
  | nil => exact List.mem_cons_self
  | snoc _ hop => exact List.mem_cons_of_mem _ hop.mem_ends

namespace Explored

variable {level : Nat} {reached : List (String × Nat)} {frontier : List String}

/-- All identifiers but the seed are ends of edges, so the level stays below their number. -/
theorem level_le (h : Explored g o seed level reached frontier) : level ≤ 2 * g.edges.length := by
  have hsub : reached.map (·.1) ⊆ seed :: g.ends := by
    intro x hx
    obtain ⟨⟨z, d⟩, hz, rfl⟩ := List.mem_map.1 hx
    exact ((h.reached_iff z d).1 hz).2.mem_ends
  have hlen := h.distinct.length_le_of_subset hsub
  have hgrown := h.grown
  simp only [ends, List.length_map, List.length_cons, List.length_append] at hlen
  omega

/-- A walk with enough rounds ends with every distance. -/
theorem spread_spec (h : Explored g o seed level reached frontier) {rounds : Nat}
    (henough : 2 * g.edges.length < rounds + level) :
    ((spread (g.neighbors o) rounds level reached frontier).map (·.1)).Nodup ∧
      ∀ x d, (x, d) ∈ spread (g.neighbors o) rounds level reached frontier ↔
        g.IsDistance o seed x d := by
  induction rounds generalizing level reached frontier with
  | zero =>
    have := h.level_le
    omega
  | succ rounds ih =>
    unfold spread
    split
    next hnext =>
      -- Nothing lies at the next level, hence nothing beyond it.
      refine ⟨h.distinct, fun x d => (h.reached_iff x d).trans ⟨And.right, fun hd => ⟨?_, hd⟩⟩⟩
      by_contra hlt
      obtain ⟨z, hz⟩ := hd.exists_of_le (k := level + 1) (by omega)
      have hmem := h.mem_next.2 hz
      rw [hnext] at hmem
      exact List.not_mem_nil hmem
    next hne => exact ih (h.advance rfl hne) (by omega)

end Explored

theorem mem_distances : (x, d) ∈ g.distances o seed ↔ g.IsDistance o seed x d :=
  ((Explored.start g o seed).spread_spec (by omega)).2 x d

theorem nodup_distances (g : RelationGraph) (o : TraversalOptions) (seed : String) :
    ((g.distances o seed).map (·.1)).Nodup :=
  ((Explored.start g o seed).spread_spec (by omega)).1

end RelationGraph

end CodeImpact
