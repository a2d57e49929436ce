import CodeImpact.Impact.Basic

/-!
# Walks from a seed

A depth-first search with a stack finds what followed edges lead to, and a breadth-first search with
a queue, which keeps to what the first one found, counts the hops. All kinds of nodes are walked
through; only functions are reported. The depth limit cuts the report and not the walk.
-/

namespace CodeImpact.RelationGraph

/-- The identifiers one followed edge away. -/
def neighbors (g : RelationGraph) (o : TraversalOptions) (id : String) : List String :=
  let followed := g.edges.filter fun e => o.follows e.kind
  let out := (followed.filter fun e => e.source = id).map (·.target)
  let back := (followed.filter fun e => e.target = id).map (·.source)
  match o.direction with
  | .forward => out
  | .backward => back
  | .both => out ++ back

/-- The ends of all edges. -/
def ends (g : RelationGraph) : List String :=
  g.edges.map (·.source) ++ g.edges.map (·.target)

theorem mem_ends_of_mem_neighbors {g : RelationGraph} {o : TraversalOptions} {x y : String}
    (h : y ∈ g.neighbors o x) : y ∈ g.ends := by
  rw [neighbors] at h
  cases o.direction <;> simp [ends] at h ⊢ <;> grind

/-- The number of entries of a list that are not known. -/
def unseen (all known : List String) : Nat :=
  (all.filter fun id => !known.contains id).length

theorem unseen_concat_lt {all known : List String} {id : String} (hmem : id ∈ all)
    (hnew : id ∉ known) : unseen all (known ++ [id]) < unseen all known := by
  have hfilter : (all.filter fun x => !(known ++ [id]).contains x) =
      (all.filter fun x => !known.contains x).filter fun x => x != id := by
    rw [List.filter_filter]
    refine List.filter_congr fun x _ => ?_
    rw [List.contains_append, List.contains_cons, Bool.not_or, Bool.and_comm]
    simp [bne]
  rw [unseen, unseen, hfilter, List.length_filter_lt_length_iff_exists]
  exact ⟨id, by simp [hmem, hnew], by simp⟩

/-! ## Depth first -/

/-- A depth-first search on its way. -/
structure Search where
  /-- What was reached so far. -/
  visited : List String
  /-- What was reached and not walked on from yet, the latest first. -/
  stack : List String

namespace Search

/-- Reaches an identifier; only the first time counts. -/
def visit (s : Search) (id : String) : Search :=
  if s.visited.contains id then s else ⟨s.visited ++ [id], id :: s.stack⟩

/-- The ends of edges not reached so far, and the length of the stack. -/
def weight (g : RelationGraph) (s : Search) : Nat :=
  unseen g.ends s.visited + s.stack.length

theorem weight_visit_le {g : RelationGraph} {id : String} (h : id ∈ g.ends) (s : Search) :
    (s.visit id).weight g ≤ s.weight g := by
  unfold visit
  split
  · exact Nat.le_refl _
  next hnew =>
    have hless := unseen_concat_lt h (by simpa using hnew : id ∉ s.visited)
    simp only [weight, List.length_cons]
    omega

theorem weight_foldl_visit_le {g : RelationGraph} {ids : List String}
    (h : ∀ id ∈ ids, id ∈ g.ends) (s : Search) : (ids.foldl visit s).weight g ≤ s.weight g := by
  induction ids generalizing s with
  | nil => exact Nat.le_refl _
  | cons id ids ih =>
    have hrest := ih (fun x hx => h x (List.mem_cons_of_mem id hx)) (s.visit id)
    exact Nat.le_trans hrest (weight_visit_le (h id List.mem_cons_self) s)

/-- Walks on from the top of the stack until the stack is empty. -/
def run (g : RelationGraph) (o : TraversalOptions) : Search → List String
  | ⟨visited, []⟩ => visited
  | ⟨visited, current :: rest⟩ =>
    run g o ((g.neighbors o current).foldl visit ⟨visited, rest⟩)
termination_by s => s.weight g
decreasing_by
  -- the top is taken away, and whatever is put on the stack is an end that was not reached before
  refine Nat.lt_of_le_of_lt (weight_foldl_visit_le (fun _ => mem_ends_of_mem_neighbors) _) ?_
  simp [weight]

end Search

/-- Every identifier that can be reached from the seed, the seed included. -/
def visited (g : RelationGraph) (o : TraversalOptions) (seed : String) : List String :=
  Search.run g o ⟨[seed], [seed]⟩

/-! ## Breadth first -/

/-- A breadth-first search on its way. -/
structure LevelSearch where
  /-- The levels found so far. -/
  levels : List (String × Nat)
  /-- What has a level and was not walked on from yet, the earliest first. -/
  queue : List String

namespace LevelSearch

/-- Gives a visited identifier its level; only the first one counts. -/
def enqueue (visited : List String) (level : Nat) (s : LevelSearch) (id : String) : LevelSearch :=
  if visited.contains id && !(s.levels.map (·.1)).contains id then
    ⟨s.levels ++ [(id, level)], s.queue ++ [id]⟩
  else s

/-- The visited identifiers without a level, and the length of the queue. -/
def weight (visited : List String) (s : LevelSearch) : Nat :=
  unseen visited (s.levels.map (·.1)) + s.queue.length

theorem weight_enqueue_le (visited : List String) (level : Nat) (s : LevelSearch) (id : String) :
    (s.enqueue visited level id).weight visited ≤ s.weight visited := by
  unfold enqueue
  split
  next h =>
    obtain ⟨hmem, hnew⟩ := (Bool.and_eq_true _ _).mp h
    have hless := unseen_concat_lt (by simpa using hmem : id ∈ visited)
      (by simpa using hnew : id ∉ s.levels.map (·.1))
    simp only [weight, List.map_append, List.map_cons, List.map_nil, List.length_append,
      List.length_singleton]
    omega
  · exact Nat.le_refl _

theorem weight_foldl_enqueue_le (visited : List String) (level : Nat) (ids : List String)
    (s : LevelSearch) :
    (ids.foldl (enqueue visited level) s).weight visited ≤ s.weight visited := by
  induction ids generalizing s with
  | nil => exact Nat.le_refl _
  | cons id ids ih =>
    exact Nat.le_trans (ih (s.enqueue visited level id)) (weight_enqueue_le visited level s id)

/-- Walks on from the front of the queue until the queue is empty. Whatever is in the queue has a
level. -/
def run (g : RelationGraph) (o : TraversalOptions) (visited : List String) :
    LevelSearch → List (String × Nat)
  | ⟨levels, []⟩ => levels
  | ⟨levels, current :: rest⟩ =>
    let level := (levels.lookup current).getD 0
    run g o visited ((g.neighbors o current).foldl (enqueue visited (level + 1)) ⟨levels, rest⟩)
termination_by s => s.weight visited
decreasing_by
  refine Nat.lt_of_le_of_lt (weight_foldl_enqueue_le _ _ _ _) ?_
  simp [weight]

end LevelSearch

/-- The number of hops from the seed to each visited identifier. -/
def levels (g : RelationGraph) (o : TraversalOptions) (seed : String) (visited : List String) :
    List (String × Nat) :=
  LevelSearch.run g o visited ⟨[(seed, 0)], [seed]⟩

/-! ## Reports -/

/-- The strongest relation between a node and what was visited, of any kind. -/
def severity (g : RelationGraph) (visited : List String) (id : String) : Severity :=
  let coupled := g.edges.filter fun e =>
    (e.source = id && visited.contains e.target) || (e.target = id && visited.contains e.source)
  coupled.foldl (fun s e => s.max (.ofRelation e.kind)) .low

/-- The sources of the edges of a kind into a node, in order. -/
def sources (g : RelationGraph) (kind : Relation) (id : String) : List String :=
  sortedSet ((g.edges.filter fun e => e.kind = kind && e.target = id).map (·.source))

/-- The report on one visited identifier; only functions within the depth limit are reported. -/
def impacted? (g : RelationGraph) (o : TraversalOptions) (seed : String) (visited : List String)
    (entry : String × Nat) : Option ImpactedNode :=
  let (id, level) := entry
  if id = seed || o.maxDepth.any (· < level) then none
  else
    ((g.node? id).filter fun n => n.kind = .function).map fun n =>
      { id := n.id
        name := n.name
        kind := n.kind
        severity := g.severity visited id
        level := level
        filePath := n.filePath
        calledBy := g.sources .calls id
        importedBy := g.sources .imports id }

/-- The impact of one seed; a seed outside the graph has none. -/
def impact (g : RelationGraph) (o : TraversalOptions) (seed : String) : ImpactResult :=
  match g.node? seed with
  | none => ⟨seed, [], {}⟩
  | some _ =>
    let visited := g.visited o seed
    let levels := groupLevels ((g.levels o seed visited).filterMap (g.impacted? o seed visited))
    ⟨seed, levels, .ofLevels levels⟩

def traverse (g : RelationGraph) (seeds : List String) (o : TraversalOptions) :
    List ImpactResult :=
  seeds.map (g.impact o)

end CodeImpact.RelationGraph
