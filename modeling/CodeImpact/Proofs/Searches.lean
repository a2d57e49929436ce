import CodeImpact.Proofs.Distance

/-!
# The two searches

The depth-first search stops with exactly what can be reached: what has left its stack has all its
neighbours visited, so once the stack is empty no hop leads out of what was visited. The queue of the
breadth-first search holds one level, and behind it what was found of the next one. Taking the level
off the queue is one round of a walk, so both end with the same list of distances.
-/

namespace CodeImpact.RelationGraph

variable {g : RelationGraph} {o : TraversalOptions} {seed x y : String}

/-- What paths of followed edges lead to, the seed included and at any distance. -/
def reachable (g : RelationGraph) (o : TraversalOptions) (seed : String) : Set String :=
  {x | ∃ n, g.Path o n seed x}

theorem seed_mem_reachable : seed ∈ g.reachable o seed :=
  ⟨0, .nil seed⟩

theorem reachable_hop (hx : x ∈ g.reachable o seed) (hop : g.Hop o x y) :
    y ∈ g.reachable o seed := by
  obtain ⟨n, hpath⟩ := hx
  exact ⟨n + 1, hpath.snoc hop⟩

/-- A set with the seed that no hop leads out of has all that can be reached. -/
theorem mem_of_mem_reachable {ids : List String} (hseed : seed ∈ ids)
    (hclosed : ∀ x ∈ ids, ∀ y, g.Hop o x y → y ∈ ids) (hx : x ∈ g.reachable o seed) : x ∈ ids := by
  obtain ⟨n, hpath⟩ := hx
  induction hpath with
  | nil => exact hseed
  | snoc _ hop ih => exact hclosed _ (ih hseed) _ hop

/-! ## Depth first -/

namespace Search

/-- Reaching identifiers adds them to the visited ones. -/
theorem mem_visited_foldl {ids : List String} {s : Search} :
    x ∈ (ids.foldl visit s).visited ↔ x ∈ s.visited ∨ x ∈ ids := by
  induction ids generalizing s with
  | nil => simp
  | cons id ids ih =>
    rw [List.foldl_cons, ih, List.mem_cons, ← or_assoc]
    by_cases hid : id ∈ s.visited
    · have : x = id → x ∈ s.visited := fun h => h ▸ hid
      simp only [visit, List.contains_iff_mem, hid, if_true]
      tauto
    · simp [visit, hid]

/-- Only identifiers that were not visited go onto the stack. -/
theorem mem_stack_foldl {ids : List String} {s : Search} :
    x ∈ (ids.foldl visit s).stack ↔ x ∈ s.stack ∨ x ∈ ids ∧ x ∉ s.visited := by
  induction ids generalizing s with
  | nil => simp
  | cons id ids ih =>
    rw [List.foldl_cons, ih, List.mem_cons]
    by_cases hid : id ∈ s.visited
    · have : x ∉ s.visited → x ≠ id := fun h heq => h (heq ▸ hid)
      simp only [visit, List.contains_iff_mem, hid, if_true]
      tauto
    · have : x = id → x ∉ s.visited := fun h => h ▸ hid
      simp only [visit, List.contains_iff_mem, hid, if_false, List.mem_cons, List.mem_append,
        List.not_mem_nil, or_false, not_or]
      tauto

/-- What holds whenever the top of the stack is taken. -/
structure Consistent (g : RelationGraph) (o : TraversalOptions) (seed : String) (s : Search) :
    Prop where
  seed_mem : seed ∈ s.visited
  reachable : ∀ x ∈ s.visited, x ∈ g.reachable o seed
  stack_visited : ∀ x ∈ s.stack, x ∈ s.visited
  /-- What is not on the stack any more has been walked on from. -/
  done : ∀ x ∈ s.visited, x ∉ s.stack → ∀ y, g.Hop o x y → y ∈ s.visited

theorem Consistent.start (g : RelationGraph) (o : TraversalOptions) (seed : String) :
    Consistent g o seed ⟨[seed], [seed]⟩ where
  seed_mem := List.mem_singleton_self seed
  reachable _ hx := List.mem_singleton.1 hx ▸ seed_mem_reachable
  stack_visited _ hx := hx
  done _ hx hout := absurd hx hout

/-- Walking on from the top of the stack keeps the search consistent. -/
theorem Consistent.step {visited rest : List String} {current : String}
    (h : Consistent g o seed ⟨visited, current :: rest⟩) :
    Consistent g o seed ((g.neighbors o current).foldl visit ⟨visited, rest⟩) where
  seed_mem := mem_visited_foldl.2 (.inl h.seed_mem)
  reachable x hx := by
    have hcurrent := h.reachable current (h.stack_visited current List.mem_cons_self)
    obtain hold | hnew := mem_visited_foldl.1 hx
    · exact h.reachable x hold
    · exact reachable_hop hcurrent (mem_neighbors.1 hnew)
  stack_visited x hx := by
    obtain hold | ⟨hnew, -⟩ := mem_stack_foldl.1 hx
    · exact mem_visited_foldl.2 (.inl (h.stack_visited x (List.mem_cons_of_mem current hold)))
    · exact mem_visited_foldl.2 (.inr hnew)
  done x hx hout y hop := by
    rw [mem_stack_foldl, not_or, not_and, not_not] at hout
    have hold : x ∈ visited := (mem_visited_foldl.1 hx).elim id hout.2
    by_cases hcurrent : x = current
    · exact mem_visited_foldl.2 (.inr (mem_neighbors.2 (hcurrent ▸ hop)))
    · have hleft : x ∉ current :: rest := List.not_mem_cons_of_ne_of_not_mem hcurrent hout.1
      exact mem_visited_foldl.2 (.inl (h.done x hold hleft y hop))

/-- A consistent search ends with exactly what can be reached. -/
theorem Consistent.mem_run {s : Search} (h : Consistent g o seed s) :
    x ∈ run g o s ↔ x ∈ g.reachable o seed := by
  fun_induction run g o s with
  | case1 visited =>
    refine ⟨h.reachable x, mem_of_mem_reachable h.seed_mem fun z hz => ?_⟩
    exact h.done z hz List.not_mem_nil
  | case2 visited current rest ih => exact ih h.step

end Search

/-- The depth-first search visits exactly what can be reached. -/
theorem mem_visited : x ∈ g.visited o seed ↔ x ∈ g.reachable o seed :=
  (Search.Consistent.start g o seed).mem_run

/-! ## Breadth first -/

/-- One identifier more is new if it is neither known nor new already. -/
theorem fresh_concat (known : List (String × Nat)) (ids : List String) (id : String) :
    fresh known (ids ++ [id]) =
      if id ∈ fresh known ids ∨ id ∈ known.map (·.1) then fresh known ids
      else fresh known ids ++ [id] := by
  rw [fresh, List.foldl_append, List.foldl_cons, List.foldl_nil, ← fresh]
  simp only [Bool.or_eq_true, List.contains_iff_mem, any_eq_true_iff_mem_map]

/-- What is new in two lists is what is new in the first, and then in the second beside it. -/
theorem fresh_append (known : List (String × Nat)) (ids more : List String) (level : Nat) :
    fresh known (ids ++ more) =
      fresh known ids ++ fresh (known ++ (fresh known ids).map (·, level)) more := by
  induction more using List.reverseRecOn with
  | nil => simp [fresh]
  | append_singleton more id ih =>
    rw [← List.append_assoc, fresh_concat, ih, fresh_concat, List.map_append, keys_at_level,
      apply_ite (fresh known ids ++ ·), ← List.append_assoc]
    refine if_congr ?_ rfl rfl
    rw [List.mem_append, List.mem_append]
    tauto

namespace LevelSearch

/-- Walking on from an identifier gives a level to those of its neighbours that are new. -/
theorem foldl_enqueue {visited ids : List String} (h : ∀ id ∈ ids, id ∈ visited) (level : Nat)
    (s : LevelSearch) :
    ids.foldl (enqueue visited level) s =
      ⟨s.levels ++ (fresh s.levels ids).map (·, level), s.queue ++ fresh s.levels ids⟩ := by
  induction ids using List.reverseRecOn with
  | nil => simp [fresh]
  | append_singleton ids id ih =>
    have hvisited : id ∈ visited := h id (List.mem_append_right _ (List.mem_singleton_self id))
    rw [List.foldl_append, ih fun x hx => h x (List.mem_append_left _ hx), fresh_concat,
      List.foldl_cons, List.foldl_nil, enqueue, List.map_append, keys_at_level]
    by_cases hnew : id ∈ fresh s.levels ids ∨ id ∈ s.levels.map (·.1)
    · have hmem : id ∈ s.levels.map (·.1) ++ fresh s.levels ids := List.mem_append.2 hnew.symm
      rw [if_pos hnew, List.contains_iff_mem.2 hmem, Bool.not_true, Bool.and_false,
        if_neg Bool.false_ne_true]
    · have hmem : id ∉ s.levels.map (·.1) ++ fresh s.levels ids :=
        fun h => hnew (List.mem_append.1 h).symm
      rw [if_neg hnew, if_pos (by simpa [hvisited] using hmem)]
      simp

/-- Distinct identifiers have the levels they are listed with. -/
theorem lookup_eq_some {levels : List (String × Nat)} {level : Nat}
    (hdistinct : (levels.map (·.1)).Nodup) (h : (x, level) ∈ levels) :
    levels.lookup x = some level := by
  induction levels with
  | nil => cases h
  | cons entry levels ih =>
    obtain ⟨key, first⟩ := entry
    obtain ⟨hout, hrest⟩ := List.nodup_cons.1 hdistinct
    obtain heq | hmem := List.mem_cons.1 h
    · obtain ⟨rfl, rfl⟩ := Prod.mk.inj heq
      simp
    · have hne : x ≠ key := fun heq => hout (heq ▸ List.mem_map.2 ⟨_, hmem, rfl⟩)
      rw [List.lookup_cons, beq_false_of_ne hne]
      exact ih hrest hmem

/-- The front of the queue holds the rest of one level. Once it is taken off, what is new among its
neighbours has the next level and stands at the end of the queue. -/
theorem run_level {visited near : List String} {levels : List (String × Nat)} {level : Nat}
    (hdistinct : (levels.map (·.1)).Nodup) (hnear : ∀ x ∈ near, (x, level) ∈ levels)
    (hvisited : ∀ x ∈ near, ∀ y ∈ g.neighbors o x, y ∈ visited) (far : List String) :
    run g o visited ⟨levels, near ++ far⟩ =
      run g o visited
        ⟨levels ++ (fresh levels (near.flatMap (g.neighbors o))).map (·, level + 1),
          far ++ fresh levels (near.flatMap (g.neighbors o))⟩ := by
  induction near generalizing far levels with
  | nil => simp [fresh]
  | cons current near ih =>
    obtain ⟨hcurrent, hnear⟩ := List.forall_mem_cons.1 hnear
    obtain ⟨hneighbors, hvisited⟩ := List.forall_mem_cons.1 hvisited
    rw [List.cons_append, run, lookup_eq_some hdistinct hcurrent, Option.getD_some,
      foldl_enqueue hneighbors, List.append_assoc,
      ih (nodup_keys_append_fresh hdistinct _ _) (fun x hx => List.mem_append_left _ (hnear x hx))
        hvisited,
      List.flatMap_cons, fresh_append levels _ _ (level + 1), List.map_append, List.append_assoc,
      List.append_assoc]

/-- Before each round of a walk, the queue that holds its frontier comes to the same end. -/
theorem run_eq_spread {visited frontier : List String} {reached : List (String × Nat)}
    {level rounds : Nat} (hall : ∀ x ∈ g.reachable o seed, x ∈ visited)
    (h : Explored g o seed level reached frontier)
    (henough : 2 * g.edges.length < rounds + level) :
    run g o visited ⟨reached, frontier⟩ =
      spread (g.neighbors o) rounds level reached frontier := by
  induction rounds generalizing level reached frontier with
  | zero =>
    have := h.level_le
    omega
  | succ rounds ih =>
    have hdistance : ∀ x ∈ frontier, g.IsDistance o seed x level := fun x => (h.frontier_iff x).1
    have hround := run_level h.distinct
      (fun x hx => (h.reached_iff x level).2 ⟨Nat.le_refl level, hdistance x hx⟩)
      (fun x hx y hy => hall y (reachable_hop ⟨level, (hdistance x hx).1⟩ (mem_neighbors.1 hy))) []
    rw [List.append_nil, List.nil_append] at hround
    rw [hround, spread]
    split
    next hnext =>
      rw [hnext, List.map_nil, List.append_nil, run]
    next hne => exact ih (h.advance rfl hne) (by omega)

end LevelSearch

/-- The breadth-first search finds every distance, in the order of a walk in rounds, as long as it
may go wherever paths lead. -/
theorem levels_eq_distances {visited : List String} (h : ∀ x ∈ g.reachable o seed, x ∈ visited) :
    g.levels o seed visited = g.distances o seed :=
  LevelSearch.run_eq_spread h (Explored.start g o seed) (by omega)

/-- The breadth-first search within what the depth-first one visited. -/
theorem levels_visited (g : RelationGraph) (o : TraversalOptions) (seed : String) :
    g.levels o seed (g.visited o seed) = g.distances o seed :=
  levels_eq_distances fun _ => mem_visited.2

end CodeImpact.RelationGraph
