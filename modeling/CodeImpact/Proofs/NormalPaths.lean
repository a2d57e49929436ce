import CodeImpact.Path.Normal
import CodeImpact.Proofs.Text

/-!
# Normal paths

The normal form of a path has only names, behind the root or behind steps up. Its parts are read
back from its text.
-/

namespace CodeImpact.Path

/-! ## The parts of a text -/

/-- The text of a segment that is a name. -/
structure IsName (text : List Char) : Prop where
  ne_nil : text ≠ []
  ne_here : text ≠ ['.']
  ne_up : text ≠ ['.', '.']
  no_slash : '/' ∉ text

/-- What a segment behind the first one can say. -/
inductive Part.IsStep : Part → Prop
  | up : IsStep .up
  | name {text : String} (h : IsName text.toList) : IsStep (.name text)

theorem partOf?_of_isName {s : List Char} (h : IsName s) :
    partOf? s = some (.name (String.ofList s)) := by
  simp [partOf?, h.ne_nil, h.ne_here, h.ne_up]

theorem isStep_of_partOf? {s : List Char} {part : Part} (hslash : '/' ∉ s)
    (h : partOf? s = some part) : part.IsStep := by
  unfold partOf? at h
  split at h
  next => cases h
  next hsaid =>
    simp only [Bool.or_eq_true, decide_eq_true_eq, not_or] at hsaid
    split at h
    next =>
      obtain rfl := Option.some.inj h
      exact .up
    next hup =>
      obtain rfl := Option.some.inj h
      exact .name (by simpa using ⟨hsaid.1, hsaid.2, hup, hslash⟩)

/-- What the first segment says; an empty one is the root unless it is the only one. -/
def firstPart? (alone : Bool) (s : List Char) : Option Part :=
  if s = [] ∧ alone = false then some .root else if s = ['.'] then some .here else partOf? s

/-- Only the first text of a path can stand for the root. -/
theorem segments_eq {path : String} {s : List Char} {rest : List (List Char)}
    (h : path.toList.splitOn '/' = s :: rest) :
    segments path = (s, firstPart? rest.isEmpty s) :: rest.map fun t => (t, partOf? t) := by
  rw [segments, h]
  cases rest <;> simp [firstPart?]

theorem parts_eq {path : String} {s : List Char} {rest : List (List Char)}
    (h : path.toList.splitOn '/' = s :: rest) :
    parts path = (firstPart? rest.isEmpty s).toList ++ rest.filterMap partOf? := by
  rw [parts, segments_eq h, List.filterMap_cons, List.filterMap_map]
  cases firstPart? rest.isEmpty s <;> rfl

/-- A path has a first part, which may be the root or a dot, and steps behind it. -/
theorem parts_cases (path : String) :
    ∃ (first : Option Part) (steps : List Part), parts path = first.toList ++ steps ∧
      (∀ p ∈ first, p = .root ∨ p = .here ∨ p.IsStep) ∧ ∀ p ∈ steps, p.IsStep := by
  have hslash : ∀ s ∈ path.toList.splitOn '/', '/' ∉ s := fun _ => Text.not_mem_of_mem_splitOn
  obtain ⟨s, rest, hsplit⟩ := List.exists_cons_of_ne_nil (List.splitOn_ne_nil '/' path.toList)
  rw [hsplit, List.forall_mem_cons] at hslash
  refine ⟨_, _, parts_eq hsplit, ?_, ?_⟩
  · intro p hp
    unfold firstPart? at hp
    split at hp
    next => exact .inl (Option.some.inj hp).symm
    next =>
      split at hp
      next => exact .inr (.inl (Option.some.inj hp).symm)
      next => exact .inr (.inr (isStep_of_partOf? hslash.1 hp))
  · intro p hp
    obtain ⟨t, ht, hpart⟩ := List.mem_filterMap.1 hp
    exact isStep_of_partOf? (hslash.2 t ht) hpart

/-! ## Normal forms -/

/-- The parts of a path in normal form: names behind the root, or behind steps up. -/
inductive IsNormal : List Part → Prop
  | absolute (names : List String) (h : ∀ n ∈ names, IsName n.toList) :
      IsNormal (.root :: names.map .name)
  | relative (ups : Nat) (names : List String) (h : ∀ n ∈ names, IsName n.toList) :
      IsNormal (List.replicate ups .up ++ names.map .name)

/-- The parts of a normal form that is built, the last one first. -/
inductive NormalStack : List Part → Prop
  | nil : NormalStack []
  | root : NormalStack [.root]
  | up {done : List Part} (h : ∀ p ∈ done, p = .up) : NormalStack (.up :: done)
  | name {text : String} {done : List Part} (h : IsName text.toList) (hdone : NormalStack done) :
      NormalStack (.name text :: done)

/-- One part more leaves the stack normal. -/
theorem NormalStack.push {done : List Part} {part : Part} (h : NormalStack done)
    (hpart : part.IsStep) : NormalStack (pushPart done part) := by
  cases hpart with
  | up =>
    cases h with
    | nil => exact .up (by simp)
    | root => exact .root
    | up h => exact .up (by simpa using h)
    | name _ hdone => exact hdone
  | @name text hname =>
    have hpush : pushPart done (.name text) = .name text :: done := by
      cases done with
      | nil => rfl
      | cons p done => cases p <;> rfl
    rw [hpush]
    exact .name hname h

/-- A run over parts leaves the stack normal. -/
theorem normalStack_foldl {done steps : List Part} (h : NormalStack done)
    (hsteps : ∀ p ∈ steps, p.IsStep) : NormalStack (steps.foldl pushPart done) := by
  induction steps generalizing done with
  | nil => exact h
  | cons p steps ih =>
    obtain ⟨hp, hsteps⟩ := List.forall_mem_cons.1 hsteps
    exact ih (h.push hp) hsteps

/-- Only the first part of a path can be the root, so it never comes behind another one. -/
theorem normalStack_parts (path : String) : NormalStack ((parts path).foldl pushPart []) := by
  obtain ⟨first, steps, hparts, hfirst, hsteps⟩ := parts_cases path
  rw [hparts, List.foldl_append]
  refine normalStack_foldl ?_ hsteps
  cases first with
  | none => exact .nil
  | some p =>
    rcases hfirst p rfl with rfl | rfl | hstep
    · exact .root
    · exact .nil
    · exact NormalStack.nil.push hstep

theorem NormalStack.isNormal {done : List Part} (h : NormalStack done) : IsNormal done.reverse := by
  induction h with
  | nil => exact .relative 0 [] (by simp)
  | root => exact .absolute [] (by simp)
  | @up done h =>
    have hups : (Part.up :: done).reverse = List.replicate (done.length + 1) .up := by
      rw [List.eq_replicate_iff]
      simpa [or_imp, forall_and] using h
    rw [hups]
    simpa using IsNormal.relative (done.length + 1) [] (by simp)
  | @name text done h _ ih =>
    rw [List.reverse_cons]
    have hconcat : ∀ names : List String, (∀ n ∈ names, IsName n.toList) →
        ∀ n ∈ names ++ [text], IsName n.toList := fun names hnames => by
      simpa [or_imp, forall_and] using ⟨hnames, h⟩
    generalize done.reverse = ps at ih
    cases ih with
    | absolute names hnames => simpa using IsNormal.absolute _ (hconcat names hnames)
    | relative ups names hnames => simpa using IsNormal.relative ups _ (hconcat names hnames)

/-! ## Normal forms are read back -/

/-- The text of a step is one segment, which says that step. -/
theorem Part.IsStep.text {p : Part} (h : p.IsStep) :
    partOf? p.text.toList = some p ∧ '/' ∉ p.text.toList ∧ p.text.toList ≠ [] ∧
      p.text.toList ≠ ['.'] := by
  cases h with
  | up => decide
  | name h =>
    refine ⟨?_, h.no_slash, h.ne_nil, h.ne_here⟩
    rw [Part.text, partOf?_of_isName h, String.ofList_toList]

theorem text_ne_empty_of_mem_parts {path : String} {part : Part} (h : part ∈ parts path) :
    part.text ≠ "" := by
  obtain ⟨first, steps, hparts, hfirst, hsteps⟩ := parts_cases path
  rw [hparts, List.mem_append, Option.mem_toList] at h
  have hpart : part = .root ∨ part = .here ∨ part.IsStep := by
    rcases h with h | h
    · exact hfirst part h
    · exact .inr (.inr (hsteps part h))
  rcases hpart with rfl | rfl | hstep
  · decide
  · decide
  · simpa using hstep.text.2.2.1

variable {steps : List Part}

theorem filterMap_partOf?_texts (h : ∀ p ∈ steps, p.IsStep) :
    (steps.map (·.text.toList)).filterMap partOf? = steps := by
  induction steps with
  | nil => rfl
  | cons p steps ih =>
    obtain ⟨hp, hsteps⟩ := List.forall_mem_cons.1 h
    rw [List.map_cons, List.filterMap_cons, hp.text.1, ih hsteps]

/-- No part has a slash in its text, so the parts are found again. -/
theorem splitOn_texts (h : ∀ p ∈ steps, p.IsStep) (hne : steps ≠ []) :
    (['/'].intercalate (steps.map (·.text.toList))).splitOn '/' = steps.map (·.text.toList) := by
  refine List.splitOn_intercalate '/' ?_ (by simpa using hne)
  rw [List.forall_mem_map]
  exact fun p hp => (h p hp).text.2.1

theorem parts_ofParts_absolute (h : ∀ p ∈ steps, p.IsStep) :
    parts (ofParts (.root :: steps)) = .root :: steps := by
  by_cases hne : steps = []
  · subst hne
    rfl
  · have htext : (ofParts (.root :: steps)).toList =
        [] ++ '/' :: ['/'].intercalate (steps.map (·.text.toList)) := by
      simp [ofParts, String.toList_intercalate, Function.comp_def]
    have hsplit : (ofParts (.root :: steps)).toList.splitOn '/' =
        [] :: steps.map (·.text.toList) := by
      rw [htext, List.splitOn_append_cons_self_of_not_mem List.not_mem_nil, splitOn_texts h hne]
    rw [parts_eq hsplit, filterMap_partOf?_texts h]
    simp [firstPart?, hne]

theorem parts_ofParts_relative (h : ∀ p ∈ steps, p.IsStep) : parts (ofParts steps) = steps := by
  cases steps with
  | nil => rfl
  | cons p steps =>
    obtain ⟨hp, hsteps⟩ := List.forall_mem_cons.1 h
    have htext : (ofParts (p :: steps)).toList =
        ['/'].intercalate ((p :: steps).map (·.text.toList)) := by
      cases hp <;> simp [ofParts, String.toList_intercalate, Function.comp_def]
    have hsplit : (ofParts (p :: steps)).toList.splitOn '/' =
        p.text.toList :: steps.map (·.text.toList) := by
      rw [htext, splitOn_texts h (List.cons_ne_nil p steps), List.map_cons]
    have hfirst : ∀ alone, firstPart? alone p.text.toList = some p := by
      intro alone
      obtain ⟨hpart, -, hnil, hhere⟩ := hp.text
      rw [firstPart?, if_neg fun hroot => hnil hroot.1, if_neg hhere, hpart]
    rw [parts_eq hsplit, filterMap_partOf?_texts hsteps, hfirst]
    rfl

theorem parts_ofParts {ps : List Part} (h : IsNormal ps) : parts (ofParts ps) = ps := by
  have hnames : ∀ names : List String, (∀ n ∈ names, IsName n.toList) →
      ∀ p ∈ names.map Part.name, p.IsStep := by
    intro names hnames p hp
    obtain ⟨n, hn, rfl⟩ := List.mem_map.1 hp
    exact .name (hnames n hn)
  cases h with
  | absolute names h => exact parts_ofParts_absolute (hnames names h)
  | relative ups names h =>
    refine parts_ofParts_relative fun p hp => ?_
    rcases List.mem_append.1 hp with hp | hp
    · rw [List.eq_of_mem_replicate hp]
      exact .up
    · exact hnames names h p hp

theorem parts_normalize (path : String) : parts (normalize path) = normalParts (parts path) :=
  parts_ofParts (normalStack_parts path).isNormal

theorem isNormal_parts_normalize (path : String) : IsNormal (parts (normalize path)) := by
  rw [parts_normalize]
  exact (normalStack_parts path).isNormal

end CodeImpact.Path
