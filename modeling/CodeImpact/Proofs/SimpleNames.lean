import CodeImpact.Proofs.TypeExpressions

/-!
# Reading simple names

A simple name is read in steps. A round takes marks away and is repeated until one changes nothing;
then the first argument of a wrapper is read in turn, or the outer name is the answer. Each step
leaves less to read, so the answer is there after at most two steps for each character and two more,
whatever the text is. A name that is found so is its own simple name.
-/

namespace CodeImpact.TypeName

open Text

/-! ## Rounds -/

theorem dropLifetime_eq_or_shorter (t : List Char) :
    dropLifetime t = t ∨ (dropLifetime t).length < t.length := by
  by_cases h : t.head? = some '\''
  · right
    obtain ⟨rest, rfl⟩ := List.head?_eq_some_iff.1 h
    cases hcut : cut? [' '] ('\'' :: rest) with
    | none => simp [dropLifetime, hcut]
    | some pieces =>
      have hlength := length_cut? hcut
      simp [dropLifetime, hcut] at hlength ⊢
      omega
  · exact .inl (dropLifetime_of_head? h)

/-- A round that changes a text makes it shorter. -/
theorem dropMarksOnce_eq_or_shorter (t : List Char) :
    dropMarksOnce t = t ∨ (dropMarksOnce t).length < t.length := by
  have hlifetime := length_dropLifetime_le (marks.foldl dropMark t)
  unfold dropMarksOnce
  obtain ⟨hsame, -⟩ | hless := foldl_dropMark_cases marks_ne_nil t
  · rw [hsame]
    exact dropLifetime_eq_or_shorter t
  · exact .inr (by omega)

theorem dropMarks_of_stable {t : List Char} (h : dropMarksOnce t = t) : dropMarks t = t := by
  rw [dropMarks, h, if_neg (Nat.lt_irrefl _)]

theorem dropMarks_dropMarksOnce (t : List Char) : dropMarks (dropMarksOnce t) = dropMarks t := by
  obtain hsame | hless := dropMarksOnce_eq_or_shorter t
  · rw [hsame]
  · conv_rhs => rw [dropMarks, if_pos hless]

/-! ## Steps -/

/-- The text before the first alternative ends, without the signs of an annotation. -/
def firstAlternative (raw : List Char) : List Char :=
  ((cut? ['|'] (cleanChars raw)).map fun pieces => trimBoth pieces.1).getD (cleanChars raw)

/-- A text without array brackets, question marks and blanks at its end. -/
def trimTail (t : List Char) : List Char :=
  trimBoth (dropEndWhile (· = '?') (dropAllTails ['[', ']'] t))

/-- The first argument, if the outer name is a wrapper. -/
def argument? (t : List Char) : Option (List Char) :=
  if wrappers.contains (String.ofList (lastSegment (head t).1)) then (head t).2.map firstArgument
  else none

/-- The outer name, if it is an identifier. -/
def identifier? (t : List Char) : Option (List Char) :=
  let base := lastSegment (head t).1
  if !base.isEmpty && base.all isNameChar then some base else none

/-- How far the reading of a simple name is. -/
inductive Reading
  /-- A type is to be read. -/
  | type (raw : List Char)
  /-- Marks are being taken away. -/
  | rounds (t : List Char)
  | done (name : Option (List Char))
  deriving DecidableEq

theorem length_firstAlternative_le (raw : List Char) :
    (firstAlternative raw).length ≤ raw.length := by
  have hclean := length_cleanChars_le raw
  unfold firstAlternative
  cases hcut : cut? ['|'] (cleanChars raw) with
  | none => simpa using hclean
  | some pieces =>
    have hpieces := length_cut? hcut
    have htrim := length_trimBoth_le pieces.1
    simp only [Option.map_some, Option.getD_some]
    omega

/-- An argument is shorter than the type, so looking into it ends. -/
theorem length_argument?_lt {t arg : List Char} (h : argument? (trimTail t) = some arg) :
    arg.length < t.length := by
  have htail : (trimTail t).length ≤ t.length := by
    have htrim := length_trimBoth_le (dropEndWhile (· = '?') (dropAllTails ['[', ']'] t))
    have hmarks := length_dropEndWhile_le (· = '?') (dropAllTails ['[', ']'] t)
    have hsquare := length_dropAllTails_le ['[', ']'] t
    simp only [trimTail]
    omega
  unfold argument? at h
  split at h
  · obtain ⟨rest, hrest, rfl⟩ := Option.map_eq_some_iff.1 h
    have hhead := length_head_lt (Prod.ext rfl hrest : head (trimTail t) = (_, some rest))
    have hfirst := length_firstArgument_le rest
    omega
  · cases h

namespace Reading

/-- What follows when no marks are left. -/
def unmarked (t : List Char) : Reading :=
  match argument? (trimTail t) with
  | some arg => type arg
  | none => done (identifier? (trimTail t))

/-- One step; nothing follows an answer. -/
def next? : Reading → Option Reading
  | type raw => some (rounds (firstAlternative raw))
  | rounds t =>
    if dropMarksOnce t = t then some (unmarked t) else some (rounds (dropMarksOnce t))
  | done _ => none

/-- At most so many steps. -/
def run : Nat → Reading → Reading
  | 0, r => r
  | n + 1, r => ((next? r).map (run n)).getD r

/-- The answer that is being read. -/
def answer : Reading → Option (List Char)
  | type raw => simpleChars? raw
  | rounds t =>
    match argument? (trimTail (dropMarks t)) with
    | some arg => simpleChars? arg
    | none => identifier? (trimTail (dropMarks t))
  | done name => name

/-- A bound on the steps that are left. -/
def weight : Reading → Nat
  | type raw => 2 * raw.length + 2
  | rounds t => 2 * t.length + 1
  | done _ => 0

theorem answer_type (raw : List Char) :
    (type raw).answer = (rounds (firstAlternative raw)).answer := by
  have hwrapped : wrapped? raw = argument? (trimTail (dropMarks (firstAlternative raw))) := rfl
  simp only [answer]
  cases harg : argument? (trimTail (dropMarks (firstAlternative raw))) with
  | none => exact simpleChars?_eq_outer? (hwrapped.trans harg)
  | some arg => exact simpleChars?_eq_of_wrapped (hwrapped.trans harg)

theorem answer_unmarked (t : List Char) (h : dropMarksOnce t = t) :
    (unmarked t).answer = (rounds t).answer := by
  simp only [unmarked, answer, dropMarks_of_stable h]
  cases argument? (trimTail t) <;> rfl

theorem weight_unmarked_lt (t : List Char) : (unmarked t).weight < (rounds t).weight := by
  unfold unmarked
  cases harg : argument? (trimTail t) with
  | none => simp [weight]
  | some arg =>
    -- the bracket in front of the argument pays for the step into it
    have hlength := length_argument?_lt harg
    simp only [weight]
    omega

/-- A step leaves less to read, and the answer as it is. -/
theorem next?_spec {r s : Reading} (h : next? r = some s) :
    s.answer = r.answer ∧ s.weight < r.weight := by
  cases r with
  | type raw =>
    obtain rfl := Option.some.inj h
    refine ⟨(answer_type raw).symm, ?_⟩
    have hlength := length_firstAlternative_le raw
    simp only [weight]
    omega
  | rounds t =>
    simp only [next?] at h
    by_cases hstable : dropMarksOnce t = t
    · rw [if_pos hstable] at h
      obtain rfl := Option.some.inj h
      exact ⟨answer_unmarked t hstable, weight_unmarked_lt t⟩
    · rw [if_neg hstable] at h
      obtain rfl := Option.some.inj h
      refine ⟨?_, ?_⟩
      · simp only [answer, dropMarks_dropMarksOnce]
      · have hless := (dropMarksOnce_eq_or_shorter t).resolve_left hstable
        simp only [weight]
        omega
  | done name => cases h

/-- Enough steps give the answer, and more of them change nothing. -/
theorem run_eq_done {r : Reading} {n : Nat} (h : r.weight ≤ n) : run n r = done r.answer := by
  -- on the steps that are allowed: each of them takes at least one from the weight
  induction n generalizing r with
  | zero =>
    cases r with
    | type raw => simp [weight] at h
    | rounds t => simp [weight] at h
    | done name => rfl
  | succ n ih =>
    cases hnext : next? r with
    | none =>
      cases r with
      | type raw => cases hnext
      | rounds t =>
        simp only [next?] at hnext
        split at hnext <;> cases hnext
      | done name => rfl
    | some s =>
      obtain ⟨hanswer, hweight⟩ := next?_spec hnext
      rw [run, hnext, Option.map_some, Option.getD_some, ih (by omega), hanswer]

end Reading

/-! ## Names -/

/-- What is found is a name. -/
theorem exists_segment {raw name : List Char} (h : simpleChars? raw = some name) :
    ∃ s : Segment, s.chars = name := by
  fun_induction simpleChars? raw with
  | case1 raw hwrapped ih => exact ih h
  | case2 raw hwrapped =>
    simp only [outer?] at h
    split at h
    next hname =>
      obtain rfl := Option.some.inj h
      simp only [Bool.and_eq_true, Bool.not_eq_true', List.isEmpty_eq_false_iff,
        List.all_eq_true] at hname
      exact ⟨⟨_, hname.1, hname.2⟩, rfl⟩
    next => cases h

/-- A name without qualifiers and arguments is its own simple name. -/
theorem Segment.simpleChars?_chars (s : Segment) : simpleChars? s.chars = some s.chars := by
  have hname := simpleChars?_spine .angle (.name ⟨[], s⟩) [] (.closed (n := 0) (Nat.zero_le _))
  simpa [TypeExpr.spine, TypeExpr.target, QualifiedName.chars] using hname

/-- Whatever the text is, its simple name is found after at most two steps for each character and two
more. A simple name is not empty, has letters, numbers and low lines only, and is its own simple
name. -/
theorem simple_name_found_and_fixed (raw : String) :
    (∀ fuel, 2 * (raw.toList.length + 1) ≤ fuel →
      (Reading.type raw.toList).run fuel = .done ((simple? raw).map String.toList)) ∧
    ∀ name, simple? raw = some name → name ≠ "" ∧
      (∀ c ∈ name.toList, isAlphanumeric c = true ∨ c = '_') ∧ simple? name = some name := by
  constructor
  · intro fuel hfuel
    have hrun := Reading.run_eq_done (r := .type raw.toList) (n := fuel) (by
      simp only [Reading.weight]
      omega)
    rw [hrun, simple?, Option.map_map]
    simp [Reading.answer, Function.comp_def]
  · intro name hname
    obtain ⟨chars, hchars, rfl⟩ := Option.map_eq_some_iff.1 hname
    obtain ⟨s, rfl⟩ := exists_segment hchars
    refine ⟨?_, ?_, ?_⟩
    · simpa using s.ne_nil
    · intro c hc
      have hc := s.isName c (by simpa using hc)
      simpa [isNameChar] using hc
    · simp [simple?, s.simpleChars?_chars]

/-- Brackets that are never closed, and marks inside them. -/
theorem unclosed_name_found_and_fixed :
    (Reading.type "Box<&'a Arc<typing.Repo".toList).run 48 = .done (some "Repo".toList) ∧
      simple? "Box<&'a Arc<typing.Repo" = some "Repo" ∧ simple? "Repo" = some "Repo" := by
  have hspec := simple_name_found_and_fixed "Box<&'a Arc<typing.Repo"
  have hrun := hspec.1 48 (by decide)
  have hfound : (Reading.type "Box<&'a Arc<typing.Repo".toList).run 48 =
      .done (some "Repo".toList) := by decide +kernel
  have hname : simple? "Box<&'a Arc<typing.Repo" = some "Repo" := by
    rw [hfound] at hrun
    obtain ⟨name, hname, htext⟩ := Option.map_eq_some_iff.1 (Reading.done.inj hrun).symm
    rw [hname, String.toList_injective htext]
  exact ⟨hfound, hname, (hspec.2 _ hname).2.2⟩

end CodeImpact.TypeName
