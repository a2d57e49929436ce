import CodeImpact.Text.Affix
import CodeImpact.Text.Blank
import CodeImpact.Text.Letters

/-!
# Type expressions and their simple names

A declared type is reduced to the name a receiver of that type resolves to: reference marks and
modifiers go, wrapper types give way to their first argument, and of a qualified name the last
segment stays.
-/

namespace CodeImpact.TypeName

open Text

/-- Types that stand for their first argument. -/
def wrappers : List String :=
  ["Box", "Arc", "Rc", "Option", "RefCell", "Cell", "Mutex", "RwLock", "Weak", "Optional",
    "Readonly", "Promise"]

/-- Marks in front of a type, tried in this order. -/
def marks : List (List Char) :=
  ["&mut ", "&", "mut ", "dyn ", "impl ", "readonly ", "typing."].map String.toList

/-- An annotation without its leading `:` or `->`, with single spaces between its words. -/
def cleanChars (s : List Char) : List Char :=
  let t := trimBoth s
  collapseBlanks ((afterLead? [':'] t).getD ((afterLead? ['-', '>'] t).getD t))

/-- Takes one mark and the blanks after it away. -/
def dropMark (t mark : List Char) : List Char :=
  ((afterLead? mark t).map trimLeft).getD t

/-- A text after its first space, if it starts with an apostrophe: the name of a lifetime goes. -/
def dropLifetime (t : List Char) : List Char :=
  if t.head? = some '\'' then ((cut? [' '] t).map (·.2)).getD [] else t

/-- Takes each mark away once, in order, and then a lifetime. -/
def dropMarksOnce (t : List Char) : List Char :=
  dropLifetime (marks.foldl dropMark t)

/-- Takes marks and lifetimes away until none is left. -/
def dropMarks (t : List Char) : List Char :=
  if (dropMarksOnce t).length < t.length then dropMarks (dropMarksOnce t) else t
termination_by t.length

/-- A character of an identifier. -/
def isNameChar (c : Char) : Bool :=
  isAlphanumeric c || c = '_'

/-- The type without annotation marks, alternatives, modifiers, array brackets and `?`. -/
def core (raw : List Char) : List Char :=
  let text := cleanChars raw
  let text := ((cut? ['|'] text).map fun (first, _) => trimBoth first).getD text
  trimBoth (dropEndWhile (· = '?') (dropAllTails ['[', ']'] (dropMarks text)))

/-- The name in front of the type's arguments, and what follows the opening bracket. -/
def head (t : List Char) : List Char × Option (List Char) :=
  match (cut? ['<'] t).or (cut? ['['] t) with
  | some (outer, rest) => (trimBoth outer, some rest)
  | none => (t, none)

/-- The last segment of a qualified name. -/
def lastSegment (t : List Char) : List Char :=
  afterLast (fun c => c = ':' || c = '.') t

/-- The first argument of the text after an opening bracket. -/
def firstArgument (inner : List Char) : List Char :=
  (dropEndWhile (fun c => c = '>' || c = ']') inner).takeWhile (· ≠ ',')

/-- The first argument of a type whose outer name is a wrapper. -/
def wrapped? (raw : List Char) : Option (List Char) :=
  let (outer, inner) := head (core raw)
  if wrappers.contains (String.ofList (lastSegment outer)) then inner.map firstArgument else none

/-- The outer name of a type, if it is an identifier. -/
def outer? (raw : List Char) : Option (List Char) :=
  let base := lastSegment (head (core raw)).1
  if !base.isEmpty && base.all isNameChar then some base else none

theorem length_cleanChars_le (s : List Char) : (cleanChars s).length ≤ s.length := by
  refine Nat.le_trans (length_collapseBlanks_le _) (Nat.le_trans ?_ (length_trimBoth_le s))
  cases h₁ : afterLead? [':'] (trimBoth s) with
  | some rest => exact length_afterLead?_le h₁
  | none =>
    cases h₂ : afterLead? ['-', '>'] (trimBoth s) with
    | some rest => exact length_afterLead?_le h₂
    | none => simp

theorem length_dropMarks_le (t : List Char) : (dropMarks t).length ≤ t.length := by
  fun_induction dropMarks t with
  | case1 t h ih => omega
  | case2 t h => exact Nat.le_refl _

theorem length_core_le (raw : List Char) : (core raw).length ≤ raw.length := by
  unfold core
  refine Nat.le_trans (length_trimBoth_le _) (Nat.le_trans (length_dropEndWhile_le _ _)
    (Nat.le_trans (length_dropAllTails_le _ _) (Nat.le_trans (length_dropMarks_le _)
      (Nat.le_trans ?_ (length_cleanChars_le raw)))))
  cases h : cut? ['|'] (cleanChars raw) with
  | none => simp
  | some x =>
    have := length_cut? h
    have := length_trimBoth_le x.1
    simp
    omega

theorem length_firstArgument_le (inner : List Char) :
    (firstArgument inner).length ≤ inner.length :=
  Nat.le_trans (List.takeWhile_sublist _).length_le (length_dropEndWhile_le _ _)

theorem length_head_lt {t outer rest : List Char} (h : head t = (outer, some rest)) :
    rest.length < t.length := by
  unfold head at h
  split at h
  next o r hc =>
    obtain ⟨rfl, rfl⟩ : trimBoth o = outer ∧ r = rest := by simpa using h
    rcases Option.or_eq_some_iff.1 hc with hc | ⟨-, hc⟩ <;>
    · have := length_cut? hc
      simp at this
      omega
  next => simp at h

theorem length_wrapped?_lt {raw arg : List Char} (h : wrapped? raw = some arg) :
    arg.length < raw.length := by
  unfold wrapped? at h
  simp only at h
  split at h
  next =>
    obtain ⟨rest, hrest, rfl⟩ := Option.map_eq_some_iff.1 h
    have := length_head_lt (Prod.ext rfl hrest : head (core raw) = (_, some rest))
    have := length_firstArgument_le rest
    have := length_core_le raw
    omega
  next => simp at h

/-- The simple name of a type, on characters. -/
def simpleChars? (raw : List Char) : Option (List Char) :=
  if h : (wrapped? raw).isSome then simpleChars? ((wrapped? raw).get h) else outer? raw
termination_by raw.length
decreasing_by exact length_wrapped?_lt (Option.some_get h).symm

/-- An annotation without its leading `:` or `->`, with single spaces between its words. -/
def clean (text : String) : String :=
  String.ofList (cleanChars text.toList)

/-- The name a receiver of this type resolves to, or none if the type is no application of a name.
-/
def simple? (raw : String) : Option String :=
  (simpleChars? raw.toList).map String.ofList

end CodeImpact.TypeName
