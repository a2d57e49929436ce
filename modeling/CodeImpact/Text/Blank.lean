/-!
# Blank space

The characters with the property White_Space, and the trimming and word splitting built on them.
Text is a list of characters here; the operations on `String` wrap these.
-/

namespace CodeImpact.Text

/-- A character with the property White_Space. -/
def isBlank (c : Char) : Bool :=
  let n := c.toNat
  (9 ≤ n && n ≤ 13) || n == 32 || n == 0x85 || n == 0xA0 || n == 0x1680 ||
    (0x2000 ≤ n && n ≤ 0x200A) || n == 0x2028 || n == 0x2029 || n == 0x202F || n == 0x205F ||
    n == 0x3000

def trimLeft (s : List Char) : List Char :=
  s.dropWhile isBlank

/-- Drops characters that satisfy `p` at the end. -/
def dropEndWhile (p : Char → Bool) (s : List Char) : List Char :=
  (s.reverse.dropWhile p).reverse

def trimRight (s : List Char) : List Char :=
  dropEndWhile isBlank s

def trimBoth (s : List Char) : List Char :=
  trimRight (trimLeft s)

/-- The maximal blank-free pieces, in order. -/
def words (s : List Char) : List (List Char) :=
  (s.splitOnP isBlank).filter (fun w => !w.isEmpty)

/-- Runs of blanks become one space, and blanks at the ends go. -/
def collapseBlanks (s : List Char) : List Char :=
  [' '].intercalate (words s)

/-- A text without blanks at its ends. -/
def trim (s : String) : String :=
  String.ofList (trimBoth s.toList)

def removeBlanks (s : String) : String :=
  String.ofList (s.toList.filter (fun c => !isBlank c))

theorem length_dropEndWhile_le (p : Char → Bool) (s : List Char) :
    (dropEndWhile p s).length ≤ s.length := by
  simpa [dropEndWhile] using (List.dropWhile_sublist p (l := s.reverse)).length_le

theorem length_trimLeft_le (s : List Char) : (trimLeft s).length ≤ s.length :=
  (List.dropWhile_sublist _).length_le

theorem length_trimBoth_le (s : List Char) : (trimBoth s).length ≤ s.length :=
  Nat.le_trans (length_dropEndWhile_le _ _) (length_trimLeft_le s)

/-- The length of pieces, with one more place for each. -/
def spread : List (List Char) → Nat
  | [] => 0
  | w :: rest => w.length + 1 + spread rest

/-- A separator of one character costs one place between two pieces. -/
theorem length_intercalate_le (c : Char) (ws : List (List Char)) :
    ([c].intercalate ws).length ≤ spread ws - 1 := by
  induction ws with
  | nil => simp
  | cons w rest ih =>
    cases rest with
    | nil => simp [spread]
    | cons v rest =>
      rw [List.intercalate_cons_cons]
      simp only [List.length_append, List.length_cons, List.length_nil, spread] at ih ⊢
      omega

theorem spread_splitOnP (p : Char → Bool) (s : List Char) :
    spread (s.splitOnP p) = s.length + 1 := by
  induction s with
  | nil => simp [spread]
  | cons c rest ih =>
    rw [List.splitOnP_cons_eq_if_modifyHead]
    split
    · simp only [spread, ih, List.length_cons, List.length_nil]; omega
    · cases h : rest.splitOnP p with
      | nil => simp [h, spread] at ih
      | cons w ws =>
        simp only [h, spread] at ih
        simp only [List.modifyHead_cons, spread, List.length_cons]
        omega

theorem spread_filter_le (p : List Char → Bool) (ws : List (List Char)) :
    spread (ws.filter p) ≤ spread ws := by
  induction ws with
  | nil => simp
  | cons w rest ih =>
    rw [List.filter_cons]
    split <;> simp only [spread] <;> omega

theorem length_collapseBlanks_le (s : List Char) : (collapseBlanks s).length ≤ s.length := by
  have h₁ := length_intercalate_le ' ' (words s)
  have h₂ := spread_filter_le (fun w => !w.isEmpty) (s.splitOnP isBlank)
  have h₃ := spread_splitOnP isBlank s
  unfold collapseBlanks
  unfold words at *
  omega

end CodeImpact.Text
