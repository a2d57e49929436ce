/-!
# Beginnings, ends and first occurrences

Cutting a text at a separator, and taking a fixed beginning or end away, once or as often as it
occurs.
-/

namespace CodeImpact.Text

/-- What follows `lead` at the start of the text, if the text starts so. -/
def afterLead? (lead s : List Char) : Option (List Char) :=
  if lead.isPrefixOf s then some (s.drop lead.length) else none

/-- What precedes `tail` at the end of the text, if the text ends so. -/
def beforeTail? (tail s : List Char) : Option (List Char) :=
  if tail.isSuffixOf s then some (s.take (s.length - tail.length)) else none

/-- Takes `lead` away from the start at most `n` times. -/
def dropLeads (lead : List Char) : Nat → List Char → List Char
  | 0, s => s
  | n + 1, s =>
    match afterLead? lead s with
    | some rest => dropLeads lead n rest
    | none => s

/-- Takes a nonempty `lead` away from the start as often as it occurs there. -/
def dropAllLeads (lead s : List Char) : List Char :=
  if lead.isEmpty then s else dropLeads lead s.length s

/-- Takes a nonempty `tail` away from the end as often as it occurs there. -/
def dropAllTails (tail s : List Char) : List Char :=
  (dropAllLeads tail.reverse s.reverse).reverse

/-- The text before and after the first occurrence of `sep`. -/
def cut? (sep : List Char) : List Char → Option (List Char × List Char)
  | [] => if sep.isEmpty then some ([], []) else none
  | c :: rest =>
    if sep.isPrefixOf (c :: rest) then some ([], (c :: rest).drop sep.length)
    else (cut? sep rest).map fun (before, after) => (c :: before, after)

/-- The text before and after the last occurrence of `sep`. -/
def cutLast? (sep s : List Char) : Option (List Char × List Char) :=
  (cut? sep.reverse s.reverse).map fun (after, before) => (before.reverse, after.reverse)

/-- The text after the last character that satisfies `p`, or the whole text. -/
def afterLast (p : Char → Bool) (s : List Char) : List Char :=
  (s.reverse.takeWhile (fun c => !p c)).reverse

/-- The lines of a text: each ends at a line feed, with one carriage return before it dropped. A
last line without a line feed is kept as it is, unless it is empty. -/
def lines (s : List Char) : List (List Char) :=
  let parts := s.splitOn '\n'
  let ended := parts.dropLast.map fun line =>
    match beforeTail? ['\r'] line with
    | some shorter => shorter
    | none => line
  match parts.getLast? with
  | some (c :: rest) => ended ++ [c :: rest]
  | _ => ended

def contains (part s : String) : Bool :=
  (cut? part.toList s.toList).isSome

/-- Every occurrence of `old` becomes `new`. -/
def replaceChar (old : Char) (new : List Char) (s : String) : String :=
  String.ofList (s.toList.flatMap fun c => if c == old then new else [c])

def hasLead (lead s : String) : Bool :=
  lead.toList.isPrefixOf s.toList

def hasTail (tail s : String) : Bool :=
  tail.toList.isSuffixOf s.toList

theorem length_afterLead?_le {lead s rest : List Char} (h : afterLead? lead s = some rest) :
    rest.length ≤ s.length := by
  unfold afterLead? at h
  split at h <;> simp_all
  subst h; simp

theorem length_dropLeads_le (lead : List Char) (n : Nat) (s : List Char) :
    (dropLeads lead n s).length ≤ s.length := by
  induction n generalizing s with
  | zero => simp [dropLeads]
  | succ n ih =>
    unfold dropLeads
    split
    next rest h => exact Nat.le_trans (ih rest) (length_afterLead?_le h)
    next => exact Nat.le_refl _

theorem length_dropAllTails_le (tail s : List Char) : (dropAllTails tail s).length ≤ s.length := by
  unfold dropAllTails dropAllLeads
  split
  · simp
  · simpa using length_dropLeads_le tail.reverse s.reverse.length s.reverse

theorem length_cut? {sep s before after : List Char} (h : cut? sep s = some (before, after)) :
    before.length + sep.length + after.length = s.length := by
  induction s generalizing before with
  | nil =>
    unfold cut? at h
    split at h <;> simp_all
  | cons c rest ih =>
    unfold cut? at h
    split at h
    next hp =>
      have := (List.isPrefixOf_iff_prefix.1 hp).length_le
      simp only [Option.some.injEq, Prod.mk.injEq] at h
      obtain ⟨rfl, rfl⟩ := h
      simp at this ⊢
      omega
    next =>
      cases hr : cut? sep rest with
      | none => simp [hr] at h
      | some x =>
        obtain ⟨b, a⟩ := x
        simp [hr] at h
        obtain ⟨rfl, rfl⟩ := h
        have := ih hr
        simp only [List.length_cons]
        omega

end CodeImpact.Text
