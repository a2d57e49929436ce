import CodeImpact.Patch.Reader
import CodeImpact.Proofs.Text
import Mathlib.Data.List.TakeWhile

/-!
# The text of diffs

A unified diff put together from its files, hunks and lines. What the headers say can be read back
from their text, every piece stands on a line of its own, and the numbers of the changed lines fit
in 64 bits.
-/

namespace CodeImpact.Patch

/-! ## Diffs as they are written -/

/-- A text without line feeds. -/
abbrev Line := { s : List Char // '\n' ∉ s }

/-- A line of a hunk. -/
inductive BodyLine
  | context (text : Line)
  /-- An empty context line that lost its leading space. -/
  | blank
  | added (text : Line)
  | deleted (text : Line)
  /-- A remark, such as that no line feed ends the file; it is a line of neither side. -/
  | remark (text : Line)

namespace BodyLine

/-- Whether the line is one of the old file. -/
def onOld : BodyLine → Bool
  | .context _ | .blank | .deleted _ => true
  | .added _ | .remark _ => false

/-- Whether the line is one of the new file. -/
def onNew : BodyLine → Bool
  | .context _ | .blank | .added _ => true
  | .deleted _ | .remark _ => false

def isAdded : BodyLine → Bool
  | .added _ => true
  | _ => false

def isDeleted : BodyLine → Bool
  | .deleted _ => true
  | _ => false

/-- The line in the diff. -/
def chars : BodyLine → List Char
  | .context text => ' ' :: text
  | .blank => []
  | .added text => '+' :: text
  | .deleted text => '-' :: text
  | .remark text => '\\' :: text

end BodyLine

/-- The numbers of the marked lines among those of one side, which are counted from `start` on. -/
def sideNumbers (side marked : BodyLine → Bool) (start : Nat) (body : List BodyLine) : List Nat :=
  (((body.filter side).zipIdx start).filter fun numbered => marked numbered.1).map (·.2)

/-- A hunk with its text. The counts of the header match the body, and no line number exceeds 64
bits. -/
structure WrittenHunk where
  oldStart : UInt64
  oldCount : UInt64
  newStart : UInt64
  newCount : UInt64
  /-- Whether the old count is left out if it is one. -/
  oldShort : Bool
  /-- Whether the new count is left out if it is one. -/
  newShort : Bool
  /-- What follows the ranges in the header. -/
  heading : Line
  body : List BodyLine
  oldCount_eq : oldCount.toNat = body.countP BodyLine.onOld
  newCount_eq : newCount.toNat = body.countP BodyLine.onNew
  old_fits : oldStart.toNat + oldCount.toNat ≤ UInt64.size
  new_fits : newStart.toNat + newCount.toNat ≤ UInt64.size

/-- A range of lines in a hunk header. -/
def rangeChars (start count : UInt64) (short : Bool) : List Char :=
  Nat.toDigits 10 start.toNat ++
    if short && count = 1 then [] else ',' :: Nat.toDigits 10 count.toNat

namespace WrittenHunk

/-- The true numbers of the added lines. -/
def addedNumbers (w : WrittenHunk) : List Nat :=
  sideNumbers BodyLine.onNew BodyLine.isAdded w.newStart.toNat w.body

/-- The true numbers of the deleted lines. -/
def deletedNumbers (w : WrittenHunk) : List Nat :=
  sideNumbers BodyLine.onOld BodyLine.isDeleted w.oldStart.toNat w.body

/-- The hunk that is written. -/
def hunk (w : WrittenHunk) : Hunk where
  oldStart := w.oldStart
  oldCount := w.oldCount
  newStart := w.newStart
  newCount := w.newCount
  added := w.addedNumbers.map UInt64.ofNat
  deleted := w.deletedNumbers.map UInt64.ofNat

/-- The hunk that the header announces, without any changed line. -/
def announced (w : WrittenHunk) : Hunk where
  oldStart := w.oldStart
  oldCount := w.oldCount
  newStart := w.newStart
  newCount := w.newCount

/-- The header of the hunk, up to its heading. -/
def rangesChars (w : WrittenHunk) : List Char :=
  "@@ -".toList ++ rangeChars w.oldStart w.oldCount w.oldShort ++ " +".toList ++
    rangeChars w.newStart w.newCount w.newShort ++ " @@".toList

def lines (w : WrittenHunk) : List (List Char) :=
  (w.rangesChars ++ w.heading.val) :: w.body.map BodyLine.chars

end WrittenHunk

/-- A path as a header can name it. -/
structure HeaderPath where
  text : List Char
  no_feed : '\n' ∉ text
  no_tab : '\t' ∉ text
  no_tail : ∀ c ∈ text.getLast?, Text.isBlank c = false ∧ c ≠ '\"'

/-- One side of a file header: the path after a letter and a slash, or the null device. -/
def sideChars (letter : Char) : Option HeaderPath → List Char
  | some path => letter :: '/' :: path.text
  | none => "/dev/null".toList

/-- How the lines start that say something outside hunks. -/
def headerLeads : List (List Char) :=
  ["diff --git ".toList, "--- ".toList, "+++ ".toList, "@@".toList]

/-- A line that says nothing outside hunks. -/
def IsPlain (line : List Char) : Prop :=
  ∀ lead ∈ headerLeads, ¬ lead <+: line

instance (line : List Char) : Decidable (IsPlain line) :=
  inferInstanceAs (Decidable (∀ lead ∈ headerLeads, ¬ lead <+: line))

/-- A file section with its text. -/
structure WrittenFile where
  /-- What follows `diff --git`, if the section starts with such a line. -/
  git : Option Line
  /-- The lines between that one and the paths. -/
  extended : List Line
  /-- Whether the letters before the paths change places, as in a reversed diff. -/
  swapped : Bool
  oldPath : Option HeaderPath
  newPath : Option HeaderPath
  hunks : List WrittenHunk
  extended_plain : ∀ line ∈ extended, IsPlain line
  hunks_ne_nil : hunks ≠ []

namespace WrittenFile

/-- The file that is written. -/
def patch (f : WrittenFile) : FilePatch where
  oldPath := f.oldPath.map fun path => String.ofList path.text
  newPath := f.newPath.map fun path => String.ofList path.text
  hunks := f.hunks.map WrittenHunk.hunk
  hasHeader := true

def gitLine (f : WrittenFile) : List (List Char) :=
  f.git.toList.map fun rest => "diff --git ".toList ++ rest.val

def oldSide (f : WrittenFile) : List Char :=
  sideChars (if f.swapped then 'b' else 'a') f.oldPath

def newSide (f : WrittenFile) : List Char :=
  sideChars (if f.swapped then 'a' else 'b') f.newPath

def oldLine (f : WrittenFile) : List Char :=
  "--- ".toList ++ f.oldSide

def newLine (f : WrittenFile) : List Char :=
  "+++ ".toList ++ f.newSide

def lines (f : WrittenFile) : List (List Char) :=
  f.gitLine ++ (f.extended.map Subtype.val ++
    (f.oldLine :: f.newLine :: f.hunks.flatMap WrittenHunk.lines))

end WrittenFile

/-- The text of a diff; a line feed ends every line. -/
def diffText (files : List WrittenFile) : String :=
  String.ofList (Text.unlines (files.flatMap WrittenFile.lines))

/-! ## Hunk headers -/

/-- Decimal digits of any script, at least one. -/
structure IsDigits (s : List Char) : Prop where
  ne_nil : s ≠ []
  isDecimal : ∀ c ∈ s, Text.isDecimal c = true

theorem isDigits_toDigits (n : Nat) : IsDigits (Nat.toDigits 10 n) where
  ne_nil := by simp
  isDecimal c hc :=
    Text.isDecimal_of_isDigit (List.all_eq_true.1 (Text.all_isDigit_toDigits n) c hc)

/-- A number ends where the digits end. -/
theorem digits?_append {digits rest : List Char} (hdigits : IsDigits digits)
    (h : ∀ c ∈ rest.head?, Text.isDecimal c = false) :
    digits? (digits ++ rest) = some (digits, rest) := by
  have hrest : rest.takeWhile Text.isDecimal = [] := by
    cases rest with
    | nil => rfl
    | cons c rest => simp [h c rfl]
  have htake : (digits ++ rest).takeWhile Text.isDecimal = digits := by
    rw [List.takeWhile_append_of_pos hdigits.isDecimal, hrest, List.append_nil]
  simp [digits?, htake, hdigits.ne_nil]

/-- A count behind its comma; nothing if it is left out. -/
def countChars (count : Option (List Char)) : List Char :=
  (count.map (',' :: ·)).getD []

/-- A range is found at the start of a text. -/
theorem range?_append {start : List Char} {count : Option (List Char)} {rest : List Char}
    (hstart : IsDigits start) (hcount : ∀ digits ∈ count, IsDigits digits)
    (h : rest.head? = some ' ') :
    range? (start ++ (countChars count ++ rest)) = some (start, count, rest) := by
  obtain ⟨rest, rfl⟩ := List.head?_eq_some_iff.1 h
  have hspace : ∀ c ∈ (' ' :: rest).head?, Text.isDecimal c = false := by
    rintro c ⟨⟩
    decide
  unfold range? countChars
  cases count with
  | none =>
    rw [Option.map_none, Option.getD_none, List.nil_append, digits?_append hstart hspace]
    rfl
  | some digits =>
    have hcomma : ∀ c ∈ (',' :: (digits ++ ' ' :: rest)).head?, Text.isDecimal c = false := by
      rintro c ⟨⟩
      decide
    rw [Option.map_some, Option.getD_some, List.cons_append, digits?_append hstart hcomma]
    simp only [Option.bind_eq_bind, Option.bind_some, digits?_append (hcount digits rfl) hspace]

/-- A range is read back; a short one has no count. -/
theorem range?_rangeChars (start count : UInt64) (short : Bool) {rest : List Char}
    (h : rest.head? = some ' ') :
    range? (rangeChars start count short ++ rest) =
      some (Nat.toDigits 10 start.toNat,
        if short && count = 1 then none else some (Nat.toDigits 10 count.toNat), rest) := by
  let written := if short && count = 1 then none else some (Nat.toDigits 10 count.toNat)
  have hchars : rangeChars start count short =
      Nat.toDigits 10 start.toNat ++ countChars written := by
    unfold rangeChars
    simp only [written]
    split <;> rfl
  have hwritten : ∀ digits ∈ written, IsDigits digits := by
    intro digits hdigits
    simp only [written] at hdigits
    split at hdigits
    · cases hdigits
    · obtain rfl := Option.some.inj hdigits
      exact isDigits_toDigits _
  rw [hchars, List.append_assoc]
  exact range?_append (isDigits_toDigits _) hwritten h

/-- A count of one may be left out. -/
theorem word64?_count (count : UInt64) (short : Bool) :
    (((if short && count = 1 then none else some (Nat.toDigits 10 count.toNat)).bind
      Text.word64?).getD 1) = count := by
  split
  next hone =>
    simp only [Bool.and_eq_true, decide_eq_true_eq] at hone
    exact hone.2.symm
  next => rw [Option.bind_some, Text.word64?_toDigits, Option.getD_some]

/-- The header of a written hunk is read as its numbers. -/
theorem header?_rangesChars (w : WrittenHunk) (rest : List Char) :
    header? (w.rangesChars ++ rest) = some w.announced := by
  have hplus : ∀ s : List Char, (" +".toList ++ s).head? = some ' ' := fun _ => rfl
  have hclose : (" @@".toList ++ rest).head? = some ' ' := rfl
  unfold header? WrittenHunk.rangesChars
  simp only [List.append_assoc, Text.afterLead?_append, Option.bind_eq_bind, Option.bind_some,
    range?_rangeChars _ _ _ (hplus _), range?_rangeChars _ _ _ hclose, Text.word64?_toDigits,
    word64?_count, WrittenHunk.announced]

theorem mem_rangeChars {start count : UInt64} {short : Bool} {c : Char}
    (h : c ∈ rangeChars start count short) : c = ',' ∨ c.isDigit = true := by
  have hdigits : ∀ n, c ∈ Nat.toDigits 10 n → c.isDigit = true := fun n =>
    List.all_eq_true.1 (Text.all_isDigit_toDigits n) c
  rcases List.mem_append.1 h with h | h
  · exact .inr (hdigits _ h)
  · split at h
    · cases h
    · exact (List.mem_cons.1 h).imp id (hdigits _)

/-- The ranges of a header hold no characters that end lines. -/
theorem WrittenHunk.not_mem_rangesChars (w : WrittenHunk) {c : Char} (hdigit : c.isDigit = false)
    (hmark : c ∉ "@-+, ".toList) : c ∉ w.rangesChars := by
  have hrange : ∀ start count short, c ∉ rangeChars start count short := by
    intro start count short hc
    rcases mem_rangeChars hc with rfl | hc
    · exact hmark (by decide)
    · rw [hdigit] at hc
      cases hc
  unfold WrittenHunk.rangesChars
  simp only [List.mem_append, hrange, or_false, not_or]
  simp at hmark ⊢
  tauto

/-! ## Paths -/

/-- The line of a path ends in no blank and no quote. -/
theorem last_sideChars (letter : Char) (path : Option HeaderPath) :
    ∀ c ∈ (sideChars letter path).getLast?, Text.isBlank c = false ∧ c ≠ '\"' := by
  cases path with
  | none =>
    intro c hc
    obtain rfl : 'l' = c := Option.some.inj hc
    decide
  | some path =>
    intro c hc
    change c ∈ ([letter, '/'] ++ path.text).getLast? at hc
    rw [List.getLast?_append, Option.mem_def, Option.or_eq_some_iff] at hc
    rcases hc with hc | ⟨-, hc⟩
    · exact path.no_tail c hc
    · obtain rfl : '/' = c := by simpa using hc
      decide

/-- A path without a tab, and without blanks and quotes at its ends, loses a leading letter at
most. -/
theorem headerPath?_of_ends {s : List Char} (htab : '\t' ∉ s)
    (hfirst : ∀ c ∈ s.head?, Text.isBlank c = false ∧ c ≠ '\"')
    (hlast : ∀ c ∈ s.getLast?, Text.isBlank c = false ∧ c ≠ '\"') :
    headerPath? s =
      if s = "/dev/null".toList then none
      else some (String.ofList
        ((Text.afterLead? ['a', '/'] s).getD ((Text.afterLead? ['b', '/'] s).getD s))) := by
  have htake : s.takeWhile (· ≠ '\t') = s := by
    rw [List.takeWhile_eq_self_iff]
    intro c hc
    have hne : c ≠ '\t' := fun heq => htab (heq ▸ hc)
    simpa using hne
  have hstart : ∀ p : Char → Bool, (∀ c ∈ s.head?, p c = false) → s.dropWhile p = s := by
    intro p hp
    cases s with
    | nil => rfl
    | cons c rest => simp [hp c rfl]
  have hleft : Text.trimLeft s = s := hstart _ fun c hc => (hfirst c hc).1
  have hright : Text.trimRight s = s := Text.dropEndWhile_of_last fun c hc => (hlast c hc).1
  have hquote : s.dropWhile (· = '\"') = s := hstart _ fun c hc => by simpa using (hfirst c hc).2
  have hend : Text.dropEndWhile (· = '\"') s = s :=
    Text.dropEndWhile_of_last fun c hc => by simpa using (hlast c hc).2
  simp only [headerPath?, htake, Text.trimBoth, hleft, hright, hquote, hend]

/-- The path of a side is read back, and the null device is none. -/
theorem headerPath?_sideChars {letter : Char} (hletter : letter = 'a' ∨ letter = 'b')
    (path : Option HeaderPath) :
    headerPath? (sideChars letter path) = path.map fun path => String.ofList path.text := by
  cases path with
  | none => rfl
  | some path =>
    have htab : '\t' ∉ sideChars letter (some path) := by
      intro hmem
      rcases List.mem_cons.1 hmem with heq | hmem
      · simp [← heq] at hletter
      rcases List.mem_cons.1 hmem with heq | hmem
      · exact absurd heq (by decide)
      · exact path.no_tab hmem
    have hfirst : ∀ c ∈ (sideChars letter (some path)).head?,
        Text.isBlank c = false ∧ c ≠ '\"' := by
      rintro c ⟨⟩
      rcases hletter with rfl | rfl <;> decide
    have hnull : sideChars letter (some path) ≠ "/dev/null".toList := by
      intro heq
      rcases hletter with rfl | rfl <;> cases heq
    rw [headerPath?_of_ends htab hfirst (last_sideChars letter _), if_neg hnull]
    rcases hletter with rfl | rfl <;> rfl

/-- The line of a path ends in no carriage return. -/
theorem withoutReturn_sideChars (letter : Char) (path : Option HeaderPath) :
    Text.withoutReturn (sideChars letter path) = sideChars letter path := by
  refine Text.withoutReturn_of_last fun hlast => ?_
  have hblank := (last_sideChars letter path _ hlast).1
  revert hblank
  decide

theorem WrittenFile.headerPath?_oldSide (f : WrittenFile) :
    headerPath? f.oldSide = f.patch.oldPath :=
  headerPath?_sideChars (by cases f.swapped <;> decide) f.oldPath

theorem WrittenFile.headerPath?_newSide (f : WrittenFile) :
    headerPath? f.newSide = f.patch.newPath :=
  headerPath?_sideChars (by cases f.swapped <;> decide) f.newPath

theorem WrittenFile.withoutReturn_oldLine (f : WrittenFile) :
    Text.withoutReturn f.oldLine = f.oldLine := by
  rw [oldLine, Text.withoutReturn_append (by decide), oldSide, withoutReturn_sideChars]

theorem WrittenFile.withoutReturn_newLine (f : WrittenFile) :
    Text.withoutReturn f.newLine = f.newLine := by
  rw [newLine, Text.withoutReturn_append (by decide), newSide, withoutReturn_sideChars]

/-! ## Lines -/

theorem BodyLine.no_feed (line : BodyLine) : '\n' ∉ line.chars := by
  cases line with
  | blank => simp [BodyLine.chars]
  | context text | added text | deleted text | remark text =>
    simpa [BodyLine.chars] using text.property

theorem WrittenHunk.no_feed (w : WrittenHunk) : ∀ line ∈ w.lines, '\n' ∉ line := by
  intro line hline
  rcases List.mem_cons.1 hline with rfl | hline
  · rw [List.mem_append, not_or]
    exact ⟨w.not_mem_rangesChars rfl (by decide), w.heading.property⟩
  · obtain ⟨l, -, rfl⟩ := List.mem_map.1 hline
    exact l.no_feed

theorem not_mem_sideChars {letter : Char} (hletter : letter ≠ '\n') (path : Option HeaderPath) :
    '\n' ∉ sideChars letter path := by
  cases path with
  | none =>
    change '\n' ∉ "/dev/null".toList
    decide
  | some path =>
    intro hmem
    rcases List.mem_cons.1 hmem with heq | hmem
    · exact hletter heq.symm
    rcases List.mem_cons.1 hmem with heq | hmem
    · exact absurd heq (by decide)
    · exact path.no_feed hmem

theorem WrittenFile.no_feed (f : WrittenFile) : ∀ line ∈ f.lines, '\n' ∉ line := by
  intro line hline
  simp only [lines, gitLine, List.mem_append, List.mem_cons, List.mem_map, List.mem_flatMap]
    at hline
  rcases hline with ⟨rest, -, rfl⟩ | ⟨l, -, rfl⟩ | rfl | rfl | ⟨w, -, hline⟩
  · rw [List.mem_append, not_or]
    exact ⟨by decide, rest.property⟩
  · exact l.property
  · rw [oldLine, List.mem_append, not_or]
    exact ⟨by decide, not_mem_sideChars (by cases f.swapped <;> decide) _⟩
  · rw [newLine, List.mem_append, not_or]
    exact ⟨by decide, not_mem_sideChars (by cases f.swapped <;> decide) _⟩
  · exact w.no_feed line hline

/-! ## Numbers -/

theorem sideNumbers_cons (side marked : BodyLine → Bool) (start : Nat) (line : BodyLine)
    (rest : List BodyLine) :
    sideNumbers side marked start (line :: rest) =
      if side line then
        if marked line then start :: sideNumbers side marked (start + 1) rest
        else sideNumbers side marked (start + 1) rest
      else sideNumbers side marked start rest := by
  unfold sideNumbers
  by_cases hside : side line = true
  · by_cases hmarked : marked line = true
    · simp [hside, hmarked]
    · simp [hside, hmarked]
  · simp [hside]

/-- Lines of a body are numbered within its counts. -/
theorem sideNumbers_lt {side marked : BodyLine → Bool} {start k : Nat} {body : List BodyLine}
    (h : k ∈ sideNumbers side marked start body) : k < start + body.countP side := by
  simp only [sideNumbers, List.mem_map, List.mem_filter, Prod.exists] at h
  obtain ⟨line, k, ⟨hmem, -⟩, rfl⟩ := h
  have hlt := List.snd_lt_add_of_mem_zipIdx hmem
  rw [List.countP_eq_length_filter]
  simpa [Nat.add_comm] using hlt

/-- Numbers that fit are the same in 64 bits. -/
theorem toNat_sideNumbers {side marked : BodyLine → Bool} {start : Nat} {body : List BodyLine}
    (h : start + body.countP side ≤ UInt64.size) :
    ((sideNumbers side marked start body).map UInt64.ofNat).map UInt64.toNat =
      sideNumbers side marked start body := by
  have hsame : ∀ k ∈ sideNumbers side marked start body, (UInt64.ofNat k).toNat = k := by
    intro k hk
    have hlt : k < UInt64.size := Nat.lt_of_lt_of_le (sideNumbers_lt hk) h
    rw [UInt64.toNat_ofNat', Nat.mod_eq_of_lt hlt]
  calc ((sideNumbers side marked start body).map UInt64.ofNat).map UInt64.toNat
      = (sideNumbers side marked start body).map fun k => (UInt64.ofNat k).toNat := List.map_map
    _ = (sideNumbers side marked start body).map fun k => k := List.map_congr_left hsame
    _ = sideNumbers side marked start body := List.map_id' _

theorem WrittenHunk.toNat_added (w : WrittenHunk) :
    w.hunk.added.map UInt64.toNat = w.addedNumbers :=
  toNat_sideNumbers (w.newCount_eq ▸ w.new_fits)

theorem WrittenHunk.toNat_deleted (w : WrittenHunk) :
    w.hunk.deleted.map UInt64.toNat = w.deletedNumbers :=
  toNat_sideNumbers (w.oldCount_eq ▸ w.old_fits)

end CodeImpact.Patch
