import CodeImpact.Proofs.Classification
import CodeImpact.Proofs.HunksKept

/-!
# Numbers of lines

A changed line has the number of its side's start plus the lines of that side before it in the body.
Reading counts in words of 64 bits, so every number is taken modulo the size of a word: all of them,
the end of the old lines and the test for overlaps are exact as long as the numbers fit, and a hunk
whose old lines reach beyond does not even overlap the line it starts at.
-/

namespace CodeImpact

/-! ## Ranges -/

/-- The test for overlaps finds the ranges that share a line with the old ones. -/
def Hunk.TestsOverlap (h : Hunk) : Prop :=
  ∀ first last : Nat, first ≤ last → (h.overlapsOld first last = true ↔
    ∃ n, (h.oldStart.toNat ≤ n ∧ n ≤ h.lastOld) ∧ first ≤ n ∧ n ≤ last)

theorem Hunk.testsOverlap_iff (h : Hunk) : h.TestsOverlap ↔ h.lastOld < UInt64.size := by
  have hcount : h.oldCount.toNat < UInt64.size := h.oldCount.toNat_lt_size
  have hstart : h.oldStart.toNat < UInt64.size := h.oldStart.toNat_lt_size
  constructor
  · -- beyond the size of a word the end comes before the start, and the start itself is missed
    intro htest
    by_contra hlarge
    have hmeets := (htest h.oldStart.toNat h.oldStart.toNat le_rfl).2
      ⟨h.oldStart.toNat, ⟨le_rfl, by unfold lastOld; omega⟩, le_rfl, le_rfl⟩
    rw [overlapsOld, Bool.and_eq_true, decide_eq_true_iff, decide_eq_true_iff,
      toNat_oldEnd_eq_mod] at hmeets
    have hwrapped : h.lastOld % UInt64.size = h.lastOld - UInt64.size := by
      rw [Nat.mod_eq_sub_mod (by omega), Nat.mod_eq_of_lt]
      unfold lastOld at hlarge ⊢
      omega
    unfold lastOld at *
    omega
  · intro hfits first last hle
    rw [overlapsOld, Bool.and_eq_true, decide_eq_true_iff, decide_eq_true_iff, toNat_oldEnd hfits]
    constructor
    · intro hmeets
      refine ⟨max h.oldStart.toNat first, ?_⟩
      unfold lastOld at *
      omega
    · rintro ⟨n, hn⟩
      omega

namespace Patch

/-! ## Bodies -/

/-- The lines at the start that belong to a body of `old` and `new` lines. -/
def bodyOf (old new : Nat) : List (List Char) → List (List Char)
  | [] => []
  | line :: rest =>
    if old = 0 ∧ new = 0 then []
    else line :: bodyOf (leftAfter onOldSide old line) (leftAfter onNewSide new line) rest

/-- The hunk headers outside bodies that can be read, each with its body, after a body of `old` and
`new` lines. -/
def headed (old new : Nat) : List (List Char) → List (Hunk × List (List Char))
  | [] => []
  | line :: rest =>
    if old = 0 ∧ new = 0 then
      (header? line).toList.map (fun h => (h, bodyOf h.oldCount.toNat h.newCount.toNat rest)) ++
        headed (announced Hunk.oldCount line) (announced Hunk.newCount line) rest
    else headed (leftAfter onOldSide old line) (leftAfter onNewSide new line) rest

/-- The numbers of the marked lines of a body: each comes after the lines of its side before it. -/
def numbers (side : List Char → Bool) (mark : Char) (start : Nat) (body : List (List Char)) :
    List Nat :=
  (List.range body.length).filterMap fun i =>
    if body[i]?.bind List.head? = some mark then some (start + (body.take i).countP side) else none

def addedNumbers (h : Hunk) (body : List (List Char)) : List Nat :=
  numbers onNewSide '+' h.newStart.toNat body

def deletedNumbers (h : Hunk) (body : List (List Char)) : List Nat :=
  numbers onOldSide '-' h.oldStart.toNat body

/-- A hunk with the numbers of its changed lines, as words. -/
def fill (h : Hunk) (body : List (List Char)) : Hunk :=
  { h with
    added := (addedNumbers h body).map UInt64.ofNat
    deleted := (deletedNumbers h body).map UInt64.ofNat }

theorem bodyOf_zero (ls : List (List Char)) : bodyOf 0 0 ls = [] := by
  cases ls <;> rfl

theorem numbers_cons (side : List Char → Bool) (mark : Char) (start : Nat) (line : List Char)
    (body : List (List Char)) :
    numbers side mark start (line :: body) =
      (if line.head? = some mark then [start] else []) ++
        numbers side mark (if side line then start + 1 else start) body := by
  have hcount : ∀ i, start + ((line :: body).take (i + 1)).countP side =
      (if side line then start + 1 else start) + (body.take i).countP side := by
    intro i
    rw [List.take_succ_cons, List.countP_cons]
    split <;> omega
  have hlater : ∀ i, (if (line :: body)[i + 1]?.bind List.head? = some mark then
      some (start + ((line :: body).take (i + 1)).countP side) else none) =
      if body[i]?.bind List.head? = some mark then
        some ((if side line then start + 1 else start) + (body.take i).countP side) else none := by
    intro i
    rw [hcount, List.getElem?_cons_succ]
  simp only [numbers, List.length_cons, List.range_succ_eq_map, List.filterMap_cons,
    List.filterMap_map, Function.comp_def, hlater]
  by_cases hmark : line.head? = some mark <;> simp [hmark]

/-- Words are exact as long as the numbers fit. -/
theorem map_toNat_map_ofNat_iff (ns : List Nat) :
    (ns.map UInt64.ofNat).map UInt64.toNat = ns ↔ ∀ n ∈ ns, n < UInt64.size := by
  induction ns with
  | nil => simp
  | cons n ns ih =>
    have hword : (UInt64.ofNat n).toNat = n ↔ n < UInt64.size := by
      rw [UInt64.toNat_ofNat']
      exact Nat.mod_eq_iff_lt (by decide)
    rw [List.map_cons, List.map_cons, List.cons.injEq, ih, hword, List.forall_mem_cons]

namespace OpenHunk

/-- Reads the lines of a body. -/
def addLines (o : OpenHunk) (body : List (List Char)) : OpenHunk :=
  body.foldl addLine o

/-- A run over a body notes the numbers of its marked lines, modulo 64 bits. -/
theorem hunk_addLines {o : OpenHunk} {old new : Nat} (hold : o.oldLine = UInt64.ofNat old)
    (hnew : o.newLine = UInt64.ofNat new) (body : List (List Char)) :
    (o.addLines body).hunk =
      { o.hunk with
        added := o.hunk.added ++ (numbers onNewSide '+' new body).map UInt64.ofNat
        deleted := o.hunk.deleted ++ (numbers onOldSide '-' old body).map UInt64.ofNat } := by
  induction body generalizing o old new with
  | nil => simp [addLines, numbers]
  | cons line body ih =>
    have hcounted : ∀ (side : List Char → Bool) {next : UInt64} {n : Nat}, next = UInt64.ofNat n →
        (if side line then next + 1 else next) =
          UInt64.ofNat (if side line then n + 1 else n) := by
      intro side next n hnext
      rw [hnext]
      split
      · exact (UInt64.ofNat_add n 1).symm
      · rfl
    have hnextOld : (o.addLine line).oldLine =
        UInt64.ofNat (if onOldSide line then old + 1 else old) := by
      rw [addLine_eq]
      exact hcounted onOldSide hold
    have hnextNew : (o.addLine line).newLine =
        UInt64.ofNat (if onNewSide line then new + 1 else new) := by
      rw [addLine_eq]
      exact hcounted onNewSide hnew
    have hrest := ih hnextOld hnextNew
    rw [addLines] at hrest ⊢
    rw [List.foldl_cons, hrest, addLine_eq, numbers_cons, numbers_cons, hold, hnew]
    simp only [List.map_append, apply_ite (List.map UInt64.ofNat), List.map_cons, List.map_nil,
      List.append_assoc]

/-- A header and its body make the hunk with its changed lines. -/
theorem hunk_addLines_ofHeader {line : List Char} {h : Hunk} (hread : header? line = some h)
    (body : List (List Char)) : ((OpenHunk.ofHeader h).addLines body).hunk = fill h body := by
  have hranges := ranges_of_header? hread
  have hadded : h.added = [] := congrArg Hunk.added hranges.symm
  have hdeleted : h.deleted = [] := congrArg Hunk.deleted hranges.symm
  have hold : (OpenHunk.ofHeader h).oldLine = UInt64.ofNat h.oldStart.toNat :=
    UInt64.ofNat_toNat.symm
  have hnew : (OpenHunk.ofHeader h).newLine = UInt64.ofNat h.newStart.toNat :=
    UInt64.ofNat_toNat.symm
  rw [hunk_addLines hold hnew]
  simp only [ofHeader, hadded, hdeleted, List.nil_append]
  rfl

end OpenHunk

namespace Reading

variable {r : Reading}

/-- The hunks that are not open any more. -/
def closed (r : Reading) : List Hunk :=
  (r.files ++ r.current.toList).flatMap (·.hunks)

theorem hunks_eq (r : Reading) : r.hunks = r.closed ++ r.hunk.toList.map (·.hunk) :=
  rfl

/-- A header that is read gets the body behind it, and any other line leaves the hunks alone. -/
theorem HeaderStep.hunks_headed {q : Reading} {number : Nat} {line : List Char}
    (h : HeaderStep r q number line) (ls : List (List Char)) :
    q.closed ++
        q.hunk.toList.map (fun o => (o.addLines
          (bodyOf (announced Hunk.oldCount line) (announced Hunk.newCount line) ls)).hunk) ++
        (headed (announced Hunk.oldCount line) (announced Hunk.newCount line) ls).map
          (fun s => fill s.1 s.2) =
      r.hunks ++
        ((header? line).toList.map
            (fun o => (o, bodyOf o.oldCount.toNat o.newCount.toNat ls)) ++
          headed (announced Hunk.oldCount line) (announced Hunk.newCount line) ls).map
            (fun s => fill s.1 s.2) := by
  have hhunks := h.hunks
  cases hread : header? line with
  | none =>
    have hzero : announced Hunk.oldCount line = 0 ∧ announced Hunk.newCount line = 0 := by
      simp [announced, hread]
    rw [hread, Option.toList_none, List.append_nil] at hhunks
    rw [hzero.1, hzero.2, bodyOf_zero, ← hhunks, hunks_eq]
    simp [OpenHunk.addLines]
  | some o =>
    have hopened := h.opened o hread
    have hclosed : q.closed = r.hunks := by
      rw [hunks_eq, hopened, hread] at hhunks
      exact List.append_cancel_right hhunks
    have hold : announced Hunk.oldCount line = o.oldCount.toNat := by simp [announced, hread]
    have hnew : announced Hunk.newCount line = o.newCount.toNat := by simp [announced, hread]
    rw [hclosed, hopened, hold, hnew]
    simp [OpenHunk.hunk_addLines_ofHeader hread]

/-- The rest of a body goes to the open hunk, and each header outside bodies gets its own. -/
theorem hunks_readLines (r : Reading) (number : Nat) (ls : List (List Char)) :
    (r.readLines number ls).hunks =
      r.closed ++
        r.hunk.toList.map (fun o =>
          (o.addLines (bodyOf (r.left OpenHunk.oldLeft) (r.left OpenHunk.newLeft) ls)).hunk) ++
        (headed (r.left OpenHunk.oldLeft) (r.left OpenHunk.newLeft) ls).map
          (fun s => fill s.1 s.2) := by
  induction ls generalizing r number with
  | nil => simp [readLines, headed, bodyOf, hunks_eq, OpenHunk.addLines]
  | cons line ls ih =>
    have hrest := ih (r.readLine number line) (number + 1)
    rw [readLines, headed, bodyOf, hrest]
    obtain ⟨hidle, hread⟩ | ⟨hidle, o, ho, -, hread⟩ := readLine_cases r number line
    · -- the body of the open hunk has ended, so the hunk gets no more lines
      have hstep := headerStep r number line
      rw [idle_iff] at hidle
      have hclosed : r.closed ++ r.hunk.toList.map (fun o => (o.addLines []).hunk) = r.hunks := rfl
      rw [hread, hstep.left hidle.1 fun _ => rfl, hstep.left hidle.2 fun _ => rfl, if_pos hidle,
        if_pos hidle, hclosed]
      exact hstep.hunks_headed ls
    · obtain ⟨hold, hnew⟩ := left_addLine ho line
      rw [idle_iff] at hidle
      rw [hread, hold, hnew, if_neg hidle, if_neg hidle]
      simp [ho, closed, OpenHunk.addLines]

end Reading

/-- The readable headers of a diff outside bodies, each with its body. -/
def sections (text : String) : List (Hunk × List (List Char)) :=
  headed 0 0 (Text.lines text.toList)

/-- Each hunk of a text is its header with the numbers of its body. -/
theorem hunks_ofText (text : String) :
    (ofText text).files.flatMap (·.hunks) = (sections text).map fun s => fill s.1 s.2 := by
  rw [ofText, Reading.hunks_finish, Reading.hunks_readLines]
  rfl

/-- The hunks of a diff are its headers with the numbers of their changed lines modulo the size of a
word, and so is the end of their old lines. The numbers are exact if and only if they fit in a word,
and the test for overlaps is exact if and only if the end of the old lines does. -/
theorem line_numbers_of_text (text : String) :
    (ofText text).files.flatMap (·.hunks) = (sections text).map (fun s => fill s.1 s.2) ∧
    (∀ s ∈ sections text,
      ((fill s.1 s.2).added.map UInt64.toNat = addedNumbers s.1 s.2 ↔
        ∀ n ∈ addedNumbers s.1 s.2, n < UInt64.size) ∧
      ((fill s.1 s.2).deleted.map UInt64.toNat = deletedNumbers s.1 s.2 ↔
        ∀ n ∈ deletedNumbers s.1 s.2, n < UInt64.size)) ∧
    ∀ f ∈ (ofText text).files, ∀ h ∈ f.hunks,
      h.oldEnd.toNat = h.lastOld % UInt64.size ∧
      (h.TestsOverlap ↔ h.lastOld < UInt64.size) :=
  ⟨hunks_ofText text,
    fun _ _ => ⟨map_toNat_map_ofNat_iff _, map_toNat_map_ofNat_iff _⟩,
    fun _ _ h _ => ⟨h.toNat_oldEnd_eq_mod, h.testsOverlap_iff⟩⟩

/-- A hunk with a line that stays, a deleted one and two that are added. -/
def editedLines : String :=
  "--- a/x\n+++ b/x\n@@ -3,2 +3,3 @@\n a\n-b\n+c\n+d\n"

theorem editedLines_numbered :
    (ofText editedLines).files.flatMap (·.hunks) = [⟨3, 2, 3, 3, [4, 5], [4]⟩] ∧
      (∀ s ∈ sections editedLines,
        (fill s.1 s.2).added.map UInt64.toNat = addedNumbers s.1 s.2) ∧
      ∀ f ∈ (ofText editedLines).files, ∀ h ∈ f.hunks, h.TestsOverlap := by
  obtain ⟨hhunks, hnumbers, hranges⟩ := line_numbers_of_text editedLines
  have hadded : ∀ s ∈ sections editedLines, ∀ n ∈ addedNumbers s.1 s.2, n < UInt64.size := by
    decide
  have hfits : ∀ f ∈ (ofText editedLines).files, ∀ h ∈ f.hunks, h.lastOld < UInt64.size := by
    decide
  refine ⟨hhunks.trans (by decide), fun s hs => ?_, fun f hf h hh => ?_⟩
  · exact (hnumbers s hs).1.2 (hadded s hs)
  · exact (hranges f hf h hh).2.2 (hfits f hf h hh)

/-- A hunk that starts at the last line with a number. -/
def lastLines : String :=
  "--- a/x\n+++ b/x\n@@ -18446744073709551615,2 +1 @@\n-a\n-b\n"

/-- The second deleted line and the end of the old lines get the number zero, and the hunk does not
overlap the line it starts at. -/
theorem lastLines_wrapped :
    (ofText lastLines).files.flatMap (·.hunks) =
      [⟨18446744073709551615, 2, 1, 1, [], [18446744073709551615, 0]⟩] ∧
    (sections lastLines).map (fun s => deletedNumbers s.1 s.2) =
      [[18446744073709551615, 18446744073709551616]] ∧
    ∀ f ∈ (ofText lastLines).files, ∀ h ∈ f.hunks,
      h.lastOld = 18446744073709551616 ∧ h.oldEnd = 0 ∧
        h.overlapsOld 18446744073709551615 18446744073709551615 = false := by
  decide

end Patch

end CodeImpact
