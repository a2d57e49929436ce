import CodeImpact.Proofs.HunkHeaders
import CodeImpact.Proofs.RejectedHunks

/-!
# No hunk is lost

The hunks of a diff that is read are its hunk headers outside bodies, in order, whatever stands
around them; headers that cannot be read are its errors. Where the body of a hunk ends is said by
the counts of its header alone. The numbers of a hunk are those that its header writes, unless a
count that is no number of 64 bits is taken for one. As long as the counters of lines do not
overflow, the changed lines of a hunk have increasing numbers.
-/

namespace CodeImpact

/-- A hunk without its changed lines. -/
def Hunk.ranges (h : Hunk) : Hunk :=
  { h with added := [], deleted := [] }

/-- Increasing numbers, none below the first one. -/
structure NumbersFrom (first : UInt64) (numbers : List UInt64) : Prop where
  increasing : numbers.Pairwise (· < ·)
  first_le : ∀ k ∈ numbers, first ≤ k

/-- The changed lines of each side have increasing numbers, none before the start of the side. -/
structure Hunk.InOrder (h : Hunk) : Prop where
  added : NumbersFrom h.newStart h.added
  deleted : NumbersFrom h.oldStart h.deleted

namespace Patch

/-! ## Lines outside bodies -/

/-- Whether a line of a body is one of the old file. -/
def onOldSide (line : List Char) : Bool :=
  line.head? ≠ some '+' && line.head? ≠ some '\\'

/-- Whether a line of a body is one of the new file. -/
def onNewSide (line : List Char) : Bool :=
  line.head? ≠ some '-' && line.head? ≠ some '\\'

/-- How many lines of a side are left after a line. -/
def leftAfter (side : List Char → Bool) (left : Nat) (line : List Char) : Nat :=
  if side line then left - 1 else left

/-- How many lines of a side a header announces. -/
def announced (count : Hunk → UInt64) (line : List Char) : Nat :=
  ((header? line).map fun h => (count h).toNat).getD 0

/-- What lines hold outside bodies, if the first one has this number and a body of `old` and `new`
lines is open before it: the hunks that headers stand for, and the other lines that start like a
header. -/
inductive Scan (stands : HeaderText → Hunk → Prop) :
    (number old new : Nat) → List (List Char) → List Hunk → List PatchError → Prop
  | done {number old new : Nat} : Scan stands number old new [] [] []
  | body {number old new : Nat} {line : List Char} {rest : List (List Char)} {hunks : List Hunk}
      {errors : List PatchError} (hopen : ¬ (old = 0 ∧ new = 0))
      (hrest : Scan stands (number + 1) (leftAfter onOldSide old line)
        (leftAfter onNewSide new line) rest hunks errors) :
      Scan stands number old new (line :: rest) hunks errors
  | header {number : Nat} {line : List Char} {rest : List (List Char)} {hunks : List Hunk}
      {errors : List PatchError} {t : HeaderText} {h : Hunk} (hline : line = t.chars)
      (hstands : stands t h)
      (hrest : Scan stands (number + 1) h.oldCount.toNat h.newCount.toNat rest hunks errors) :
      Scan stands number 0 0 (line :: rest) (h :: hunks) errors
  | rejected {number : Nat} {line : List Char} {rest : List (List Char)} {hunks : List Hunk}
      {errors : List PatchError} (hlead : "@@".toList <+: line)
      (hnone : ∀ t h, line = HeaderText.chars t → ¬ stands t h)
      (hrest : Scan stands (number + 1) 0 0 rest hunks errors) :
      Scan stands number 0 0 (line :: rest) hunks (⟨number, String.ofList line⟩ :: errors)
  | other {number : Nat} {line : List Char} {rest : List (List Char)} {hunks : List Hunk}
      {errors : List PatchError} (hlead : ¬ "@@".toList <+: line)
      (hrest : Scan stands (number + 1) 0 0 rest hunks errors) :
      Scan stands number 0 0 (line :: rest) hunks errors

theorem HeaderText.lead_chars (t : HeaderText) : "@@".toList <+: t.chars :=
  ⟨_, rfl⟩

namespace Scan

variable {stands : HeaderText → Hunk → Prop} {number old new : Nat} {ls : List (List Char)}
  {hunks : List Hunk} {errors : List PatchError}

/-- Every diff holds something. -/
theorem total (stands : HeaderText → Hunk → Prop) (number old new : Nat)
    (ls : List (List Char)) : ∃ hunks errors, Scan stands number old new ls hunks errors := by
  induction ls generalizing number old new with
  | nil => exact ⟨[], [], .done⟩
  | cons line ls ih =>
    by_cases hopen : old = 0 ∧ new = 0
    · obtain ⟨rfl, rfl⟩ := hopen
      by_cases hheader : ∃ t h, line = HeaderText.chars t ∧ stands t h
      · obtain ⟨t, h, hline, hstands⟩ := hheader
        obtain ⟨hunks, errors, hrest⟩ := ih (number + 1) h.oldCount.toNat h.newCount.toNat
        exact ⟨_, _, .header hline hstands hrest⟩
      · obtain ⟨hunks, errors, hrest⟩ := ih (number + 1) 0 0
        by_cases hlead : "@@".toList <+: line
        · exact ⟨_, _, .rejected hlead (fun t h hline hstands => hheader ⟨t, h, hline, hstands⟩) hrest⟩
        · exact ⟨_, _, .other hlead hrest⟩
    · obtain ⟨hunks, errors, hrest⟩ := ih (number + 1) (leftAfter onOldSide old line)
        (leftAfter onNewSide new line)
      exact ⟨_, _, .body hopen hrest⟩

/-- If a line stands for one hunk at most, a diff holds one thing only. -/
theorem unique {hunks' : List Hunk} {errors' : List PatchError}
    (hone : ∀ t u h k, HeaderText.chars t = HeaderText.chars u → stands t h → stands u k → h = k)
    (hscan : Scan stands number old new ls hunks errors)
    (hother : Scan stands number old new ls hunks' errors') :
    hunks = hunks' ∧ errors = errors' := by
  induction hscan generalizing hunks' errors' with
  | done =>
    cases hother
    exact ⟨rfl, rfl⟩
  | body hopen _ ih =>
    cases hother with
    | body _ hrest => exact ih hrest
    | header => exact absurd ⟨rfl, rfl⟩ hopen
    | rejected => exact absurd ⟨rfl, rfl⟩ hopen
    | other => exact absurd ⟨rfl, rfl⟩ hopen
  | header hline hstands _ ih =>
    cases hother with
    | body hopen => exact absurd ⟨rfl, rfl⟩ hopen
    | header hline' hstands' hrest =>
      obtain rfl := hone _ _ _ _ (hline.symm.trans hline') hstands hstands'
      obtain ⟨rfl, rfl⟩ := ih hrest
      exact ⟨rfl, rfl⟩
    | rejected _ hnone => exact absurd hstands (hnone _ _ hline)
    | other hlead => exact absurd (hline ▸ HeaderText.lead_chars _) hlead
  | rejected hlead hnone _ ih =>
    cases hother with
    | body hopen => exact absurd ⟨rfl, rfl⟩ hopen
    | header hline hstands => exact absurd hstands (hnone _ _ hline)
    | rejected _ _ hrest =>
      obtain ⟨rfl, rfl⟩ := ih hrest
      exact ⟨rfl, rfl⟩
    | other hother => exact absurd hlead hother
  | other hlead _ ih =>
    cases hother with
    | body hopen => exact absurd ⟨rfl, rfl⟩ hopen
    | header hline => exact absurd (hline ▸ HeaderText.lead_chars _) hlead
    | rejected hother => exact absurd hother hlead
    | other _ hrest => exact ih hrest

/-- What is announced is what is read if all headers that are rejected have counts that fit. -/
theorem readAs (hscan : Scan HeaderText.Announces number old new ls hunks errors)
    (hfits : ∀ e ∈ errors, ∀ t : HeaderText, e.header.toList = t.chars → t.Fits) :
    Scan HeaderText.ReadAs number old new ls hunks errors := by
  induction hscan with
  | done => exact .done
  | body hopen _ ih => exact .body hopen (ih hfits)
  | header hline hannounces _ ih => exact .header hline hannounces.readAs (ih hfits)
  | @rejected _ line _ _ _ hlead hnone _ ih =>
    obtain ⟨hfirst, hrest⟩ := List.forall_mem_cons.1 hfits
    refine .rejected hlead (fun t h hline hread => hnone t h hline ?_) (ih hrest)
    exact (HeaderText.readAs_iff_announces (hfirst t (by simpa using hline)) h).1 hread
  | other hlead _ ih => exact .other hlead (ih hfits)

end Scan

/-- A line that starts like a hunk header and is none. -/
def Rejected (line : List Char) : Prop :=
  "@@".toList <+: line ∧ header? line = none

instance : DecidablePred Rejected := fun _ => inferInstanceAs (Decidable (_ ∧ _))

theorem not_rejected_of_header? {line : List Char} {h : Hunk} (hread : header? line = some h) :
    ¬ Rejected line := by
  rintro ⟨-, hnone⟩
  rw [hread] at hnone
  cases hnone

theorem range_of_header? {line : List Char} {h : Hunk} (hread : header? line = some h) :
    "@@".toList <+: line := by
  obtain ⟨t, rfl⟩ := HeaderText.exists_chars hread
  exact ⟨_, rfl⟩

theorem header?_of_not_range {line : List Char} (h : ¬ "@@".toList <+: line) :
    header? line = none :=
  Option.eq_none_iff_forall_ne_some.2 fun _ hread => h (range_of_header? hread)

/-- A header announces no changed lines. -/
theorem ranges_of_header? {line : List Char} {h : Hunk} (hread : header? line = some h) :
    h.ranges = h := by
  obtain ⟨t, rfl⟩ := HeaderText.exists_chars hread
  obtain ⟨-, -, hadded, hdeleted⟩ := (t.header?_chars_iff h).1 hread
  cases h
  cases hadded
  cases hdeleted
  rfl

/-! ## Lines of bodies -/

namespace OpenHunk

/-- What a line of a body does, by the sides it is on. -/
theorem addLine_eq (o : OpenHunk) (line : List Char) :
    o.addLine line =
      { hunk :=
          { o.hunk with
            added := o.hunk.added ++ if line.head? = some '+' then [o.newLine] else []
            deleted := o.hunk.deleted ++ if line.head? = some '-' then [o.oldLine] else [] }
        oldLeft := if onOldSide line then less o.oldLeft else o.oldLeft
        newLeft := if onNewSide line then less o.newLeft else o.newLeft
        oldLine := if onOldSide line then o.oldLine + 1 else o.oldLine
        newLine := if onNewSide line then o.newLine + 1 else o.newLine } := by
  unfold addLine
  split
  · simp [onOldSide, onNewSide]
  · simp [onOldSide, onNewSide]
  · simp [onOldSide, onNewSide]
  next hplus hminus hremark =>
    cases line with
    | nil => simp [onOldSide, onNewSide]
    | cons c rest =>
      have hadded : c ≠ '+' := fun h => hplus rest (h ▸ rfl)
      have hdeleted : c ≠ '-' := fun h => hminus rest (h ▸ rfl)
      have hother : c ≠ '\\' := fun h => hremark rest (h ▸ rfl)
      simp [onOldSide, onNewSide, hadded, hdeleted, hother]

theorem ranges_addLine (o : OpenHunk) (line : List Char) :
    (o.addLine line).hunk.ranges = o.hunk.ranges := by
  rw [addLine_eq]
  rfl

/-- The counters of a body count down in the natural numbers. -/
theorem toNat_leftAfter (side : List Char → Bool) (left : UInt64) (line : List Char) :
    (if side line then less left else left).toNat = leftAfter side left.toNat line := by
  unfold leftAfter
  split
  · exact toNat_less left
  · rfl

theorem inBody_iff (o : OpenHunk) :
    o.inBody = true ↔ ¬ (o.oldLeft.toNat = 0 ∧ o.newLeft.toNat = 0) := by
  have hzero : ∀ n : UInt64, n.toNat = 0 ↔ n = 0 := fun n => UInt64.toNat_inj (b := 0)
  rw [hzero, hzero, Classical.not_and_iff_not_or_not]
  simp [inBody]

end OpenHunk

namespace Reading

variable {r q : Reading}

/-- How many lines of a side are to come in the body that is open. -/
def left (side : OpenHunk → UInt64) (r : Reading) : Nat :=
  (r.hunk.map fun o => (side o).toNat).getD 0

/-- The hunks of all files so far, and the open one. -/
def hunks (r : Reading) : List Hunk :=
  (r.files ++ r.current.toList).flatMap (·.hunks) ++ r.hunk.toList.map (·.hunk)

/-! ## What a header does -/

@[simp] theorem hunks_closeHunk (r : Reading) : r.closeHunk.hunks = r.hunks := by
  unfold closeHunk hunks
  cases ho : r.hunk with
  | none => simp [ho]
  | some o => cases r.current <;> simp

@[simp] theorem hunks_closeFile (r : Reading) : r.closeFile.hunks = r.hunks := by
  simp [closeFile, hunks]

theorem hunks_openGit (r : Reading) (rest : List Char) : (r.openGit rest).hunks = r.hunks := by
  have hclosed : (r.openGit rest).hunks = r.closeHunk.closeFile.hunks := by
    simp [openGit, hunks, closeFile]
  rw [hclosed, hunks_closeFile, hunks_closeHunk]

theorem hunks_setOld (r : Reading) (rest : List Char) : (r.setOld rest).hunks = r.hunks := by
  rw [← hunks_closeHunk r]
  unfold setOld
  dsimp only
  split
  · rw [← hunks_closeFile r.closeHunk]
    simp [hunks, closeFile]
  · cases hc : r.closeHunk.current <;> simp [hunks, hc]

theorem hunks_setNew (r : Reading) (rest : List Char) : (r.setNew rest).hunks = r.hunks := by
  unfold setNew hunks
  cases r.current <;> simp

/-- A line like a header adds the hunk that it is read as, if it is read. -/
theorem hunks_openHunk (r : Reading) (n : Nat) (line : List Char) :
    (r.openHunk n line).hunks = r.hunks ++ (header? line).toList := by
  rw [← hunks_closeHunk r]
  unfold openHunk
  cases header? line <;> simp [hunks, OpenHunk.ofHeader]

/-- What reading a line outside bodies does to the hunks and errors. -/
structure HeaderStep (r q : Reading) (number : Nat) (line : List Char) : Prop where
  hunks : q.hunks = r.hunks ++ (header? line).toList
  errors : q.errors = r.errors ++ if Rejected line then [⟨number, String.ofList line⟩] else []
  opened : ∀ h, header? line = some h → q.hunk = some (.ofHeader h)
  unopened : header? line = none → q.hunk = none ∨ q.hunk = r.hunk

variable {number : Nat} {line : List Char}

/-- A line that is not like a hunk header moves hunks at most. -/
theorem headerStep_of_not_range (h : ¬ "@@".toList <+: line) (hhunks : q.hunks = r.hunks)
    (herrors : q.errors = r.errors) (hhunk : q.hunk = none ∨ q.hunk = r.hunk) :
    HeaderStep r q number line := by
  have hnone := header?_of_not_range h
  have hrejected : ¬ Rejected line := fun hrejected => h hrejected.1
  refine ⟨?_, ?_, ?_, fun _ => hhunk⟩
  · rw [hhunks, hnone, Option.toList_none, List.append_nil]
  · rw [herrors, if_neg hrejected, List.append_nil]
  · intro o ho
    rw [hnone] at ho
    cases ho

theorem headerStep_openHunk (r : Reading) (number : Nat) (h : "@@".toList <+: line) :
    HeaderStep r (r.openHunk number line) number line where
  hunks := hunks_openHunk r number line
  errors := by
    cases hread : header? line with
    | none =>
      rw [(closedWith_openHunk r number hread).2, if_pos ⟨h, hread⟩]
    | some o =>
      rw [if_neg (not_rejected_of_header? hread), List.append_nil, openHunk, hread]
      exact errors_closeHunk r
  opened o ho := by rw [openHunk, ho]
  unopened hread := .inl (closedWith_openHunk r number hread).1

/-- What one line outside bodies does to the hunks and errors. -/
theorem headerStep (r : Reading) (number : Nat) (line : List Char) :
    HeaderStep r (r.readHeader number line) number line := by
  obtain ⟨rest, rfl, hread⟩ | ⟨rest, rfl, hread⟩ | ⟨rest, rfl, hread⟩ | ⟨hrange, hread⟩ |
    ⟨hplain, hread⟩ := readHeader_cases line
  all_goals rw [hread]
  · obtain ⟨hhunk, herrors⟩ := r.closedWith_openGit rest
    exact headerStep_of_not_range (by simp) (hunks_openGit r rest) herrors (.inl hhunk)
  · obtain ⟨hhunk, herrors⟩ := r.closedWith_setOld rest
    exact headerStep_of_not_range (by simp) (hunks_setOld r rest) herrors (.inl hhunk)
  · exact headerStep_of_not_range (by simp) (hunks_setNew r rest) rfl (.inr rfl)
  · exact headerStep_openHunk r number hrange
  · exact headerStep_of_not_range (hplain _ (by simp [headerLeads])) rfl rfl (.inr rfl)

theorem idle_iff (r : Reading) :
    r.Idle ↔ r.left OpenHunk.oldLeft = 0 ∧ r.left OpenHunk.newLeft = 0 := by
  unfold Idle left
  cases r.hunk with
  | none => simp
  | some o =>
    have hbody := not_congr o.inBody_iff
    rw [Bool.not_eq_true, Classical.not_not] at hbody
    simpa using hbody

/-- After a line outside bodies, as many lines are to come as it announces. -/
theorem HeaderStep.left {side : OpenHunk → UInt64} {count : Hunk → UInt64}
    (h : HeaderStep r q number line) (hidle : r.left side = 0)
    (hcount : ∀ o, side (.ofHeader o) = count o) : q.left side = announced count line := by
  unfold announced
  cases hread : header? line with
  | none =>
    rcases h.unopened hread with hnone | hsame
    · simp [Reading.left, hnone]
    · simpa [Reading.left, hsame] using hidle
  | some o => simp [Reading.left, h.opened o hread, hcount]

/-! ## Runs -/

/-- Hunks and errors are added to those so far. -/
structure Collects (r q : Reading) (hunks : List Hunk) (errors : List PatchError) : Prop where
  hunks : q.hunks.map Hunk.ranges = r.hunks.map Hunk.ranges ++ hunks
  errors : q.errors = r.errors ++ errors

/-- Two stretches of lines collect what each of them does. -/
theorem Collects.trans {s : Reading} {hunks hunks' : List Hunk} {errors errors' : List PatchError}
    (h : Collects r q hunks errors) (h' : Collects q s hunks' errors') :
    Collects r s (hunks ++ hunks') (errors ++ errors') where
  hunks := by rw [h'.hunks, h.hunks, List.append_assoc]
  errors := by rw [h'.errors, h.errors, List.append_assoc]

/-- One line outside bodies collects at most one hunk or one error. -/
theorem HeaderStep.collects (h : HeaderStep r q number line) :
    Collects r q (header? line).toList
      (if Rejected line then [⟨number, String.ofList line⟩] else []) where
  hunks := by
    rw [h.hunks, List.map_append]
    cases hread : header? line with
    | none => rfl
    | some o => simp [ranges_of_header? hread]
  errors := h.errors

/-- A line of a body changes no range of a hunk. -/
theorem collects_addLine {o : OpenHunk} (ho : r.hunk = some o) (line : List Char) :
    Collects r { r with hunk := some (o.addLine line) } [] [] where
  hunks := by simp [hunks, ho, OpenHunk.ranges_addLine]
  errors := by simp

theorem left_addLine {o : OpenHunk} (ho : r.hunk = some o) (line : List Char) :
    { r with hunk := some (o.addLine line) }.left OpenHunk.oldLeft =
        leftAfter onOldSide (r.left OpenHunk.oldLeft) line ∧
      { r with hunk := some (o.addLine line) }.left OpenHunk.newLeft =
        leftAfter onNewSide (r.left OpenHunk.newLeft) line := by
  simp only [left, ho, Option.map_some, Option.getD_some]
  rw [OpenHunk.addLine_eq]
  exact ⟨OpenHunk.toNat_leftAfter _ _ _, OpenHunk.toNat_leftAfter _ _ _⟩

/-- A line is read as a header, or it belongs to the body that is open. -/
theorem readLine_cases (r : Reading) (number : Nat) (line : List Char) :
    (r.Idle ∧ r.readLine number line = r.readHeader number line) ∨
    (¬ r.Idle ∧ ∃ o, r.hunk = some o ∧ o.inBody = true ∧
      r.readLine number line = { r with hunk := some (o.addLine line) }) := by
  by_cases hidle : r.Idle
  · exact .inl ⟨hidle, readLine_of_idle hidle number line⟩
  · refine .inr ⟨hidle, ?_⟩
    unfold Idle at hidle
    simp only [Classical.not_forall, Bool.not_eq_false] at hidle
    obtain ⟨o, ho, hbody⟩ := hidle
    exact ⟨o, ho, hbody, by simp [readLine, ho, hbody]⟩

/-- Reading a line outside bodies and then what lines hold behind it. -/
theorem HeaderStep.scan {ls : List (List Char)} {hunks : List Hunk} {errors : List PatchError}
    (hstep : HeaderStep r q number line) (hold : r.left OpenHunk.oldLeft = 0)
    (hnew : r.left OpenHunk.newLeft = 0)
    (hrest : Scan HeaderText.ReadAs (number + 1) (q.left OpenHunk.oldLeft)
      (q.left OpenHunk.newLeft) ls hunks errors) :
    Scan HeaderText.ReadAs number 0 0 (line :: ls) ((header? line).toList ++ hunks)
      ((if Rejected line then [⟨number, String.ofList line⟩] else []) ++ errors) := by
  have holdLeft : q.left OpenHunk.oldLeft = announced Hunk.oldCount line :=
    hstep.left hold fun _ => rfl
  have hnewLeft : q.left OpenHunk.newLeft = announced Hunk.newCount line :=
    hstep.left hnew fun _ => rfl
  rw [holdLeft, hnewLeft] at hrest
  cases hread : header? line with
  | some h =>
    obtain ⟨t, hline, ht⟩ := header?_eq_some_iff.1 hread
    rw [if_neg (not_rejected_of_header? hread)]
    exact .header hline ht (by simpa [announced, hread] using hrest)
  | none =>
    have hplain : Scan HeaderText.ReadAs (number + 1) 0 0 ls hunks errors := by
      simpa [announced, hread] using hrest
    by_cases hlead : "@@".toList <+: line
    · have hnone : ∀ t h, line = HeaderText.chars t → ¬ t.ReadAs h := fun t h hline ht => by
        rw [header?_eq_some_iff.2 ⟨t, hline, ht⟩] at hread
        cases hread
      rw [if_pos ⟨hlead, hread⟩]
      exact .rejected hlead hnone hplain
    · rw [if_neg fun hrejected : Rejected line => hlead hrejected.1]
      exact .other hlead hplain

/-- Reading lines collects what they hold. -/
theorem scan_readLines (r : Reading) (number : Nat) (ls : List (List Char)) :
    ∃ hunks errors,
      Scan HeaderText.ReadAs number (r.left OpenHunk.oldLeft) (r.left OpenHunk.newLeft) ls hunks
        errors ∧
      Collects r (r.readLines number ls) hunks errors := by
  induction ls generalizing r number with
  | nil => exact ⟨[], [], .done, by simp [readLines], by simp [readLines]⟩
  | cons line ls ih =>
    obtain ⟨hunks, errors, hscan, hcollects⟩ := ih (r.readLine number line) (number + 1)
    rw [readLines]
    obtain ⟨hidle, hread⟩ | ⟨hidle, o, ho, -, hread⟩ := readLine_cases r number line
    · have hstep := headerStep r number line
      obtain ⟨hold, hnew⟩ := (idle_iff r).1 hidle
      rw [hread] at hscan hcollects ⊢
      rw [hold, hnew]
      exact ⟨_, _, hstep.scan hold hnew hscan, hstep.collects.trans hcollects⟩
    · obtain ⟨hold, hnew⟩ := left_addLine ho line
      rw [hread, hold, hnew] at hscan
      rw [hread] at hcollects ⊢
      exact ⟨_, _, .body (mt (idle_iff r).2 hidle) hscan, (collects_addLine ho line).trans hcollects⟩

theorem hunks_finish (r : Reading) : r.finish.files.flatMap (·.hunks) = r.hunks := by
  rw [← hunks_closeHunk, ← hunks_closeFile]
  simp [finish, hunks, closeFile]

end Reading

/-! ## Numbers of changed lines -/

/-- Increasing numbers from the first one on, all below the next one. -/
structure NumbersTo (first : UInt64) (numbers : List UInt64) (next : UInt64) : Prop
    extends NumbersFrom first numbers where
  first_le_next : first ≤ next
  lt_next : ∀ k ∈ numbers, k < next

theorem numbersTo_nil (first : UInt64) : NumbersTo first [] first :=
  ⟨⟨.nil, by simp⟩, UInt64.le_refl first, by simp⟩

/-- The next number may be used, and then the one after it is next. -/
theorem NumbersTo.step {first next : UInt64} {numbers : List UInt64}
    (h : NumbersTo first numbers next) (hfits : next.toNat + 1 < UInt64.size)
    (marked : Prop) [Decidable marked] :
    NumbersTo first (numbers ++ if marked then [next] else []) (next + 1) := by
  have hnext : next < next + 1 := by
    have hword : (next + 1).toNat = next.toNat + 1 :=
      (UInt64.toNat_add next 1).trans (Nat.mod_eq_of_lt hfits)
    rw [UInt64.lt_iff_toNat_lt, hword]
    exact Nat.lt_succ_self _
  have hlater : NumbersTo first numbers (next + 1) :=
    ⟨h.toNumbersFrom, UInt64.le_trans h.first_le_next (UInt64.le_of_lt hnext),
      fun k hk => UInt64.lt_trans (h.lt_next k hk) hnext⟩
  split
  · refine ⟨⟨?_, ?_⟩, hlater.first_le_next, ?_⟩
    · rw [List.pairwise_append]
      refine ⟨h.increasing, List.pairwise_singleton _ _, fun k hk l hl => ?_⟩
      rw [List.mem_singleton.1 hl]
      exact h.lt_next k hk
    · simp only [List.forall_mem_append, List.forall_mem_singleton]
      exact ⟨h.first_le, h.first_le_next⟩
    · simp only [List.forall_mem_append, List.forall_mem_singleton]
      exact ⟨hlater.lt_next, hnext⟩
  · rw [List.append_nil]
    exact hlater

/-- A line counts on its side only, and it is marked only if it is on that side. -/
theorem NumbersTo.count {first next : UInt64} {numbers : List UInt64} {side marked : Prop}
    [Decidable side] [Decidable marked] (h : NumbersTo first numbers next)
    (hfits : side → next.toNat + 1 < UInt64.size) (hmarked : marked → side) :
    NumbersTo first (numbers ++ if marked then [next] else [])
      (if side then next + 1 else next) := by
  by_cases hside : side
  · rw [if_pos hside]
    exact h.step (hfits hside) marked
  · rw [if_neg hside, if_neg fun hmark => hside (hmarked hmark), List.append_nil]
    exact h

namespace OpenHunk

/-- The next line of each side has a higher number than the changed lines so far. -/
structure Counted (o : OpenHunk) : Prop where
  added : NumbersTo o.hunk.newStart o.hunk.added o.newLine
  deleted : NumbersTo o.hunk.oldStart o.hunk.deleted o.oldLine

/-- The counters do not overflow when this line is counted. -/
def Counts (o : OpenHunk) (line : List Char) : Prop :=
  (onOldSide line = true → o.oldLine.toNat + 1 < UInt64.size) ∧
    (onNewSide line = true → o.newLine.toNat + 1 < UInt64.size)

instance (o : OpenHunk) (line : List Char) : Decidable (o.Counts line) :=
  inferInstanceAs (Decidable (_ ∧ _))

theorem Counted.inOrder {o : OpenHunk} (h : o.Counted) : o.hunk.InOrder :=
  ⟨h.added.toNumbersFrom, h.deleted.toNumbersFrom⟩

/-- One line of a body: numbers go on increasing. -/
theorem Counted.addLine {o : OpenHunk} {line : List Char} (h : o.Counted) (hline : o.Counts line) :
    (o.addLine line).Counted := by
  have hadded : line.head? = some '+' → onNewSide line = true := fun hhead => by
    simp [onNewSide, hhead]
  have hdeleted : line.head? = some '-' → onOldSide line = true := fun hhead => by
    simp [onOldSide, hhead]
  rw [addLine_eq]
  exact ⟨h.added.count hline.2 hadded, h.deleted.count hline.1 hdeleted⟩

end OpenHunk

namespace Reading

variable {r : Reading}

/-- No counter overflows while these lines are read. -/
def Counts (r : Reading) (number : Nat) : List (List Char) → Prop
  | [] => True
  | line :: rest =>
    (∀ o ∈ r.hunk, o.inBody = true → o.Counts line) ∧
      (r.readLine number line).Counts (number + 1) rest

instance decidableCounts : (r : Reading) → (number : Nat) → (ls : List (List Char)) →
    Decidable (r.Counts number ls)
  | _, _, [] => .isTrue trivial
  | r, number, line :: rest =>
    have := decidableCounts (r.readLine number line) (number + 1) rest
    decidable_of_iff (r.hunk.all (fun o => !o.inBody || o.Counts line) = true ∧
      (r.readLine number line).Counts (number + 1) rest) <| by
        refine and_congr_left fun _ => ?_
        cases r.hunk <;> simp [Classical.or_iff_not_imp_left]

/-- All changed lines so far have increasing numbers. -/
structure Counted (r : Reading) : Prop where
  hunks : ∀ h ∈ r.hunks, h.InOrder
  open_hunk : ∀ o ∈ r.hunk, o.Counted

/-- One line outside bodies: the numbers of earlier hunks stay. -/
theorem Counted.readHeader (h : r.Counted) (number : Nat) (line : List Char) :
    (r.readHeader number line).Counted := by
  have hstep := headerStep r number line
  have hnew : ∀ o ∈ header? line, (OpenHunk.ofHeader o).Counted := by
    intro o ho
    rw [← ranges_of_header? ho]
    exact ⟨numbersTo_nil _, numbersTo_nil _⟩
  constructor
  · rw [hstep.hunks, List.forall_mem_append]
    refine ⟨h.hunks, fun o ho => (hnew o ?_).inOrder⟩
    simpa using ho
  · cases hread : header? line with
    | none =>
      rcases hstep.unopened hread with hnone | hsame
      · simp [hnone]
      · rw [hsame]
        exact h.open_hunk
    | some o =>
      rw [hstep.opened o hread]
      simpa using hnew o hread

theorem Counted.addLine (h : r.Counted) {o : OpenHunk} (ho : r.hunk = some o) {line : List Char}
    (hline : o.Counts line) : { r with hunk := some (o.addLine line) }.Counted := by
  have hopen : (o.addLine line).Counted := (h.open_hunk o ho).addLine hline
  refine ⟨?_, by simpa using hopen⟩
  have hclosed := h.hunks
  simp only [Reading.hunks, List.forall_mem_append] at hclosed ⊢
  exact ⟨hclosed.1, by simpa using hopen.inOrder⟩

/-- A run over lines: all numbers are increasing as long as no counter overflows. -/
theorem Counted.readLines (h : r.Counted) {number : Nat} {ls : List (List Char)}
    (hcounts : r.Counts number ls) : (r.readLines number ls).Counted := by
  induction ls generalizing r number with
  | nil => exact h
  | cons line ls ih =>
    obtain ⟨hline, hrest⟩ := hcounts
    refine ih ?_ hrest
    obtain ⟨-, hread⟩ | ⟨-, o, ho, hbody, hread⟩ := readLine_cases r number line
    · rw [hread]
      exact h.readHeader number line
    · rw [hread]
      exact h.addLine ho (hline o ho hbody)

end Reading

/-- A line is read as one hunk at most. -/
theorem HeaderText.ReadAs.unique {t u : HeaderText} {h k : Hunk} (hchars : t.chars = u.chars)
    (ht : t.ReadAs h) (hu : u.ReadAs k) : h = k :=
  Option.some.inj ((header?_eq_some_iff.2 ⟨t, rfl, ht⟩).symm.trans
    (header?_eq_some_iff.2 ⟨u, hchars, hu⟩))

/-- The hunks of all files without their changed lines, in order. -/
def hunkRanges (p : Patch) : List Hunk :=
  (p.files.flatMap (·.hunks)).map Hunk.ranges

/-- What a reader makes of a text is what a scan of its lines gives. -/
theorem scan_ofText (text : String) :
    Scan HeaderText.ReadAs 1 0 0 (Text.lines text.toList) (ofText text).hunkRanges
      (ofText text).errors := by
  obtain ⟨hunks, errors, hscan, hcollects⟩ :=
    Reading.scan_readLines {} 1 (Text.lines text.toList)
  have hhunks : (ofText text).hunkRanges = hunks := by
    rw [hunkRanges, ofText, Reading.hunks_finish, hcollects.hunks]
    rfl
  have herrors : (ofText text).errors = errors := by
    rw [ofText, Reading.errors_finish, hcollects.errors]
    rfl
  rw [hhunks, herrors]
  exact hscan

/-- On every text, the hunks of all files are the hunk headers outside bodies that are read, in order
and with the numbers that are read, and the errors are the other lines there that start like one.
These are the headers with the numbers that they write, unless one with a count that does not fit
should have been rejected. If no counter of lines overflows, the changed lines of each hunk have
increasing numbers from its starts on. -/
theorem hunk_headers_kept (text : String) :
    (∀ hunks errors,
      Scan HeaderText.ReadAs 1 0 0 (Text.lines text.toList) hunks errors ↔
        hunks = (ofText text).hunkRanges ∧ errors = (ofText text).errors) ∧
    (∃ hunks errors, Scan HeaderText.Announces 1 0 0 (Text.lines text.toList) hunks errors) ∧
    (∀ hunks errors,
      Scan HeaderText.Announces 1 0 0 (Text.lines text.toList) hunks errors →
      (∀ e ∈ errors, ∀ t : HeaderText, e.header.toList = t.chars → t.Fits) →
        hunks = (ofText text).hunkRanges ∧ errors = (ofText text).errors) ∧
    (Reading.Counts {} 1 (Text.lines text.toList) →
      ∀ f ∈ (ofText text).files, ∀ h ∈ f.hunks, h.InOrder) := by
  have hread := scan_ofText text
  refine ⟨fun hunks errors => ⟨fun hscan => ?_, ?_⟩, Scan.total _ 1 0 0 _, ?_, ?_⟩
  · exact hscan.unique (fun _ _ _ _ => HeaderText.ReadAs.unique) hread
  · rintro ⟨rfl, rfl⟩
    exact hread
  · intro hunks errors hscan hfits
    exact (hscan.readAs hfits).unique (fun _ _ _ _ => HeaderText.ReadAs.unique) hread
  · intro hcounts f hf h hh
    have hstart : Reading.Counted {} := ⟨by simp [Reading.hunks], by simp⟩
    refine (hstart.readLines hcounts).hunks h ?_
    rw [← Reading.hunks_finish]
    exact List.mem_flatMap.2 ⟨f, hf, hh⟩

/-- A hunk without a file whose deleted line reads like a header, the new path of a file, a header
that cannot be read, and a hunk whose body is cut off. -/
def strayHeaders : String :=
  "@@ -1,2 +1 @@\n-@@ -9 +9 @@\n keep\n+++ b/x\n@@ -\n@@ -7 +7,3 @@\n+x\n+y\n"

theorem HeaderText.chars_ne_cut (t : HeaderText) : "@@ -".toList ≠ t.chars := by
  intro h
  have hlength := congrArg List.length h
  simp [HeaderText.chars] at hlength

/-- What the text announces, read off its lines. -/
theorem scan_strayHeaders :
    Scan HeaderText.Announces 1 0 0 (Text.lines strayHeaders.toList)
      [⟨1, 2, 1, 1, [], []⟩, ⟨7, 1, 7, 3, [], []⟩] [⟨5, "@@ -"⟩] := by
  have hlines : Text.lines strayHeaders.toList =
      ["@@ -1,2 +1 @@", "-@@ -9 +9 @@", " keep", "+++ b/x", "@@ -", "@@ -7 +7,3 @@", "+x",
        "+y"].map String.toList := by decide
  have hone : Text.Denotes ['1'] 1 := ⟨by decide, List.all_eq_true.1 rfl, rfl⟩
  have htwo : Text.Denotes ['2'] 2 := ⟨by decide, List.all_eq_true.1 rfl, rfl⟩
  have hthree : Text.Denotes ['3'] 3 := ⟨by decide, List.all_eq_true.1 rfl, rfl⟩
  have hseven : Text.Denotes ['7'] 7 := ⟨by decide, List.all_eq_true.1 rfl, rfl⟩
  let first : HeaderText :=
    ⟨.full ['1'] ['2'] (by decide) (by decide), .short ['1'] (by decide), []⟩
  let last : HeaderText :=
    ⟨.short ['7'] (by decide), .full ['7'] ['3'] (by decide) (by decide), []⟩
  have hfirst : first.Announces ⟨1, 2, 1, 1, [], []⟩ :=
    ⟨RangeText.means_full (by decide) (by decide) hone htwo, RangeText.means_short _ hone, rfl, rfl⟩
  have hlast : last.Announces ⟨7, 1, 7, 3, [], []⟩ :=
    ⟨RangeText.means_short _ hseven, RangeText.means_full (by decide) (by decide) hseven hthree, rfl, rfl⟩
  rw [hlines]
  refine .header (t := first) rfl hfirst (.body (by decide) (.body (by decide) ?_))
  refine .other (by decide) (.rejected (by decide) ?_ ?_)
  · exact fun t _ hline => absurd hline t.chars_ne_cut
  · exact .header (t := last) rfl hlast (.body (by decide) (.body (by decide) .done))

theorem strayHeaders_kept :
    Reading.Counts {} 1 (Text.lines strayHeaders.toList) ∧
    (ofText strayHeaders).hunkRanges = [⟨1, 2, 1, 1, [], []⟩, ⟨7, 1, 7, 3, [], []⟩] ∧
    (ofText strayHeaders).errors = [⟨5, "@@ -"⟩] ∧
    ∀ f ∈ (ofText strayHeaders).files, ∀ h ∈ f.hunks, h.InOrder := by
  obtain ⟨-, -, hannounced, hnumbers⟩ := hunk_headers_kept strayHeaders
  have hcounts : Reading.Counts {} 1 (Text.lines strayHeaders.toList) := by decide
  have hfits : ∀ e ∈ [PatchError.mk 5 "@@ -"], ∀ t : HeaderText,
      e.header.toList = t.chars → t.Fits := by
    intro e he t hline
    obtain rfl := List.mem_singleton.1 he
    exact absurd hline t.chars_ne_cut
  obtain ⟨hhunks, herrors⟩ := hannounced _ _ scan_strayHeaders hfits
  exact ⟨hcounts, hhunks.symm, herrors.symm, hnumbers hcounts⟩

/-- A file with a hunk whose old count does not fit in 64 bits. -/
def oversizedHunk : String :=
  "--- a/x.py\n+++ b/x.py\n@@ -5,18446744073709551616 +5 @@\n-a\n+b\n"

/-- No counter overflows, and yet a hunk is there with a number that its header does not write: what
the text announces is no hunk and one error. -/
theorem oversized_header_kept_as_hunk :
    Reading.Counts {} 1 (Text.lines oversizedHunk.toList) ∧
    (ofText oversizedHunk).hunkRanges = [⟨5, 1, 5, 1, [], []⟩] ∧
    (ofText oversizedHunk).errors = [] ∧
    ∀ hunks errors,
      Scan HeaderText.Announces 1 0 0 (Text.lines oversizedHunk.toList) hunks errors →
      hunks = [] ∧ errors = [⟨3, "@@ -5,18446744073709551616 +5 @@"⟩] := by
  have hlines : Text.lines oversizedHunk.toList =
      ["--- a/x.py", "+++ b/x.py", "@@ -5,18446744073709551616 +5 @@", "-a", "+b"].map
        String.toList := by decide
  refine ⟨by decide, by decide, by decide, fun hunks errors hscan => ?_⟩
  rw [hlines] at hscan
  refine hscan.unique (fun _ _ _ _ hchars ht hu => ht.readAs.unique hchars hu.readAs) ?_
  refine .other (by decide) (.other (by decide) (.rejected (by decide) ?_ ?_))
  · exact fun t h => not_announces_oversizedHeader
  · exact .other (by decide) (.other (by decide) .done)

end Patch

end CodeImpact
