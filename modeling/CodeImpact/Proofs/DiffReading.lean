import CodeImpact.Proofs.DiffText

/-!
# Written diffs are read back

Reading the text of a diff gives exactly its files and hunks, and the added and deleted lines under
their true numbers. The counts of a hunk's header say where its body ends, so the text of a body
line never matters, not even if it reads like a header.
-/

namespace CodeImpact.Patch

/-! ## Bodies -/

namespace OpenHunk

theorem toNat_less (n : UInt64) : (less n).toNat = n.toNat - 1 := by
  unfold less
  split
  next hzero => simp [hzero]
  next hpos =>
    have hone : (1 : UInt64) ≤ n := by
      have hne : n.toNat ≠ 0 := fun h => hpos (UInt64.toNat_inj.1 h)
      rw [UInt64.le_iff_toNat_le]
      change 1 ≤ n.toNat
      omega
    rw [UInt64.toNat_sub_of_le _ _ hone]
    rfl

/-- A carriage return at the end of a body line does not matter. -/
theorem addLine_withoutReturn (o : OpenHunk) (line : BodyLine) :
    o.addLine (Text.withoutReturn line.chars) = o.addLine line.chars := by
  cases line with
  | blank => rfl
  | context text | added text | deleted text | remark text =>
    rw [BodyLine.chars, Text.withoutReturn_cons (by decide)]
    rfl

/-- A hunk before the lines of `body`, the first of which has these numbers on the two sides. -/
structure Before (o : OpenHunk) (oldNumber newNumber : Nat) (body : List BodyLine) : Prop where
  oldLeft : o.oldLeft.toNat = body.countP BodyLine.onOld
  newLeft : o.newLeft.toNat = body.countP BodyLine.onNew
  oldLine : o.oldLine = UInt64.ofNat oldNumber
  newLine : o.newLine = UInt64.ofNat newNumber

variable {o : OpenHunk} {line : BodyLine} {rest : List BodyLine} {m n : Nat}

/-- A hunk with the numbers of the changed lines of `body` added, whose first line has the numbers
`m` and `n` on the two sides. -/
def noted (h : Hunk) (m n : Nat) (body : List BodyLine) : Hunk :=
  { h with
    added := h.added ++ (sideNumbers BodyLine.onNew BodyLine.isAdded n body).map UInt64.ofNat
    deleted :=
      h.deleted ++ (sideNumbers BodyLine.onOld BodyLine.isDeleted m body).map UInt64.ofNat }

theorem Before.inBody (h : o.Before m n (line :: rest)) (hline : line.onOld ∨ line.onNew) :
    o.inBody = true := by
  have hpos : o.oldLeft.toNat ≠ 0 ∨ o.newLeft.toNat ≠ 0 := by
    rw [h.oldLeft, h.newLeft]
    rcases hline with hline | hline <;> simp [hline]
  have hleft : o.oldLeft ≠ 0 ∨ o.newLeft ≠ 0 :=
    hpos.imp (fun hne h0 => hne (by simp [h0])) fun hne h0 => hne (by simp [h0])
  simpa [OpenHunk.inBody] using hleft

theorem Before.not_inBody (h : o.Before m n []) : o.inBody = false := by
  have hold : o.oldLeft = 0 := UInt64.toNat_inj.1 h.oldLeft
  have hnew : o.newLeft = 0 := UInt64.toNat_inj.1 h.newLeft
  simp [OpenHunk.inBody, hold, hnew]

/-- What a body line does, by the sides it is on. -/
theorem addLine_chars (o : OpenHunk) (line : BodyLine) :
    o.addLine line.chars =
      { hunk :=
          { o.hunk with
            added := o.hunk.added ++ if line.isAdded then [o.newLine] else []
            deleted := o.hunk.deleted ++ if line.isDeleted then [o.oldLine] else [] }
        oldLeft := if line.onOld then less o.oldLeft else o.oldLeft
        newLeft := if line.onNew then less o.newLeft else o.newLeft
        oldLine := if line.onOld then o.oldLine + 1 else o.oldLine
        newLine := if line.onNew then o.newLine + 1 else o.newLine } := by
  cases line <;>
    simp [OpenHunk.addLine, BodyLine.chars, BodyLine.isAdded, BodyLine.isDeleted, BodyLine.onOld,
      BodyLine.onNew]

/-- One side is counted down by its lines, and its numbers go up. -/
theorem side_step {side : BodyLine → Bool} {left number : UInt64} {k : Nat}
    (hleft : left.toNat = (line :: rest).countP side) (hnumber : number = UInt64.ofNat k) :
    (if side line then less left else left).toNat = rest.countP side ∧
      (if side line then number + 1 else number) =
        UInt64.ofNat (if side line then k + 1 else k) := by
  rw [List.countP_cons] at hleft
  by_cases hside : side line = true
  · simp only [hside, if_true] at hleft ⊢
    refine ⟨?_, by rw [hnumber, UInt64.ofNat_add]; rfl⟩
    rw [toNat_less, hleft]
    omega
  · simp only [hside] at hleft ⊢
    exact ⟨by simpa using hleft, by simpa using hnumber⟩

/-- One line of a body: the counters of its sides advance. -/
theorem Before.addLine (h : o.Before m n (line :: rest)) :
    (o.addLine line.chars).Before (if line.onOld then m + 1 else m)
      (if line.onNew then n + 1 else n) rest := by
  obtain ⟨hold, holdLine⟩ := side_step h.oldLeft h.oldLine
  obtain ⟨hnew, hnewLine⟩ := side_step h.newLeft h.newLine
  rw [addLine_chars]
  exact ⟨hold, hnew, holdLine, hnewLine⟩

/-- One line of a body: what will have been noted stays the same. -/
theorem Before.noted_addLine (h : o.Before m n (line :: rest)) :
    noted (o.addLine line.chars).hunk (if line.onOld then m + 1 else m)
      (if line.onNew then n + 1 else n) rest = noted o.hunk m n (line :: rest) := by
  rw [addLine_chars, h.oldLine, h.newLine]
  unfold noted
  rw [sideNumbers_cons, sideNumbers_cons]
  cases line <;> simp [BodyLine.isAdded, BodyLine.isDeleted, BodyLine.onOld, BodyLine.onNew]

end OpenHunk

/-! ## Lines outside bodies -/

namespace Reading

variable {r : Reading}

/-- No line of a body is to come. -/
def Idle (r : Reading) : Prop :=
  ∀ o, r.hunk = some o → o.inBody = false

theorem idle_of_none (h : r.hunk = none) : r.Idle := by
  intro o ho
  rw [h] at ho
  cases ho

/-- Outside of bodies a line is read as a header. -/
theorem readLine_of_idle (h : r.Idle) (number : Nat) (line : List Char) :
    r.readLine number line = r.readHeader number line := by
  unfold readLine
  cases ho : r.hunk with
  | none => rfl
  | some o => simp [h o ho]

theorem readHeader_git (r : Reading) (number : Nat) (rest : List Char) :
    r.readHeader number ("diff --git ".toList ++ rest) = r.openGit rest := by
  rw [readHeader, Text.afterLead?_append]

theorem readHeader_old (r : Reading) (number : Nat) (rest : List Char) :
    r.readHeader number ("--- ".toList ++ rest) = r.setOld rest := by
  have hgit : Text.afterLead? "diff --git ".toList ("--- ".toList ++ rest) = none := rfl
  rw [readHeader, hgit, Text.afterLead?_append]

theorem readHeader_new (r : Reading) (number : Nat) (rest : List Char) :
    r.readHeader number ("+++ ".toList ++ rest) = r.setNew rest := by
  have hgit : Text.afterLead? "diff --git ".toList ("+++ ".toList ++ rest) = none := rfl
  have hold : Text.afterLead? "--- ".toList ("+++ ".toList ++ rest) = none := rfl
  rw [readHeader, hgit, hold, Text.afterLead?_append]

/-- The header of a written hunk opens a hunk with its numbers. -/
theorem readHeader_ranges (r : Reading) (number : Nat) (w : WrittenHunk) (rest : List Char) :
    r.readHeader number (w.rangesChars ++ rest) =
      { r.closeHunk with hunk := some (.ofHeader w.announced) } := by
  have hheader : r.readHeader number (w.rangesChars ++ rest) =
      r.openHunk number (w.rangesChars ++ rest) := by
    unfold WrittenHunk.rangesChars
    simp only [List.append_assoc]
    rfl
  rw [hheader, openHunk, header?_rangesChars]

theorem readHeader_plain (r : Reading) (number : Nat) {line : List Char} (h : IsPlain line) :
    r.readHeader number line = r := by
  have hlead : ∀ lead ∈ headerLeads, Text.afterLead? lead line = none := fun lead hmem =>
    Text.afterLead?_eq_none_iff.2 (h lead hmem)
  have hgit := hlead "diff --git ".toList (by simp [headerLeads])
  have hold := hlead "--- ".toList (by simp [headerLeads])
  have hnew := hlead "+++ ".toList (by simp [headerLeads])
  have hrange : ¬ ['@', '@'].isPrefixOf line = true := by
    rw [List.isPrefixOf_iff_prefix]
    exact h "@@".toList (by simp [headerLeads])
  rw [readHeader, hgit, hold, hnew]
  simp only [hrange]
  rfl

/-- Reading goes on where it stopped, with the next line number. -/
theorem readLines_append (r : Reading) (number : Nat) (as bs : List (List Char)) :
    r.readLines number (as ++ bs) =
      (r.readLines number as).readLines (number + as.length) bs := by
  induction as generalizing r number with
  | nil => rfl
  | cons a as ih =>
    rw [List.cons_append, readLines, ih, readLines, List.length_cons]
    congr 1
    omega

/-- Lines that say nothing are skipped. -/
theorem readLines_plain (h : r.Idle) (number : Nat) {ls : List (List Char)}
    (hplain : ∀ line ∈ ls, IsPlain line) : r.readLines number ls = r := by
  induction ls generalizing number with
  | nil => rfl
  | cons line ls ih =>
    obtain ⟨hline, hls⟩ := List.forall_mem_cons.1 hplain
    rw [readLines, readLine_of_idle h, readHeader_plain _ _ hline]
    exact ih _ hls

/-! ## Hunks -/

/-- A body line is read by its first character, whatever follows. A remark is skipped, in a body and
after it. -/
theorem readLine_body (r : Reading) (number : Nat) {o : OpenHunk} {m n : Nat} {line : BodyLine}
    {rest : List BodyLine} (h : o.Before m n (line :: rest)) :
    { r with hunk := some o }.readLine number (Text.withoutReturn line.chars) =
      { r with hunk := some (o.addLine line.chars) } := by
  rw [← o.addLine_withoutReturn line]
  by_cases hbody : o.inBody = true
  · simp only [readLine, hbody, if_true]
  · have hsides : ¬ (line.onOld ∨ line.onNew) := fun hline => hbody (h.inBody hline)
    cases line with
    | context text => exact absurd (.inl rfl) hsides
    | blank => exact absurd (.inl rfl) hsides
    | added text => exact absurd (.inr rfl) hsides
    | deleted text => exact absurd (.inl rfl) hsides
    | remark text =>
      have hidle : { r with hunk := some o }.Idle := by
        intro p hp
        obtain rfl := Option.some.inj hp
        exact Bool.eq_false_iff.2 hbody
      have hchars : Text.withoutReturn (BodyLine.remark text).chars =
          '\\' :: Text.withoutReturn text := Text.withoutReturn_cons (by decide) _
      have hplain : IsPlain ('\\' :: Text.withoutReturn text) := by
        intro lead hmem hpre
        simp only [headerLeads, List.mem_cons, List.not_mem_nil, or_false] at hmem
        rcases hmem with rfl | rfl | rfl | rfl <;> simp at hpre
      rw [hchars, readLine_of_idle hidle, readHeader_plain _ _ hplain]
      rfl

/-- Reading a body leaves the hunk complete, with the true numbers of its lines. -/
theorem readLines_body (r : Reading) (number : Nat) {o : OpenHunk} {m n : Nat}
    {body : List BodyLine} (h : o.Before m n body) :
    ∃ done : OpenHunk,
      { r with hunk := some o }.readLines number
          ((body.map BodyLine.chars).map Text.withoutReturn) =
        { r with hunk := some done } ∧
      done.inBody = false ∧ done.hunk = OpenHunk.noted o.hunk m n body := by
  induction body generalizing o m n number with
  | nil =>
    refine ⟨o, rfl, h.not_inBody, ?_⟩
    simp [OpenHunk.noted, sideNumbers]
  | cons line rest ih =>
    obtain ⟨done, hread, hidle, hhunk⟩ := ih (number + 1) h.addLine
    refine ⟨done, ?_, hidle, hhunk.trans h.noted_addLine⟩
    rw [List.map_cons, List.map_cons, readLines, readLine_body r number h]
    exact hread

/-- Inside a file: closing the last hunk leaves the file as it is so far. -/
structure InFile (finished : List FilePatch) (file : FilePatch) (r : Reading) : Prop where
  idle : r.Idle
  closed : r.closeHunk = { files := finished, current := some file }

variable {finished : List FilePatch} {file : FilePatch}

/-- A written hunk is added to the file that is open. -/
theorem InFile.readHunk (h : InFile finished file r) (number : Nat) (w : WrittenHunk) :
    InFile finished { file with hunks := file.hunks ++ [w.hunk] }
      (r.readLines number (w.lines.map Text.withoutReturn)) := by
  have hbefore : (OpenHunk.ofHeader w.announced).Before w.oldStart.toNat w.newStart.toNat w.body :=
    ⟨w.oldCount_eq, w.newCount_eq, UInt64.ofNat_toNat.symm, UInt64.ofNat_toNat.symm⟩
  obtain ⟨done, hread, hidle, hhunk⟩ :=
    readLines_body { files := finished, current := some file } (number + 1) hbefore
  have hlines : r.readLines number (w.lines.map Text.withoutReturn) =
      { files := finished, current := some file, hunk := some done } := by
    have hreturn : '\r' ∉ w.rangesChars := w.not_mem_rangesChars rfl (by decide)
    rw [WrittenHunk.lines, List.map_cons, Text.withoutReturn_append hreturn, readLines,
      readLine_of_idle h.idle, readHeader_ranges, h.closed]
    exact hread
  rw [hlines]
  refine ⟨fun o ho => ?_, ?_⟩
  · obtain rfl := Option.some.inj ho
    exact hidle
  · simp only [closeHunk, hhunk]
    rfl

/-- All hunks of a file are added to it, in order. -/
theorem InFile.readHunks (h : InFile finished file r) (number : Nat) (ws : List WrittenHunk) :
    InFile finished { file with hunks := file.hunks ++ ws.map WrittenHunk.hunk }
      (r.readLines number ((ws.flatMap WrittenHunk.lines).map Text.withoutReturn)) := by
  induction ws generalizing r file number with
  | nil => simpa [readLines] using h
  | cons w ws ih =>
    rw [List.flatMap_cons, List.map_append, readLines_append]
    simpa using ih (h.readHunk number w) _

/-! ## Files -/

/-- Between two files: closing what is open leaves the finished files, and a header opens the next
one. -/
structure BetweenFiles (finished : List FilePatch) (r : Reading) : Prop where
  idle : r.Idle
  closed : r.closeHunk.closeFile = { files := finished }
  opens : r.closeHunk.current.all (fun f => !f.hunks.isEmpty || !f.hasHeader) = true

theorem BetweenFiles.start : BetweenFiles [] {} where
  idle := idle_of_none rfl
  closed := rfl
  opens := rfl

theorem BetweenFiles.finish (h : BetweenFiles finished r) :
    r.finish = { files := finished, errors := [] } := by
  rw [Reading.finish, h.closed]

theorem InFile.between (h : InFile finished file r) (hhunks : file.hunks ≠ []) :
    BetweenFiles (finished ++ [file]) r where
  idle := h.idle
  closed := by rw [h.closed]; rfl
  opens := by
    rw [h.closed]
    simp [hhunks]

theorem openGit_between (h : BetweenFiles finished r) (rest : List Char) :
    ∃ old new, r.openGit rest =
      { files := finished
        current := some { oldPath := old, newPath := new, hasHeader := true } } := by
  unfold openGit
  rw [h.closed]
  exact ⟨_, _, rfl⟩

/-- The line with the old path opens a file between two files. -/
theorem setOld_between (h : BetweenFiles finished r) (rest : List Char) :
    r.setOld rest =
      { files := finished
        current := some { oldPath := headerPath? rest, hasHeader := true } } := by
  unfold setOld
  simp only [h.opens, if_true, h.closed, Option.map_some]

/-- The line with the old path adds to a file that was opened before. -/
theorem setOld_opened (old new : Option String) (rest : List Char) :
    setOld { files := finished
             current := some { oldPath := old, newPath := new, hasHeader := true } } rest =
      { files := finished
        current := some { oldPath := headerPath? rest, newPath := new, hasHeader := true } } :=
  rfl

/-- The lines before the new path open a file, with or without a line of the version control
system. -/
theorem BetweenFiles.readOpening (h : BetweenFiles finished r) (number : Nat) (f : WrittenFile) :
    ∃ new, r.readLines number ((f.gitLine ++ f.extended.map Subtype.val ++ [f.oldLine]).map
        Text.withoutReturn) =
      { files := finished
        current := some { oldPath := f.patch.oldPath, newPath := new, hasHeader := true } } := by
  have hextended : ∀ line ∈ (f.extended.map Subtype.val).map Text.withoutReturn, IsPlain line := by
    simp only [List.forall_mem_map]
    exact fun l hl lead hlead hpre =>
      f.extended_plain l hl lead hlead (hpre.trans (Text.withoutReturn_prefix l.val))
  have hold : ∀ (q : Reading) (k : Nat), q.Idle →
      q.readLine k (Text.withoutReturn f.oldLine) = q.setOld f.oldSide := by
    intro q k hq
    rw [f.withoutReturn_oldLine, readLine_of_idle hq, WrittenFile.oldLine, readHeader_old]
  simp only [List.map_append, readLines_append, List.map_singleton, readLines]
  cases hgit : f.git with
  | none =>
    have hline : f.gitLine = [] := by simp [WrittenFile.gitLine, hgit]
    rw [hline, List.map_nil, readLines, readLines_plain h.idle _ hextended, hold _ _ h.idle,
      setOld_between h, f.headerPath?_oldSide]
    exact ⟨_, rfl⟩
  | some rest =>
    have hline : f.gitLine = ["diff --git ".toList ++ rest.val] := by
      simp [WrittenFile.gitLine, hgit]
    obtain ⟨old, new, hopen⟩ := openGit_between h (Text.withoutReturn rest.val)
    have hidle : (r.openGit (Text.withoutReturn rest.val)).Idle := idle_of_none (by rw [hopen])
    rw [hopen] at hidle
    rw [hline, List.map_singleton, Text.withoutReturn_append (by decide), readLines,
      readLine_of_idle h.idle, readHeader_git, hopen, readLines, readLines_plain hidle _ hextended,
      hold _ _ hidle, setOld_opened, f.headerPath?_oldSide]
    exact ⟨_, rfl⟩

/-- A section is read as its file. -/
theorem BetweenFiles.readFile (h : BetweenFiles finished r) (number : Nat) (f : WrittenFile) :
    BetweenFiles (finished ++ [f.patch])
      (r.readLines number (f.lines.map Text.withoutReturn)) := by
  obtain ⟨new, hopening⟩ := h.readOpening number f
  have hlines : f.lines = (f.gitLine ++ f.extended.map Subtype.val ++ [f.oldLine]) ++
      f.newLine :: f.hunks.flatMap WrittenHunk.lines := by
    simp [WrittenFile.lines]
  have hfile : InFile finished { f.patch with hunks := [] }
      { files := finished, current := some { f.patch with hunks := [] } } :=
    ⟨idle_of_none rfl, rfl⟩
  have hhunks : f.patch.hunks ≠ [] := by
    simpa [WrittenFile.patch] using f.hunks_ne_nil
  rw [hlines, List.map_append, readLines_append, hopening, List.map_cons, readLines,
    f.withoutReturn_newLine, readLine_of_idle (idle_of_none rfl), WrittenFile.newLine,
    readHeader_new, setNew, f.headerPath?_newSide]
  exact (hfile.readHunks _ f.hunks).between hhunks

/-- A run over written files: each of them is read back, in order. -/
theorem BetweenFiles.readFiles (h : BetweenFiles finished r) (number : Nat)
    (files : List WrittenFile) :
    BetweenFiles (finished ++ files.map WrittenFile.patch)
      (r.readLines number ((files.flatMap WrittenFile.lines).map Text.withoutReturn)) := by
  induction files generalizing r finished number with
  | nil => simpa [readLines] using h
  | cons f files ih =>
    rw [List.flatMap_cons, List.map_append, readLines_append]
    simpa using ih (h.readFile number f) _

end Reading

/-! ## Diffs -/

/-- Reading the text of a diff gives its files in order, without errors; and the numbers of the
added and deleted lines are those that the lines have on their sides. -/
theorem ofText_diffText (files : List WrittenFile) :
    Patch.ofText (diffText files) = { files := files.map WrittenFile.patch, errors := [] } ∧
      ∀ f ∈ files, ∀ w ∈ f.hunks,
        w.hunk.added.map UInt64.toNat = w.addedNumbers ∧
          w.hunk.deleted.map UInt64.toNat = w.deletedNumbers := by
  refine ⟨?_, fun f _ w _ => ⟨w.toNat_added, w.toNat_deleted⟩⟩
  have hfeed : ∀ line ∈ files.flatMap WrittenFile.lines, '\n' ∉ line := by
    intro line hline
    obtain ⟨f, -, hline⟩ := List.mem_flatMap.1 hline
    exact f.no_feed line hline
  have hread := Reading.BetweenFiles.start.readFiles 1 files
  rw [Patch.ofText, diffText, String.toList_ofList, Text.lines_unlines hfeed, hread.finish,
    List.nil_append]

/-- A hunk whose deleted and added lines read like file headers, with a blank context line and a
remark after its last line. -/
def imitatingHunk : WrittenHunk where
  oldStart := 7
  oldCount := 2
  newStart := 7
  newCount := 3
  oldShort := false
  newShort := true
  heading := ⟨" f".toList, by decide⟩
  body := [.deleted ⟨"-- a/x".toList, by decide⟩, .added ⟨"++ b/x".toList, by decide⟩, .blank,
    .added ⟨"@@ -1 +1 @@".toList, by decide⟩, .remark ⟨" end".toList, by decide⟩]
  oldCount_eq := rfl
  newCount_eq := rfl
  old_fits := by decide
  new_fits := by decide

/-- A new file with that hunk. -/
def imitatingFile : WrittenFile where
  git := some ⟨"a/q b/q".toList, by decide⟩
  extended := [⟨"new file mode 100644".toList, by decide⟩]
  swapped := false
  oldPath := none
  newPath := some {
    text := ['q']
    no_feed := by decide
    no_tab := by decide
    no_tail := by
      intro c hc
      obtain rfl : 'q' = c := Option.some.inj hc
      decide }
  hunks := [imitatingHunk]
  extended_plain := by decide
  hunks_ne_nil := by decide

theorem imitatingFile_read_back :
    diffText [imitatingFile] =
        "diff --git a/q b/q\nnew file mode 100644\n--- /dev/null\n+++ b/q\n@@ -7,2 +7,3 @@ f\n" ++
          "--- a/x\n+++ b/x\n\n+@@ -1 +1 @@\n\\ end\n" ∧
      Patch.ofText (diffText [imitatingFile]) =
        { files :=
            [{ newPath := some "q", hunks := [⟨7, 2, 7, 3, [7, 9], [7]⟩], hasHeader := true }]
          errors := [] } :=
  ⟨by decide, (ofText_diffText [imitatingFile]).1⟩

end CodeImpact.Patch
