import CodeImpact.Proofs.DiffReading

/-!
# Rejected hunks

A line that starts like a hunk header and cannot be read is one error. The lines behind it are read
like all lines outside bodies, so they are skipped unless they read like the header of a file. What
follows is read as if the rejected hunk were not there; only the line numbers of later errors move.
-/

namespace CodeImpact

/-- An error that stands some lines further down. -/
def PatchError.moved (d : Nat) (e : PatchError) : PatchError :=
  { e with line := e.line + d }

namespace Patch

/-- A line that starts like the line of a body. -/
def StartsLikeBody (line : List Char) : Prop :=
  ∃ c ∈ ['+', '-', ' ', '\\'], [c] <+: line

/-- A line that reads like the header of a file. -/
def NamesFile (line : List Char) : Prop :=
  "--- ".toList <+: line ∨ "+++ ".toList <+: line

instance : DecidablePred NamesFile := fun _ => inferInstanceAs (Decidable (_ ∨ _))

/-- A line that opens a hunk or a section. -/
def Opens (line : List Char) : Prop :=
  "@@".toList <+: line ∨ "diff --git ".toList <+: line

/-- No such line starts with another character. -/
theorem StartsLikeBody.not_lead {line : List Char} (h : StartsLikeBody line) {c : Char}
    (hc : c ∉ ['+', '-', ' ', '\\']) (lead : List Char) : ¬ c :: lead <+: line := by
  obtain ⟨first, hfirst, rest, rfl⟩ := h
  intro hpre
  obtain ⟨heq, -⟩ := List.cons_prefix_cons.1 hpre
  exact hc (heq ▸ hfirst)

/-- Lines of a body mean nothing outside of it, unless they name a file. -/
theorem StartsLikeBody.isPlain {line : List Char} (h : StartsLikeBody line)
    (hfile : ¬ NamesFile line) : IsPlain line := by
  intro lead hlead hpre
  simp only [headerLeads, List.mem_cons, List.not_mem_nil, or_false] at hlead
  rcases hlead with rfl | rfl | rfl | rfl
  · exact h.not_lead (by decide) _ hpre
  · exact hfile (.inl hpre)
  · exact hfile (.inr hpre)
  · exact h.not_lead (by decide) _ hpre

namespace Reading

variable {r q : Reading} {line : List Char}

/-! ## What a line can do -/

theorem readHeader_range (r : Reading) (number : Nat) (rest : List Char) :
    r.readHeader number ("@@".toList ++ rest) = r.openHunk number ("@@".toList ++ rest) := by
  have hgit : Text.afterLead? "diff --git ".toList ("@@".toList ++ rest) = none := rfl
  have hold : Text.afterLead? "--- ".toList ("@@".toList ++ rest) = none := rfl
  have hnew : Text.afterLead? "+++ ".toList ("@@".toList ++ rest) = none := rfl
  rw [readHeader, hgit, hold, hnew]
  rfl

/-- Outside bodies, a line is read by the header that it starts with, or is skipped. -/
theorem readHeader_cases (line : List Char) :
    (∃ rest, line = "diff --git ".toList ++ rest ∧
      ∀ (r : Reading) n, r.readHeader n line = r.openGit rest) ∨
    (∃ rest, line = "--- ".toList ++ rest ∧
      ∀ (r : Reading) n, r.readHeader n line = r.setOld rest) ∨
    (∃ rest, line = "+++ ".toList ++ rest ∧
      ∀ (r : Reading) n, r.readHeader n line = r.setNew rest) ∨
    ("@@".toList <+: line ∧ ∀ (r : Reading) n, r.readHeader n line = r.openHunk n line) ∨
    (IsPlain line ∧ ∀ (r : Reading) n, r.readHeader n line = r) := by
  by_cases hgit : "diff --git ".toList <+: line
  · obtain ⟨rest, rfl⟩ := hgit
    exact .inl ⟨rest, rfl, fun r n => r.readHeader_git n rest⟩
  by_cases hold : "--- ".toList <+: line
  · obtain ⟨rest, rfl⟩ := hold
    exact .inr (.inl ⟨rest, rfl, fun r n => r.readHeader_old n rest⟩)
  by_cases hnew : "+++ ".toList <+: line
  · obtain ⟨rest, rfl⟩ := hnew
    exact .inr (.inr (.inl ⟨rest, rfl, fun r n => r.readHeader_new n rest⟩))
  by_cases hrange : "@@".toList <+: line
  · obtain ⟨rest, rfl⟩ := hrange
    exact .inr (.inr (.inr (.inl
      ⟨List.prefix_append _ rest, fun r n => r.readHeader_range n rest⟩)))
  have hplain : IsPlain line := by
    intro lead hlead
    simp only [headerLeads, List.mem_cons, List.not_mem_nil, or_false] at hlead
    rcases hlead with rfl | rfl | rfl | rfl <;> assumption
  exact .inr (.inr (.inr (.inr ⟨hplain, fun r n => r.readHeader_plain n hplain⟩)))

/-- Readings with the same open hunk are both in a body or both outside. -/
theorem readLine_pair {P : Reading → Reading → Prop} {m n : Nat} (hhunk : q.hunk = r.hunk)
    (hbody : ∀ o, P { r with hunk := some o } { q with hunk := some o })
    (hheader : P (r.readHeader m line) (q.readHeader n line)) :
    P (r.readLine m line) (q.readLine n line) := by
  unfold readLine
  rw [hhunk]
  cases r.hunk with
  | none => exact hheader
  | some o =>
    by_cases ho : o.inBody = true
    · simp only [ho, if_true]
      exact hbody (o.addLine line)
    · simp only [ho]
      exact hheader

/-! ## Closing the last hunk -/

@[simp] theorem hunk_closeHunk (r : Reading) : r.closeHunk.hunk = none := by
  cases ho : r.hunk <;> simp [closeHunk, ho]

@[simp] theorem errors_closeHunk (r : Reading) : r.closeHunk.errors = r.errors := by
  cases ho : r.hunk <;> simp [closeHunk, ho]

@[simp] theorem closeHunk_closeHunk (r : Reading) : r.closeHunk.closeHunk = r.closeHunk := by
  rw [closeHunk, hunk_closeHunk]

theorem finish_closeHunk (r : Reading) : r.closeHunk.finish = r.finish := by
  rw [finish, finish, closeHunk_closeHunk]

/-- A line that opens something closes the last hunk first. -/
theorem readLine_closeHunk (h : r.Idle) (number : Nat) (hline : Opens line) :
    r.closeHunk.readLine number line = r.readLine number line := by
  rw [readLine_of_idle h, readLine_of_idle (idle_of_none r.hunk_closeHunk)]
  rcases hline with ⟨rest, rfl⟩ | ⟨rest, rfl⟩
  · rw [readHeader_range, readHeader_range, openHunk, openHunk, closeHunk_closeHunk]
  · rw [readHeader_git, readHeader_git, openGit, openGit, closeHunk_closeHunk]

/-- Before a line that opens something it does not matter whether the last hunk was closed. -/
theorem finish_readLines_closeHunk (h : r.Idle) (number : Nat) {ls : List (List Char)}
    (hnext : ∀ line ∈ ls.head?, Opens line) :
    (r.closeHunk.readLines number ls).finish = (r.readLines number ls).finish := by
  cases ls with
  | nil => exact finish_closeHunk r
  | cons line ls => rw [readLines, readLines, readLine_closeHunk h number (hnext line rfl)]

/-! ## Readings that agree on what is open -/

/-- Readings with the same files so far, but for those that the second one finished earlier. -/
structure Agree (earlier : List FilePatch) (r q : Reading) : Prop where
  files : q.files = earlier ++ r.files
  current : q.current = r.current
  hunk : q.hunk = r.hunk

variable {earlier : List FilePatch}

theorem Agree.closeHunk (h : Agree earlier r q) : Agree earlier r.closeHunk q.closeHunk := by
  obtain ⟨hfiles, hcurrent, hhunk⟩ := h
  unfold Reading.closeHunk
  rw [hhunk]
  cases r.hunk with
  | none => exact ⟨hfiles, hcurrent, hhunk⟩
  | some o => exact ⟨hfiles, by simp [hcurrent], rfl⟩

theorem Agree.closeFile (h : Agree earlier r q) : Agree earlier r.closeFile q.closeFile :=
  ⟨by simp [Reading.closeFile, h.files, h.current], rfl, h.hunk⟩

theorem Agree.withCurrent (h : Agree earlier r q) (current : Option FilePatch) :
    Agree earlier { r with current := current } { q with current := current } :=
  ⟨h.files, rfl, h.hunk⟩

theorem Agree.openGit (h : Agree earlier r q) (rest : List Char) :
    Agree earlier (r.openGit rest) (q.openGit rest) :=
  h.closeHunk.closeFile.withCurrent _

theorem Agree.setOld (h : Agree earlier r q) (rest : List Char) :
    Agree earlier (r.setOld rest) (q.setOld rest) := by
  unfold Reading.setOld
  simp only [h.closeHunk.current]
  split
  · exact h.closeHunk.closeFile.withCurrent _
  · rw [h.closeHunk.current]
    exact h.closeHunk.withCurrent _

theorem Agree.setNew (h : Agree earlier r q) (rest : List Char) :
    Agree earlier (r.setNew rest) (q.setNew rest) := by
  unfold Reading.setNew
  rw [h.current]
  exact h.withCurrent _

theorem Agree.openHunk (h : Agree earlier r q) (m n : Nat) (line : List Char) :
    Agree earlier (r.openHunk m line) (q.openHunk n line) := by
  obtain ⟨hfiles, hcurrent, hhunk⟩ := h.closeHunk
  unfold Reading.openHunk
  cases header? line with
  | none => exact ⟨hfiles, hcurrent, hhunk⟩
  | some o => exact ⟨hfiles, hcurrent, rfl⟩

/-- One line outside bodies: the two readings go on agreeing. -/
theorem Agree.readHeader (h : Agree earlier r q) (m n : Nat) (line : List Char) :
    Agree earlier (r.readHeader m line) (q.readHeader n line) := by
  obtain ⟨rest, -, hread⟩ | ⟨rest, -, hread⟩ | ⟨rest, -, hread⟩ | ⟨-, hread⟩ | ⟨-, hread⟩ :=
    readHeader_cases line
  all_goals rw [hread, hread]
  · exact h.openGit rest
  · exact h.setOld rest
  · exact h.setNew rest
  · exact h.openHunk m n line
  · exact h

theorem Agree.readLine (h : Agree earlier r q) (m n : Nat) (line : List Char) :
    Agree earlier (r.readLine m line) (q.readLine n line) :=
  readLine_pair h.hunk (fun _ => ⟨h.files, h.current, rfl⟩) (h.readHeader m n line)

/-- A run over lines: the two readings go on agreeing. -/
theorem Agree.readLines (h : Agree earlier r q) (m n : Nat) (ls : List (List Char)) :
    Agree earlier (r.readLines m ls) (q.readLines n ls) := by
  induction ls generalizing r q m n with
  | nil => exact h
  | cons line ls ih => exact ih (h.readLine m n line) (m + 1) (n + 1)

theorem Agree.finish (h : Agree earlier r q) : q.finish.files = earlier ++ r.finish.files :=
  h.closeHunk.closeFile.files

/-! ## Errors -/

/-- No hunk is open, and the errors are these. -/
def ClosedWith (r : Reading) (errors : List PatchError) : Prop :=
  r.hunk = none ∧ r.errors = errors

theorem closedWith_closeHunk (r : Reading) : r.closeHunk.ClosedWith r.errors :=
  ⟨hunk_closeHunk r, errors_closeHunk r⟩

theorem closedWith_openGit (r : Reading) (rest : List Char) :
    (r.openGit rest).ClosedWith r.errors :=
  r.closedWith_closeHunk

theorem closedWith_setOld (r : Reading) (rest : List Char) :
    (r.setOld rest).ClosedWith r.errors := by
  unfold setOld
  dsimp only
  split
  · exact r.closedWith_closeHunk
  · exact r.closedWith_closeHunk

theorem closedWith_openHunk (r : Reading) (number : Nat) (h : header? line = none) :
    (r.openHunk number line).ClosedWith (r.errors ++ [⟨number, String.ofList line⟩]) := by
  rw [openHunk, h]
  exact ⟨hunk_closeHunk r, congrArg (· ++ _) (errors_closeHunk r)⟩

/-- Readings with the same open hunk, and with the same errors but for one in between, after which
they stand further down. -/
structure Shifted (d : Nat) (early : List PatchError) (e : PatchError) (r q : Reading) : Prop where
  hunk : q.hunk = r.hunk
  errors : ∃ late, r.errors = early ++ late ∧ q.errors = early ++ e :: late.map (·.moved d)

variable {d : Nat} {early : List PatchError} {e : PatchError}

theorem Shifted.closed {r' q' : Reading} (h : Shifted d early e r q) (hr : r'.ClosedWith r.errors)
    (hq : q'.ClosedWith q.errors) : Shifted d early e r' q' where
  hunk := hq.1.trans hr.1.symm
  errors := by
    rw [hr.2, hq.2]
    exact h.errors

theorem Shifted.openHunk (h : Shifted d early e r q) (n : Nat) (line : List Char) :
    Shifted d early e (r.openHunk n line) (q.openHunk (n + d) line) := by
  obtain ⟨-, late, hr, hq⟩ := h
  cases hheader : header? line with
  | none =>
    obtain ⟨hhunk, herrors⟩ := r.closedWith_openHunk n hheader
    obtain ⟨hhunk', herrors'⟩ := q.closedWith_openHunk (n + d) hheader
    refine ⟨hhunk'.trans hhunk.symm, late ++ [⟨n, String.ofList line⟩], ?_, ?_⟩
    · rw [herrors, hr, List.append_assoc]
    · rw [herrors', hq]
      simp [PatchError.moved]
  | some o =>
    refine ⟨?_, late, ?_, ?_⟩ <;> simp [Reading.openHunk, hheader, hr, hq]

theorem Shifted.readHeader (h : Shifted d early e r q) (n : Nat) (line : List Char) :
    Shifted d early e (r.readHeader n line) (q.readHeader (n + d) line) := by
  obtain ⟨rest, -, hread⟩ | ⟨rest, -, hread⟩ | ⟨rest, -, hread⟩ | ⟨-, hread⟩ | ⟨-, hread⟩ :=
    readHeader_cases line
  all_goals rw [hread, hread]
  · exact h.closed (r.closedWith_openGit rest) (q.closedWith_openGit rest)
  · exact h.closed (r.closedWith_setOld rest) (q.closedWith_setOld rest)
  · exact ⟨h.hunk, h.errors⟩
  · exact h.openHunk n line
  · exact h

/-- One line: errors stay as far behind as they were. -/
theorem Shifted.readLine (h : Shifted d early e r q) (n : Nat) (line : List Char) :
    Shifted d early e (r.readLine n line) (q.readLine (n + d) line) :=
  readLine_pair h.hunk (fun _ => ⟨rfl, h.errors⟩) (h.readHeader n line)

/-- A run over lines: errors stay as far behind as they were. -/
theorem Shifted.readLines (h : Shifted d early e r q) (n : Nat) (ls : List (List Char)) :
    Shifted d early e (r.readLines n ls) (q.readLines (n + d) ls) := by
  induction ls generalizing r q n with
  | nil => exact h
  | cons line ls ih =>
    rw [Reading.readLines, Reading.readLines, Nat.add_right_comm]
    exact ih (h.readLine n line) (n + 1)

theorem errors_finish (r : Reading) : r.finish.errors = r.errors :=
  errors_closeHunk r

/-! ## The rejected hunk -/

/-- A line of a rejected hunk opens no hunk and is no error, whatever it reads like. -/
theorem readLine_rejectedBody {errors : List PatchError} (h : r.ClosedWith errors) (n : Nat)
    (hline : StartsLikeBody line) : (r.readLine n line).ClosedWith errors := by
  rw [readLine_of_idle (idle_of_none h.1)]
  obtain ⟨rest, -, hread⟩ | ⟨rest, -, hread⟩ | ⟨rest, -, hread⟩ | ⟨hrange, hread⟩ | ⟨-, hread⟩ :=
    readHeader_cases line
  all_goals rw [hread]
  · exact h.2 ▸ r.closedWith_openGit rest
  · exact h.2 ▸ r.closedWith_setOld rest
  · exact h
  · exact absurd hrange (hline.not_lead (by decide) _)
  · exact h

/-- The body of a rejected hunk adds nothing. -/
theorem readLines_rejectedBody {errors : List PatchError} (h : r.ClosedWith errors) (n : Nat)
    {body : List (List Char)} (hbody : ∀ line ∈ body, StartsLikeBody line) :
    (r.readLines n body).ClosedWith errors := by
  induction body generalizing r n with
  | nil => exact h
  | cons line body ih =>
    obtain ⟨hline, hbody⟩ := List.forall_mem_cons.1 hbody
    exact ih (readLine_rejectedBody h n hline) (n + 1) hbody

/-- Of the lines of a rejected hunk, only those that read like headers of files say something about
the files. -/
theorem Agree.readLines_rejectedBody (h : Agree earlier r q) {errors : List PatchError}
    (hq : q.ClosedWith errors) (m n : Nat) {body : List (List Char)}
    (hbody : ∀ line ∈ body, StartsLikeBody line) :
    Agree earlier (r.readLines m (body.filter (NamesFile ·))) (q.readLines n body) := by
  induction body generalizing r q m n with
  | nil => exact h
  | cons line body ih =>
    obtain ⟨hline, hbody⟩ := List.forall_mem_cons.1 hbody
    by_cases hfile : NamesFile line
    · rw [List.filter_cons_of_pos (by simpa using hfile)]
      exact ih (h.readLine m n line) (readLine_rejectedBody hq n hline) (m + 1) (n + 1) hbody
    · have hskip : q.readLine n line = q := by
        rw [readLine_of_idle (idle_of_none hq.1), readHeader_plain _ _ (hline.isPlain hfile)]
      rw [List.filter_cons_of_neg (by simpa using hfile), Reading.readLines, hskip]
      exact ih h hq m (n + 1) hbody

/-- A rejected header closes the hunk before it, and is an error. -/
theorem readLine_rejected (h : r.Idle) (n : Nat) {header : List Char}
    (hheader : "@@".toList <+: header) (hrejected : header? header = none) :
    r.readLine n header =
      { r.closeHunk with errors := r.errors ++ [⟨n, String.ofList header⟩] } := by
  obtain ⟨rest, rfl⟩ := hheader
  rw [readLine_of_idle h, readHeader_range, openHunk, hrejected]
  simp

variable {header : List Char} {body : List (List Char)}

theorem closedWith_rejected (h : r.Idle) (n : Nat) (hheader : "@@".toList <+: header)
    (hrejected : header? header = none) :
    (r.readLine n header).ClosedWith (r.errors ++ [⟨n, String.ofList header⟩]) := by
  rw [readLine_rejected h n hheader hrejected]
  exact ⟨hunk_closeHunk r, rfl⟩

/-- A rejected hunk puts one error in front of the later ones, and moves their numbers. -/
theorem shifted_rejected (h : r.Idle) (n d : Nat) (hheader : "@@".toList <+: header)
    (hrejected : header? header = none) (hbody : ∀ line ∈ body, StartsLikeBody line) :
    Shifted d r.errors ⟨n, String.ofList header⟩ r.closeHunk (r.readLines n (header :: body)) := by
  obtain ⟨hhunk, herrors⟩ :=
    readLines_rejectedBody (closedWith_rejected h n hheader hrejected) (n + 1) hbody
  exact ⟨hhunk.trans (hunk_closeHunk r).symm, [], by simp, herrors⟩

/-- A rejected hunk adds no hunks, but lines of its body may name files. -/
theorem agree_rejected (h : r.Idle) (m n : Nat) (hheader : "@@".toList <+: header)
    (hrejected : header? header = none) (hbody : ∀ line ∈ body, StartsLikeBody line) :
    Agree [] (r.closeHunk.readLines m (body.filter (NamesFile ·)))
      (r.readLines n (header :: body)) := by
  have hagree : Agree [] r.closeHunk (r.readLine n header) := by
    rw [readLine_rejected h n hheader hrejected]
    exact ⟨rfl, rfl, rfl⟩
  exact hagree.readLines_rejectedBody (closedWith_rejected h n hheader hrejected) m (n + 1) hbody

end Reading

/-- A hunk that is rejected is one error, and moves the later errors by its lines. Its lines that
read like headers of files are read as such; without them, it changes no file. -/
theorem rejected_hunk_is_one_error {text text' : String} {before body after : List (List Char)}
    {header : List Char} (htext : Text.lines text.toList = before ++ after)
    (htext' : Text.lines text'.toList = before ++ header :: body ++ after)
    (hidle : (Reading.readLines {} 1 before).Idle) (hnext : ∀ line ∈ after.head?, Opens line)
    (hheader : "@@".toList <+: header) (hrejected : header? header = none)
    (hbody : ∀ line ∈ body, StartsLikeBody line) :
    (∃ late, (ofText text).errors = (Reading.readLines {} 1 before).errors ++ late ∧
      (ofText text').errors = (Reading.readLines {} 1 before).errors ++
        ⟨before.length + 1, String.ofList header⟩ :: late.map (·.moved (body.length + 1))) ∧
    (ofText text').files = ((Reading.readLines {} 1 before).closeHunk.readLines (before.length + 1)
      (body.filter (NamesFile ·) ++ after)).finish.files ∧
    ((∀ line ∈ body, ¬ NamesFile line) → (ofText text').files = (ofText text).files) := by
  let r := Reading.readLines {} 1 before
  let n := before.length + 1
  have hread : ofText text = (r.closeHunk.readLines n after).finish := by
    rw [ofText, htext, Reading.readLines_append, Nat.add_comm 1]
    exact (Reading.finish_readLines_closeHunk hidle n hnext).symm
  have hread' : ofText text' =
      ((r.readLines n (header :: body)).readLines (n + (body.length + 1)) after).finish := by
    rw [ofText, htext', Reading.readLines_append, Reading.readLines_append, List.length_append,
      Nat.add_comm 1, Nat.add_comm 1, Nat.add_right_comm]
    rfl
  have hfiles : (ofText text').files =
      (r.closeHunk.readLines n (body.filter (NamesFile ·) ++ after)).finish.files := by
    rw [hread', Reading.readLines_append]
    exact ((Reading.agree_rejected hidle n n hheader hrejected hbody).readLines _ _ after).finish
  refine ⟨?_, hfiles, fun hfile => ?_⟩
  · obtain ⟨late, hlate, hlate'⟩ := ((Reading.shifted_rejected hidle n (body.length + 1) hheader
      hrejected hbody).readLines n after).errors
    rw [hread, hread', Reading.errors_finish, Reading.errors_finish]
    exact ⟨late, hlate, hlate'⟩
  · have hnone : body.filter (NamesFile ·) = [] :=
      List.filter_eq_nil_iff.2 fun line hline => by simpa using hfile line hline
    rw [hfiles, hread, hnone, List.nil_append]

/-- The first hunk of a file. -/
def firstHunk : List String :=
  ["--- a/q.sql", "+++ b/q.sql", "@@ -1 +1 @@", "-x", "+y"]

/-- A later hunk of the file. -/
def lateHunk : List String :=
  ["@@ -20 +20 @@", "-u", "+v"]

/-- Both hunks, with these lines between them. -/
def hunksAround (lines : List String) : String :=
  String.ofList (Text.unlines ((firstHunk ++ lines ++ lateHunk).map String.toList))

theorem lines_hunksAround_nil : Text.lines (hunksAround []).toList =
    firstHunk.map String.toList ++ lateHunk.map String.toList := by
  decide

theorem idle_firstHunk : (Reading.readLines {} 1 (firstHunk.map String.toList)).Idle := by
  have hbody : (Reading.readLines {} 1 (firstHunk.map String.toList)).hunk.all (!·.inBody) := by
    decide
  intro o ho
  rw [ho] at hbody
  simpa using hbody

theorem opens_lateHunk : ∀ line ∈ (lateHunk.map String.toList).head?, Opens line := by
  intro line hline
  obtain rfl := Option.some.inj hline
  exact .inl ⟨_, rfl⟩

/-- A deleted line and a remark behind a rejected header. -/
theorem rejected_hunk_between_hunks :
    (ofText (hunksAround ["@@ -9,x @@", "-old", "\\ end"])).files =
        (ofText (hunksAround [])).files ∧
      (ofText (hunksAround ["@@ -9,x @@", "-old", "\\ end"])).errors = [⟨6, "@@ -9,x @@"⟩] := by
  let body := ["-old".toList, "\\ end".toList]
  have htext' : Text.lines (hunksAround ["@@ -9,x @@", "-old", "\\ end"]).toList =
      firstHunk.map String.toList ++ "@@ -9,x @@".toList :: body ++
        lateHunk.map String.toList := by decide
  have hbody : ∀ line ∈ body, StartsLikeBody line :=
    List.forall_mem_cons.2 ⟨⟨'-', by decide, _, rfl⟩,
      List.forall_mem_singleton.2 ⟨'\\', by decide, _, rfl⟩⟩
  obtain ⟨⟨late, hlate, hlate'⟩, -, hfiles⟩ := rejected_hunk_is_one_error
    lines_hunksAround_nil htext' idle_firstHunk opens_lateHunk ⟨_, rfl⟩ (by decide) hbody
  have hearly : (Reading.readLines {} 1 (firstHunk.map String.toList)).errors = [] := by
    decide
  have hnone : (ofText (hunksAround [])).errors = [] := by decide
  rw [hearly, hnone] at hlate
  obtain rfl : [] = late := hlate
  rw [hearly] at hlate'
  have hfile : ∀ line ∈ body, ¬ NamesFile line :=
    List.forall_mem_cons.2 ⟨by decide, List.forall_mem_singleton.2 (by decide)⟩
  exact ⟨hfiles hfile, hlate'⟩

/-- A deleted comment behind a rejected header opens a file, which takes the hunk that follows. -/
theorem rejected_comment_opens_file :
    (Text.lines (hunksAround []).toList =
        firstHunk.map String.toList ++ lateHunk.map String.toList ∧
      Text.lines (hunksAround ["@@ -9,x @@", "--- drop the old index"]).toList =
        firstHunk.map String.toList ++ "@@ -9,x @@".toList :: ["--- drop the old index".toList] ++
          lateHunk.map String.toList) ∧
    (Reading.readLines {} 1 (firstHunk.map String.toList)).Idle ∧
    (∀ line ∈ (lateHunk.map String.toList).head?, Opens line) ∧
    header? "@@ -9,x @@".toList = none ∧ StartsLikeBody "--- drop the old index".toList ∧
    (ofText (hunksAround ["@@ -9,x @@", "--- drop the old index"])).files ≠
      (ofText (hunksAround [])).files ∧
    (ofText (hunksAround ["@@ -9,x @@", "--- drop the old index"])).files.map (·.hunks.length) =
      [1, 1] := by
  have hsplit : (ofText (hunksAround ["@@ -9,x @@", "--- drop the old index"])).files.map
      (·.hunks.length) = [1, 1] := by decide
  have hwhole : (ofText (hunksAround [])).files.map (·.hunks.length) = [2] := by decide
  refine ⟨⟨lines_hunksAround_nil, by decide⟩, idle_firstHunk, opens_lateHunk,
    by decide, ⟨'-', by decide, _, rfl⟩, fun heq => ?_, hsplit⟩
  rw [heq, hwhole] at hsplit
  exact absurd hsplit (by decide)

end Patch

end CodeImpact
