import CodeImpact.Proofs.MergeLaws
import CodeImpact.Proofs.RejectedHunks

/-!
# Sections without hunks

A change of mode, a binary file or a plain rename has a line that names the file on both sides and
no hunks, so its path is known from that line only. The line is cut at the first ` b/`, and the
rest loses a letter once more. So the path is kept unless it holds ` b/`, starts with one of the
letters or is the null device.
-/

namespace CodeImpact.Patch

/-! ## Paths in the line that opens a section -/

/-- A section with the line of the version control system and no hunks. -/
structure BareSection where
  path : HeaderPath
  no_lead : ∀ c ∈ path.text.head?, Text.isBlank c = false ∧ c ≠ '\"'
  /-- The lines behind that one. -/
  extended : List Line
  extended_plain : ∀ line ∈ extended, IsPlain line

namespace BareSection

/-- What follows `diff --git`. -/
def sides (s : BareSection) : List Char :=
  "a/".toList ++ s.path.text ++ (" b/".toList ++ s.path.text)

def lines (s : BareSection) : List (List Char) :=
  ("diff --git ".toList ++ s.sides) :: s.extended.map Subtype.val

/-- The path that the section names. -/
def name (s : BareSection) : String :=
  String.ofList s.path.text

/-- The line can be cut between its sides only. -/
def OneCut (s : BareSection) : Prop :=
  ¬ " b/".toList <:+: s.path.text

instance : DecidablePred OneCut := fun _ => inferInstanceAs (Decidable (¬ _ <:+: _))

/-- The path is not changed by what is done to the new side. -/
structure KeepsPath (s : BareSection) : Prop where
  one_cut : s.OneCut
  no_old_letter : ¬ "a/".toList <+: s.path.text
  no_new_letter : ¬ "b/".toList <+: s.path.text
  not_null : s.path.text ≠ "/dev/null".toList

end BareSection

/-- The file that the line of the version control system opens. -/
def gitFile (rest : List Char) : FilePatch :=
  let sides := (Text.cut? " b/".toList rest).map fun sides =>
    (headerPath? sides.1, headerPath? sides.2)
  { oldPath := sides.bind (·.1)
    newPath := sides.bind (·.2)
    hasHeader := true }

/-- The line that opens a section names both paths, and closes what was open. -/
theorem Reading.openGit_eq (r : Reading) (rest : List Char) :
    r.openGit rest = { r.closeHunk.closeFile with current := some (gitFile rest) } := by
  unfold openGit gitFile
  cases Text.cut? " b/".toList rest <;> rfl

/-- A path is no longer than the text it is read from. -/
theorem length_headerPath?_le {raw : List Char} {path : String} (h : headerPath? raw = some path) :
    path.toList.length ≤ raw.length := by
  have hletter : ∀ (letter : Char) {t u : List Char}, u.length ≤ t.length →
      ((Text.afterLead? [letter, '/'] t).getD u).length ≤ t.length := by
    intro letter t u hu
    cases hafter : Text.afterLead? [letter, '/'] t with
    | none => exact hu
    | some rest => exact Text.length_afterLead?_le hafter
  unfold headerPath? at h
  dsimp only at h
  split at h
  next => cases h
  next =>
    let line := raw.takeWhile (· ≠ '\t')
    let bare := (Text.trimBoth line).dropWhile (· = '\"')
    obtain rfl := Option.some.inj h
    rw [String.toList_ofList]
    calc _ ≤ (Text.dropEndWhile (· = '\"') bare).length :=
          hletter 'a' (hletter 'b' (Nat.le_refl _))
      _ ≤ bare.length := Text.length_dropEndWhile_le _ _
      _ ≤ (Text.trimBoth line).length := (List.dropWhile_sublist _).length_le
      _ ≤ line.length := Text.length_trimBoth_le _
      _ ≤ raw.length := (List.takeWhile_sublist _).length_le

/-- A path is kept if it does not start with one of the letters. -/
theorem withoutLetter_eq_iff {t : List Char} :
    (Text.afterLead? ['a', '/'] t).getD ((Text.afterLead? ['b', '/'] t).getD t) = t ↔
      ¬ ['a', '/'] <+: t ∧ ¬ ['b', '/'] <+: t := by
  have hshorter : ∀ {letter : Char} {rest : List Char},
      Text.afterLead? [letter, '/'] t = some rest → rest ≠ t := by
    rintro letter rest hafter rfl
    have hlength := congrArg List.length (Text.afterLead?_eq_some hafter)
    simp at hlength
    omega
  rw [← Text.afterLead?_eq_none_iff, ← Text.afterLead?_eq_none_iff]
  cases hold : Text.afterLead? ['a', '/'] t with
  | some rest => simpa using hshorter hold
  | none =>
    cases hnew : Text.afterLead? ['b', '/'] t with
    | some rest => simpa using hshorter hnew
    | none => simp

namespace BareSection

variable {s : BareSection}

/-- With one place to cut at, the line is cut between its two sides. -/
theorem cut?_sides (h : s.OneCut) :
    Text.cut? " b/".toList s.sides = some ("a/".toList ++ s.path.text, s.path.text) := by
  refine Text.cut?_append_of_not_infix (fun hinfix => h ?_) s.path.text
  -- A separator can neither start in the first letter nor end in the ` b` of the next one.
  have hbehind : " b/".toList <:+: s.path.text ++ [' '] ++ ['b'] := by
    change " b/".toList <:+: 'a' :: '/' :: (s.path.text ++ [' ', 'b']) at hinfix
    simpa [List.infix_cons_iff] using hinfix
  have hend : ∀ {t : List Char} {c : Char}, " b/".toList <:+ t ++ [c] → c = '/' := by
    rintro t c ⟨u, hu⟩
    simpa using (congrArg List.getLast? hu).symm
  rw [List.infix_concat_iff, List.infix_concat_iff] at hbehind
  rcases hbehind with hsuffix | hsuffix | hinside
  · exact absurd (hend hsuffix) (by decide)
  · exact absurd (hend hsuffix) (by decide)
  · exact hinside

theorem old_side_iff : (gitFile s.sides).oldPath = some s.name ↔ s.OneCut := by
  constructor
  · rintro hpath ⟨lead, rest, hsplit⟩
    have hsides : s.sides =
        ("a/".toList ++ lead) ++ (" b/".toList ++ (rest ++ (" b/".toList ++ s.path.text))) := by
      rw [sides, ← hsplit]
      simp
    cases hcut : Text.cut? " b/".toList s.sides with
    | none =>
      rw [hsides] at hcut
      exact Text.cut?_ne_none _ _ _ hcut
    | some halves =>
      have hold : headerPath? halves.1 = some s.name := by
        simpa only [gitFile, hcut, Option.map_some, Option.bind_some] using hpath
      have hlong := length_headerPath?_le hold
      rw [hsides] at hcut
      have hshort := Text.length_le_of_cut? hcut
      have hlength := congrArg List.length hsplit
      simp [name] at hlong hshort hlength
      omega
  · intro h
    simp only [gitFile, cut?_sides h, Option.map_some, Option.bind_some]
    exact headerPath?_sideChars (.inl rfl) (some s.path)

/-- The new side is read without its letter, and may lose another one. -/
theorem new_side_iff (h : s.OneCut) : (gitFile s.sides).newPath = some s.name ↔ s.KeepsPath := by
  have hread : (gitFile s.sides).newPath = headerPath? s.path.text := by
    simp only [gitFile, cut?_sides h, Option.map_some, Option.bind_some]
  rw [hread, headerPath?_of_ends s.path.no_tab s.no_lead s.path.no_tail]
  constructor
  · intro hpath
    split at hpath
    next => cases hpath
    next hnull =>
      rw [Option.some.injEq, name, String.ofList_inj, withoutLetter_eq_iff] at hpath
      exact ⟨h, hpath.1, hpath.2, hnull⟩
  · rintro ⟨-, hold, hnew, hnull⟩
    rw [if_neg hnull, Option.some.injEq, name, String.ofList_inj, withoutLetter_eq_iff]
    exact ⟨hold, hnew⟩

/-- Both sides are the path of the section exactly if the new side keeps it. -/
theorem both_sides_iff :
    (gitFile s.sides).oldPath = some s.name ∧ (gitFile s.sides).newPath = some s.name ↔
      s.KeepsPath := by
  constructor
  · rintro ⟨hold, hnew⟩
    exact (new_side_iff (old_side_iff.1 hold)).1 hnew
  · intro h
    exact ⟨old_side_iff.2 h.one_cut, (new_side_iff h.one_cut).2 h⟩

end BareSection

/-! ## Sections of a diff -/

namespace Reading

variable {r : Reading}

/-- From the start of a section on, a diff is read as on its own. -/
theorem files_readLines_section (h : r.Idle) (number : Nat) {ls : List (List Char)}
    (hnext : ∀ line ∈ ls.head?, "diff --git ".toList <+: line) :
    (r.readLines number ls).finish.files =
      r.finish.files ++ (readLines {} 1 ls).finish.files := by
  cases ls with
  | nil => exact (List.append_nil _).symm
  | cons line ls =>
    obtain ⟨rest, rfl⟩ := hnext line rfl
    have hagree : Agree r.finish.files (openGit {} rest) (r.openGit rest) := by
      rw [openGit_eq, openGit_eq]
      exact ⟨(List.append_nil _).symm, rfl, hunk_closeHunk r⟩
    rw [readLines, readLines, readLine_of_idle h, readLine_of_idle (idle_of_none rfl),
      readHeader_git, readHeader_git]
    exact (hagree.readLines 2 (number + 1) ls).finish

/-- A section without hunks closes what is open, and leaves its file open. -/
theorem readLines_bareSection (h : r.Idle) (number : Nat) (s : BareSection) :
    r.readLines number s.lines =
      { r.closeHunk.closeFile with current := some (gitFile s.sides) } := by
  have hplain : ∀ line ∈ s.extended.map Subtype.val, IsPlain line := by
    rw [List.forall_mem_map]
    exact s.extended_plain
  have hclosed : { r.closeHunk.closeFile with current := some (gitFile s.sides) }.Idle :=
    idle_of_none (hunk_closeHunk r)
  rw [BareSection.lines, readLines, readLine_of_idle h, readHeader_git, openGit_eq]
  exact readLines_plain hclosed _ hplain

/-- A section without hunks is one file, whatever stands around it. -/
theorem files_bareSection (h : r.Idle) (m n : Nat) (s : BareSection) {after : List (List Char)}
    (hnext : ∀ line ∈ after.head?, "diff --git ".toList <+: line) :
    ((r.readLines m s.lines).readLines n after).finish.files =
      r.finish.files ++ gitFile s.sides :: (readLines {} 1 after).finish.files := by
  have hidle : (r.readLines m s.lines).Idle := by
    rw [readLines_bareSection h]
    exact idle_of_none (hunk_closeHunk r)
  have hfile : (r.readLines m s.lines).finish.files = r.finish.files ++ [gitFile s.sides] := by
    rw [readLines_bareSection h, finish, closeHunk]
    simp [closeFile, finish]
  rw [files_readLines_section hidle n hnext, hfile, List.append_assoc, List.singleton_append]

end Reading

/-- A section without hunks is read as one file, between those before and after it. Its old path is
the one that the section names unless that one holds a cut, and both are if the new side keeps it.
Then all functions of that path are sorted, with those of the other sections. -/
theorem bare_section_paths (s : BareSection) {text : String} {before after : List (List Char)}
    (htext : Text.lines text.toList = before ++ (s.lines ++ after))
    (hidle : (Reading.readLines {} 1 before).Idle)
    (hnext : ∀ line ∈ after.head?, "diff --git ".toList <+: line) :
    ∃ f : FilePatch,
      (ofText text).files = (Reading.readLines {} 1 before).finish.files ++
        f :: (Reading.readLines {} 1 after).finish.files ∧
      f.hasHeader = true ∧ f.hunks = [] ∧
      (f.oldPath = some s.name ↔ s.OneCut) ∧
      (f.oldPath = some s.name ∧ f.newPath = some s.name ↔ s.KeepsPath) ∧
      (s.KeepsPath → ∀ head base : CodeGraph,
        ChangeSet.ofPatch (ofText text) head base =
          ((ChangeSet.ofPatch (Reading.readLines {} 1 before).finish head base).merge
            (ChangeSet.classify [] head base s.name)).merge
              (ChangeSet.ofPatch (Reading.readLines {} 1 after).finish head base)) := by
  have hfiles : (ofText text).files = (Reading.readLines {} 1 before).finish.files ++
      gitFile s.sides :: (Reading.readLines {} 1 after).finish.files := by
    rw [ofText, htext, Reading.readLines_append, Reading.readLines_append]
    exact Reading.files_bareSection hidle _ _ s hnext
  refine ⟨gitFile s.sides, hfiles, rfl, rfl, BareSection.old_side_iff, BareSection.both_sides_iff,
    fun hkeeps head base => ?_⟩
  have hpath : (gitFile s.sides).path? = some s.name := by
    rw [FilePatch.path?, (BareSection.new_side_iff hkeeps.one_cut).2 hkeeps, Option.some_or]
  exact ChangeSet.ofPatch_of_section hfiles hpath head base

/-- A change of mode. -/
def modeChange (path : HeaderPath)
    (h : ∀ c ∈ path.text.head?, Text.isBlank c = false ∧ c ≠ '\"') : BareSection where
  path := path
  no_lead := h
  extended := [⟨"old mode 100644".toList, by decide⟩, ⟨"new mode 100755".toList, by decide⟩]
  extended_plain := by decide

/-- A change of mode of a file with a blank before a letter. -/
def blankPathChange : BareSection :=
  modeChange
    { text := "my b.ts".toList
      no_feed := by decide
      no_tab := by decide
      no_tail := by
        rintro c ⟨⟩
        decide }
    (by
      rintro c ⟨⟩
      decide)

/-- That change between a file with a hunk and another section. -/
def blankPathDiff : String :=
  String.ofList (Text.unlines (firstHunk.map String.toList ++
    (blankPathChange.lines ++ ["diff --git a/z b/z".toList])))

theorem blankPathChange_kept :
    blankPathChange.KeepsPath ∧
      (ofText blankPathDiff).files.map (fun f => (f.oldPath, f.newPath)) =
        [(some "q.sql", some "q.sql"), (some "my b.ts", some "my b.ts"), (some "z", some "z")] := by
  have htext : Text.lines blankPathDiff.toList = firstHunk.map String.toList ++
      (blankPathChange.lines ++ ["diff --git a/z b/z".toList]) := by decide +kernel
  have hnext : ∀ line ∈ ["diff --git a/z b/z".toList].head?, "diff --git ".toList <+: line := by
    rintro line ⟨⟩
    exact ⟨_, rfl⟩
  have hkeeps : blankPathChange.KeepsPath :=
    ⟨by decide +kernel, by decide +kernel, by decide +kernel, by decide +kernel⟩
  obtain ⟨f, hfiles, -, -, -, hpaths, -⟩ :=
    bare_section_paths blankPathChange htext idle_firstHunk hnext
  obtain ⟨hold, hnew⟩ := hpaths.2 hkeeps
  have hearly : (Reading.readLines {} 1 (firstHunk.map String.toList)).finish.files.map
      (fun f => (f.oldPath, f.newPath)) = [(some "q.sql", some "q.sql")] := by decide +kernel
  have hlate : (Reading.readLines {} 1 ["diff --git a/z b/z".toList]).finish.files.map
      (fun f => (f.oldPath, f.newPath)) = [(some "z", some "z")] := by decide +kernel
  refine ⟨hkeeps, ?_⟩
  rw [hfiles, List.map_append, List.map_cons, hearly, hlate, hold, hnew]
  rfl

/-- A change of mode of a file in a directory that has the name of a side. -/
def letterPathChange : BareSection :=
  modeChange
    { text := "a/foo.ts".toList
      no_feed := by decide
      no_tab := by decide
      no_tail := by
        rintro c ⟨⟩
        decide }
    (by
      rintro c ⟨⟩
      decide)

def letterPathDiff : String :=
  "diff --git a/a/foo.ts b/a/foo.ts\nold mode 100644\nnew mode 100755\n"

/-- The new path loses the directory, so the functions of another file are looked up. -/
theorem letterPathChange_not_kept :
    Text.lines letterPathDiff.toList = letterPathChange.lines ∧
      letterPathChange.name = "a/foo.ts" ∧
      ofText letterPathDiff =
        { files :=
            [{ oldPath := some "a/foo.ts", newPath := some "foo.ts", hasHeader := true }] } := by
  decide +kernel

end CodeImpact.Patch
