import CodeImpact.Proofs.Classification

/-!
# The hunks of one file

Asked for one file, a patch gives the hunks of each section with a path that ends with the path of
the file, or that the path of the file ends with. Where all such sections name the file itself, a
function is modified by the hunks of its own file. Where one of them names a longer path, the hunks
of that other file count as well.
-/

namespace CodeImpact

namespace FilePatch

variable {s : FilePatch} {path : String}

/-- The section names this path, as the old or the new one. -/
def Names (s : FilePatch) (path : String) : Prop :=
  s.oldPath = some path ∨ s.newPath = some path

/-- Of a path that the section names and the given one, one ends with the other. -/
def Related (s : FilePatch) (path : String) : Prop :=
  ∃ named, s.Names named ∧
    (Path.parts named <:+ Path.parts path ∨ Path.parts path <:+ Path.parts named)

instance : Decidable (s.Names path) :=
  inferInstanceAs (Decidable (_ ∨ _))

theorem Names.related (h : s.Names path) : s.Related path :=
  ⟨path, h, .inl List.suffix_rfl⟩

theorem touches_iff : s.touches path = true ↔ s.Related (plainPath path) := by
  simp only [touches, Related, Names, List.any_eq_true, List.mem_append, Option.mem_toList,
    Bool.or_eq_true, Path.endsWith, List.isSuffixOf_iff_suffix]

end FilePatch

namespace Patch

variable {p : Patch} {path : String}

/-- If all sections have headers, the hunks of a path are those of related sections. -/
theorem mem_hunksFor (hheaders : ∀ s ∈ p.files, s.hasHeader = true) {h : Hunk} :
    h ∈ p.hunksFor path ↔ ∃ s ∈ p.files, s.Related (plainPath path) ∧ h ∈ s.hunks := by
  unfold hunksFor
  split
  next hnone =>
    -- With a header in each section, no header at all means that there is no section.
    have hempty : ∀ s, s ∉ p.files := by
      intro s hs
      have hno := List.all_eq_true.1 hnone s hs
      rw [hheaders s hs] at hno
      exact Bool.false_ne_true hno
    simp [hempty]
  next =>
    simp only [List.mem_flatMap, List.mem_filter, FilePatch.touches_iff, and_assoc]

/-- A changing hunk of one of these sections overlaps the lines of a function. -/
def Hits (p : Patch) (sections : FilePatch → Prop) (before : FunctionRecord) : Prop :=
  ∃ s ∈ p.files, sections s ∧
    ∃ h ∈ s.hunks, h.hasChanges = true ∧ h.overlapsOld before.startLine before.endLine = true

/-- A function is touched iff a related section hits its lines. -/
theorem isTouched_hunksFor (hheaders : ∀ s ∈ p.files, s.hasHeader = true)
    {before : FunctionRecord} :
    ChangeSet.isTouched (p.hunksFor path) before = true ↔
      p.Hits (·.Related (plainPath path)) before := by
  simp only [ChangeSet.isTouched, List.any_eq_true, Bool.and_eq_true, mem_hunksFor hheaders, Hits]
  constructor
  · rintro ⟨h, ⟨s, hs, hrelated, hh⟩, hmeets⟩
    exact ⟨s, hs, hrelated, h, hh, hmeets⟩
  · rintro ⟨s, hs, hrelated, h, hh, hmeets⟩
    exact ⟨h, ⟨s, hs, hrelated, hh⟩, hmeets⟩

theorem Hits.imp {sections others : FilePatch → Prop} {before : FunctionRecord}
    (himp : ∀ s ∈ p.files, sections s → others s) (h : p.Hits sections before) :
    p.Hits others before := by
  obtain ⟨s, hs, hsection, hhunk⟩ := h
  exact ⟨s, hs, himp s hs hsection, hhunk⟩

end Patch

namespace ChangeSet

/-- A function of a known file that both snapshots have, as the head has it, if it was hit as the
base has it. -/
def IsHit (head base : CodeGraph) (path : String) (hit : FunctionRecord → Prop)
    (d : ChangedFunction) : Prop :=
  ∃ scope f b, head.StandsFor True path scope f ∧ base.StandsFor True path scope b ∧ hit b ∧
    f.describe = d

/-- The functions of a file that a diff modifies are those that a section with a related path hits;
if such sections name the file itself, they are those that the sections of the file hit. -/
theorem modified_by_related_sections (diff : String) (head base : CodeGraph) (path : String)
    (hheaders : ∀ s ∈ (Patch.ofText diff).files, s.hasHeader = true)
    (hknown : CodeGraph.IsKnown head base path) :
    (∀ d, d ∈ (ofPatchFile (.ofText diff) head base path).modified ↔
      IsHit head base path ((Patch.ofText diff).Hits (·.Related (plainPath path))) d) ∧
    ((∀ s ∈ (Patch.ofText diff).files,
        s.Related (plainPath path) → s.Names (plainPath path)) →
      ∀ d, d ∈ (ofPatchFile (.ofText diff) head base path).modified ↔
        IsHit head base path ((Patch.ofText diff).Hits (·.Names (plainPath path))) d) := by
  have hrelated : ∀ d, d ∈ (ofPatchFile (.ofText diff) head base path).modified ↔
      IsHit head base path ((Patch.ofText diff).Hits (·.Related (plainPath path))) d := by
    intro d
    rw [ofPatchFile, mem_modified_classify, eq_true hknown]
    simp only [Patch.isTouched_hunksFor hheaders, IsHit]
  refine ⟨hrelated, fun hnamed d => (hrelated d).trans ?_⟩
  have hhits : ∀ before, (Patch.ofText diff).Hits (·.Related (plainPath path)) before ↔
      (Patch.ofText diff).Hits (·.Names (plainPath path)) before := fun before =>
    ⟨Patch.Hits.imp hnamed, Patch.Hits.imp fun _ _ => FilePatch.Names.related⟩
  simp only [IsHit, hhits]

/-- A diff that changes the second line of a file. -/
def secondLineDiff (path : String) : String :=
  "--- a/" ++ path ++ "\n+++ b/" ++ path ++ "\n@@ -2 +2 @@\n-x\n+y\n"

/-- The section of that diff. -/
def secondLineSection (path : String) : FilePatch where
  oldPath := some path
  newPath := some path
  hunks := [⟨2, 1, 2, 1, [2], [2]⟩]
  hasHeader := true

/-- Two files, the path of one of which ends with the path of the other. -/
def nestedPaths : CodeGraph :=
  snapshot [("src/a.ts", [("main", 1, 3)]), ("lib/src/a.ts", [("helper", 1, 3)])]

theorem longer_path_modified_by_own_section :
    let diff := secondLineDiff "b.ts" ++ secondLineDiff "lib/src/a.ts"
    (∀ s ∈ (Patch.ofText diff).files, s.hasHeader = true) ∧
      nestedPaths.IsKnown nestedPaths "lib/src/a.ts" ∧
      (∀ s ∈ (Patch.ofText diff).files,
        s.Related "lib/src/a.ts" → s.Names "lib/src/a.ts") ∧
      IsHit nestedPaths nestedPaths "lib/src/a.ts"
        ((Patch.ofText diff).Hits (·.Names "lib/src/a.ts"))
        (placedFunction "/r/lib/src/a.ts" "helper" 1 3).describe := by
  intro diff
  have hread : Patch.ofText diff =
      { files := [secondLineSection "b.ts", secondLineSection "lib/src/a.ts"] } := by
    decide +kernel
  have hheaders : ∀ s ∈ (Patch.ofText diff).files, s.hasHeader = true := by
    rw [hread]
    decide
  have hknown : nestedPaths.IsKnown nestedPaths "lib/src/a.ts" :=
    CodeGraph.hasFile_or_iff.1 (by decide)
  have htouched : ∀ s ∈ (Patch.ofText diff).files,
      s.touches "lib/src/a.ts" = true → s.Names "lib/src/a.ts" := by
    rw [hread]
    decide
  have hnamed : ∀ s ∈ (Patch.ofText diff).files,
      s.Related "lib/src/a.ts" → s.Names "lib/src/a.ts" :=
    fun s hs hrelated => htouched s hs (FilePatch.touches_iff.2 hrelated)
  have hmodified := (modified_by_related_sections diff nestedPaths nestedPaths
    "lib/src/a.ts" hheaders hknown).2 hnamed
  refine ⟨hheaders, hknown, hnamed, (hmodified _).1 ?_⟩
  rw [hread]
  decide

/-- A diff of the longer path alone modifies the file with the shorter one, though not when all
files of the diff are asked for. -/
theorem shorter_path_modified_by_other_section :
    let p := Patch.ofText (secondLineDiff "lib/src/a.ts")
    (∀ s ∈ p.files, s.hasHeader = true ∧ ¬ s.Names "src/a.ts") ∧
      nestedPaths.IsKnown nestedPaths "src/a.ts" ∧
      (ofPatchFile p nestedPaths nestedPaths "src/a.ts").modified.map (·.id) =
        ["/r/src/a.ts::main"] ∧
      (ofPatch p nestedPaths nestedPaths).modified.map (·.id) =
        ["/r/lib/src/a.ts::helper"] := by
  intro p
  have hread : p = { files := [secondLineSection "lib/src/a.ts"] } := by decide +kernel
  rw [hread]
  refine ⟨?_, CodeGraph.hasFile_or_iff.1 ?_, ?_, ?_⟩
  all_goals decide

end ChangeSet

end CodeImpact
