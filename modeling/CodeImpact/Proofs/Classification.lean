import CodeImpact.Change.Classify
import CodeImpact.Proofs.Table
import CodeImpact.Proofs.Text

/-!
# Added, modified and deleted functions

The functions of a file are told apart by their scopes: those of the head alone are added, those of
the base alone are deleted, and of those in both the ones that a change meets in the base are
modified. No scope is in two buckets, and each bucket is in the order of its scopes.
-/

namespace CodeImpact

theorem plainPath_idem (path : String) : plainPath (plainPath path) = plainPath path := by
  unfold plainPath
  rw [String.toList_ofList, Text.dropAllLeads_idem]

/-! ## The functions of a file -/

namespace CodeGraph

variable {g : CodeGraph} {path scope : String} {f : FunctionRecord}

/-- One of two snapshots has a file with this path under its root. -/
def IsKnown (head base : CodeGraph) (path : String) : Prop :=
  ∃ file ∈ head.files.values ++ base.files.values, file.path = plainPath path

/-- The function lies in the file that a path names. A known path is one under the root; any other
path is the end of a path. -/
def LiesIn (g : CodeGraph) (known : Prop) (path : String) (f : FunctionRecord) : Prop :=
  (known ∧ ∃ file ∈ g.files.values, file.path = plainPath path ∧ file.absolutePath = f.file) ∨
    (¬ known ∧ plainPath path ≠ "" ∧ Path.parts (plainPath path) <:+ Path.parts f.file)

/-- The function that stands for a scope of a file: of all with this scope the one with the greatest
key. -/
def StandsFor (g : CodeGraph) (known : Prop) (path scope : String) (f : FunctionRecord) : Prop :=
  ∃ key, g.functions.get? key = some f ∧ g.LiesIn known path f ∧ f.scope = scope ∧
    ∀ other f', g.functions.get? other = some f' → g.LiesIn known path f' → f'.scope = scope →
      other ≤ key

theorem StandsFor.fullName_eq {known : Prop} (h : g.StandsFor known path scope f) :
    f.describe.fullName = scope := by
  obtain ⟨_, _, _, hscope, _⟩ := h
  exact hscope

theorem hasFile_or_iff {head base : CodeGraph} :
    (head.hasFile path || base.hasFile path) = true ↔ IsKnown head base path := by
  simp only [hasFile, IsKnown, Bool.or_eq_true, List.any_eq_true, decide_eq_true_eq,
    List.mem_append, or_and_right, exists_or]

/-- Whether a function is one of a file, as the query for a file's functions decides it. -/
def isIn (g : CodeGraph) (path : String) (exact : Bool) (f : FunctionRecord) : Bool :=
  if exact then
    ((g.files.values.filter fun file => file.path = plainPath path).map (·.absolutePath)).contains
      f.file
  else pathMatches f.file (plainPath path)

theorem functionsIn_eq (g : CodeGraph) (path : String) (exact : Bool) :
    g.functionsIn path exact = g.functions.values.filter (g.isIn path exact) :=
  rfl

/-- Files are compared exactly if the path is known, and by their ends otherwise. -/
theorem isIn_iff {known : Prop} {exact : Bool} (h : exact = true ↔ known) :
    g.isIn path exact f = true ↔ g.LiesIn known path f := by
  unfold isIn LiesIn
  cases exact with
  | true =>
    have hknown : known := h.1 rfl
    simp [hknown, and_assoc]
  | false =>
    have hknown : ¬ known := fun hk => Bool.false_ne_true (h.2 hk)
    simp [hknown, pathMatches, plainPath_idem, Path.endsWith, List.isSuffixOf_iff_suffix]

/-- The entries of a file's functions with one scope, in key order. -/
def entriesAt (g : CodeGraph) (path : String) (exact : Bool) (scope : String) :
    List (String × FunctionRecord) :=
  g.functions.entries.filter fun e => e.2.scope = scope && g.isIn path exact e.2

/-- Of several functions with one scope the last in key order is found. -/
theorem get?_functionsByScope_eq (g : CodeGraph) (path : String) (exact : Bool) (scope : String) :
    (g.functionsByScope path exact).get? scope =
      (g.entriesAt path exact scope).getLast?.map (·.2) := by
  rw [functionsByScope, Table.get?_ofList, functionsIn_eq, Table.values, entriesAt,
    ← List.filter_filter]
  simp only [List.filter_map, List.getLast?_map, Option.map_map]
  rfl

/-- The table by scope holds the functions that stand for their scopes. -/
theorem get?_functionsByScope_iff {known : Prop} {exact : Bool} (h : exact = true ↔ known) :
    (g.functionsByScope path exact).get? scope = some f ↔ g.StandsFor known path scope f := by
  have hordered : Table.Ordered (g.entriesAt path exact scope) := g.functions.ordered.filter _
  have hmem : ∀ key f, (key, f) ∈ g.entriesAt path exact scope ↔
      g.functions.get? key = some f ∧ g.LiesIn known path f ∧ f.scope = scope := by
    intro key f
    simp only [entriesAt, List.mem_filter, Table.mem_entries, Bool.and_eq_true, decide_eq_true_eq,
      isIn_iff h, and_comm (a := f.scope = scope)]
  rw [get?_functionsByScope_eq, Option.map_eq_some_iff]
  constructor
  · rintro ⟨⟨key, f⟩, hlast, rfl⟩
    obtain ⟨hentry, hmax⟩ := (Table.getLast?_eq_some_iff hordered).1 hlast
    obtain ⟨hget, hlies, hscope⟩ := (hmem key f).1 hentry
    refine ⟨key, hget, hlies, hscope, fun other f' hget' hlies' hscope' => ?_⟩
    exact hmax (other, f') ((hmem other f').2 ⟨hget', hlies', hscope'⟩)
  · rintro ⟨key, hget, hlies, hscope, hmax⟩
    refine ⟨(key, f), (Table.getLast?_eq_some_iff hordered).2 ⟨?_, ?_⟩, rfl⟩
    · exact (hmem key f).2 ⟨hget, hlies, hscope⟩
    · rintro ⟨other, f'⟩ hentry
      obtain ⟨hget', hlies', hscope'⟩ := (hmem other f').1 hentry
      exact hmax other f' hget' hlies' hscope'

theorem contains_functionsByScope_iff {known : Prop} {exact : Bool} (h : exact = true ↔ known) :
    (g.functionsByScope path exact).contains scope = true ↔
      ∃ f, g.StandsFor known path scope f := by
  rw [Table.contains, Option.isSome_iff_exists]
  simp only [get?_functionsByScope_iff h]

end CodeGraph

/-! ## Lines that a hunk meets -/

namespace Hunk

/-- The last old line of a hunk; one without old lines covers the line it starts at. -/
def lastOld (h : Hunk) : Nat :=
  h.oldStart.toNat + max h.oldCount.toNat 1 - 1

/-- A changed hunk whose old lines meet those of a function. -/
def Meets (h : Hunk) (before : FunctionRecord) : Prop :=
  (h.added ≠ [] ∨ h.deleted ≠ []) ∧
    h.oldStart.toNat ≤ before.endLine ∧ before.startLine ≤ h.lastOld

/-- The end of a range is computed modulo the size of a word. -/
theorem toNat_oldEnd_eq_mod (h : Hunk) : h.oldEnd.toNat = h.lastOld % UInt64.size := by
  have hcount : (if h.oldCount = 0 then 1 else h.oldCount).toNat = max h.oldCount.toNat 1 := by
    split
    next hzero => simp [hzero]
    next hpos =>
      have hne : h.oldCount.toNat ≠ 0 := fun h0 => hpos (UInt64.toNat_inj.1 h0)
      omega
  unfold lastOld
  rw [oldEnd, UInt64.toNat_sub, UInt64.toNat_add, hcount]
  change (UInt64.size - 1 + (h.oldStart.toNat + max h.oldCount.toNat 1) % UInt64.size) %
    UInt64.size = _
  have hsize : UInt64.size = 18446744073709551616 := rfl
  rw [hsize]
  omega

/-- A range that fits in 64 bits ends where it does without a bound. -/
theorem toNat_oldEnd {h : Hunk} (hfits : h.lastOld < UInt64.size) : h.oldEnd.toNat = h.lastOld := by
  rw [toNat_oldEnd_eq_mod, Nat.mod_eq_of_lt hfits]

/-- The test for one function is whether a hunk meets it. -/
theorem isTouched_iff {hunks : List Hunk} (hfits : ∀ h ∈ hunks, h.lastOld < UInt64.size)
    {before : FunctionRecord} :
    ChangeSet.isTouched hunks before = true ↔ ∃ h ∈ hunks, h.Meets before := by
  have hone : ∀ h ∈ hunks,
      (h.hasChanges && h.overlapsOld before.startLine before.endLine) = true ↔ h.Meets before := by
    intro h hmem
    simp [hasChanges, overlapsOld, Meets, toNat_oldEnd (hfits h hmem)]
  rw [ChangeSet.isTouched, List.any_eq_true]
  exact exists_congr fun h => and_congr_right fun hmem => hone h hmem

end Hunk

/-! ## Buckets -/

namespace ChangeSet

open CodeGraph

variable {hunks : List Hunk} {head base : CodeGraph} {path : String} {d : ChangedFunction}

/-- Added functions stand for a scope in the new snapshot only. -/
theorem mem_added_classify : d ∈ (classify hunks head base path).added ↔
    ∃ scope f, head.StandsFor (IsKnown head base path) path scope f ∧
      (¬ ∃ b, base.StandsFor (IsKnown head base path) path scope b) ∧ f.describe = d := by
  simp only [classify, List.mem_map, List.mem_filter, Prod.exists, Table.mem_entries,
    get?_functionsByScope_iff hasFile_or_iff, Bool.not_eq_true',
    ← Bool.not_eq_true, contains_functionsByScope_iff hasFile_or_iff, and_assoc]

/-- Deleted functions stand for a scope in the old snapshot only. -/
theorem mem_deleted_classify : d ∈ (classify hunks head base path).deleted ↔
    ∃ scope b, base.StandsFor (IsKnown head base path) path scope b ∧
      (¬ ∃ f, head.StandsFor (IsKnown head base path) path scope f) ∧ b.describe = d := by
  simp only [classify, List.mem_map, List.mem_filter, Prod.exists, Table.mem_entries,
    get?_functionsByScope_iff hasFile_or_iff, Bool.not_eq_true',
    ← Bool.not_eq_true, contains_functionsByScope_iff hasFile_or_iff, and_assoc]

/-- Modified functions stand for a scope in both, and a hunk touches the old one. -/
theorem mem_modified_classify : d ∈ (classify hunks head base path).modified ↔
    ∃ scope f b, head.StandsFor (IsKnown head base path) path scope f ∧
      base.StandsFor (IsKnown head base path) path scope b ∧ isTouched hunks b = true ∧
      f.describe = d := by
  simp only [classify, List.mem_map, List.mem_filter, Prod.exists, Table.mem_entries,
    get?_functionsByScope_iff hasFile_or_iff, Option.any_eq_true]
  constructor
  · rintro ⟨scope, f, ⟨hf, b, hb, htouched⟩, rfl⟩
    exact ⟨scope, f, b, hf, hb, htouched, rfl⟩
  · rintro ⟨scope, f, b, hf, hb, htouched, rfl⟩
    exact ⟨scope, f, ⟨hf, b, hb, htouched⟩, rfl⟩

/-- Whichever of a file's functions are chosen, they are described in the order of their scopes. -/
theorem pairwise_fullName (g : CodeGraph) (path : String) (exact : Bool)
    (p : String × FunctionRecord → Bool) :
    ((((g.functionsByScope path exact).entries.filter p).map (·.2.describe)).map
      (·.fullName)).Pairwise (· < ·) := by
  have hscope : ∀ e ∈ (g.functionsByScope path exact).entries.filter p, e.2.scope = e.1 := by
    rintro ⟨scope, f⟩ he
    have hstands : g.StandsFor (exact = true) path scope f :=
      (get?_functionsByScope_iff Iff.rfl).1 (Table.mem_entries.1 (List.mem_filter.1 he).1)
    exact hstands.fullName_eq
  have hnames : (((g.functionsByScope path exact).entries.filter p).map (·.2.describe)).map
      (·.fullName) = ((g.functionsByScope path exact).entries.filter p).map (·.1) := by
    rw [List.map_map]
    exact List.map_congr_left hscope
  rw [hnames, List.pairwise_map]
  exact (g.functionsByScope path exact).ordered.filter p

/-- A scope in a bucket tells which of the two snapshots have it. -/
theorem scopes_added {scope : String}
    (h : scope ∈ (classify hunks head base path).added.map (·.fullName)) :
    (∃ f, head.StandsFor (IsKnown head base path) path scope f) ∧
      ¬ ∃ b, base.StandsFor (IsKnown head base path) path scope b := by
  obtain ⟨_, hd, rfl⟩ := List.mem_map.1 h
  obtain ⟨_, f, hf, hb, rfl⟩ := mem_added_classify.1 hd
  obtain rfl := hf.fullName_eq
  exact ⟨⟨f, hf⟩, hb⟩

theorem scopes_modified {scope : String}
    (h : scope ∈ (classify hunks head base path).modified.map (·.fullName)) :
    (∃ f, head.StandsFor (IsKnown head base path) path scope f) ∧
      ∃ b, base.StandsFor (IsKnown head base path) path scope b := by
  obtain ⟨_, hd, rfl⟩ := List.mem_map.1 h
  obtain ⟨_, f, b, hf, hb, _, rfl⟩ := mem_modified_classify.1 hd
  obtain rfl := hf.fullName_eq
  exact ⟨⟨f, hf⟩, b, hb⟩

theorem scopes_deleted {scope : String}
    (h : scope ∈ (classify hunks head base path).deleted.map (·.fullName)) :
    (¬ ∃ f, head.StandsFor (IsKnown head base path) path scope f) ∧
      ∃ b, base.StandsFor (IsKnown head base path) path scope b := by
  obtain ⟨_, hd, rfl⟩ := List.mem_map.1 h
  obtain ⟨_, b, hb, hf, rfl⟩ := mem_deleted_classify.1 hd
  obtain rfl := hb.fullName_eq
  exact ⟨hf, b, hb⟩

/-- What sorting the functions of a file says. The functions of the head and those of the base are
told apart by scope. -/
structure Classified (hunks : List Hunk) (head base : CodeGraph) (path : String)
    (c : ChangeSet) : Prop where
  mem_added : ∀ d, d ∈ c.added ↔
    ∃ scope f, head.StandsFor (IsKnown head base path) path scope f ∧
      (¬ ∃ b, base.StandsFor (IsKnown head base path) path scope b) ∧ f.describe = d
  mem_deleted : ∀ d, d ∈ c.deleted ↔
    ∃ scope b, base.StandsFor (IsKnown head base path) path scope b ∧
      (¬ ∃ f, head.StandsFor (IsKnown head base path) path scope f) ∧ b.describe = d
  mem_modified : ∀ d, d ∈ c.modified ↔
    ∃ scope f b, head.StandsFor (IsKnown head base path) path scope f ∧
      base.StandsFor (IsKnown head base path) path scope b ∧ (∃ h ∈ hunks, h.Meets b) ∧
      f.describe = d
  ordered : ∀ bucket ∈ [c.added, c.modified, c.deleted],
    (bucket.map (·.fullName)).Pairwise (· < ·)
  exclusive : [c.added, c.modified, c.deleted].Pairwise fun bucket other =>
    (bucket.map (·.fullName)).Disjoint (other.map (·.fullName))

/-- Sorting puts each scope of a file where the snapshots and the hunks say, once and in order. -/
theorem classify_by_scope (hunks : List Hunk) (head base : CodeGraph) (path : String)
    (hfits : ∀ h ∈ hunks, h.lastOld < UInt64.size) :
    Classified hunks head base path (classify hunks head base path) where
  mem_added _ := mem_added_classify
  mem_deleted _ := mem_deleted_classify
  mem_modified d := by rw [mem_modified_classify]; simp only [Hunk.isTouched_iff hfits]
  ordered := by
    simp only [List.forall_mem_cons, List.not_mem_nil, false_imp_iff, implies_true, and_true]
    exact ⟨pairwise_fullName .., pairwise_fullName .., pairwise_fullName ..⟩
  exclusive := by
    have hmodified : ((classify hunks head base path).added.map (·.fullName)).Disjoint
        ((classify hunks head base path).modified.map (·.fullName)) :=
      fun _ ha hm => (scopes_added ha).2 (scopes_modified hm).2
    have hdeleted : ((classify hunks head base path).added.map (·.fullName)).Disjoint
        ((classify hunks head base path).deleted.map (·.fullName)) :=
      fun _ ha hd => (scopes_added ha).2 (scopes_deleted hd).2
    have hlast : ((classify hunks head base path).modified.map (·.fullName)).Disjoint
        ((classify hunks head base path).deleted.map (·.fullName)) :=
      fun _ hm hd => (scopes_deleted hd).1 (scopes_modified hm).1
    simp [hmodified, hdeleted, hlast]

/-- A function with nothing but its place. -/
def placedFunction (file scope : String) (first last : Nat) : FunctionRecord :=
  { (default : FunctionRecord) with file, scope, startLine := first, endLine := last }

/-- A snapshot of files under the root `/r`, each with the scopes and the lines of its functions. -/
def snapshot (files : List (String × List (String × Nat × Nat))) : CodeGraph where
  files := .ofList (files.map fun (path, _) =>
    ("/r/" ++ path, { (default : FileRecord) with path, absolutePath := "/r/" ++ path }))
  functions := .ofList (files.flatMap fun (path, functions) =>
    functions.map fun (scope, first, last) =>
      let f := placedFunction ("/r/" ++ path) scope first last
      (f.key, f))

/-- The hunk meets `main` where it was, and `fresh` only where it is now. -/
theorem classify_moved_function :
    let hunks : List Hunk := [⟨5, 1, 5, 1, [5], [5]⟩]
    let head := snapshot [("src/a.ts", [("fresh", 4, 6), ("main", 9, 11), ("same", 1, 2)])]
    let base := snapshot [("src/a.ts", [("gone", 9, 11), ("main", 4, 6), ("same", 1, 2)])]
    (∀ h ∈ hunks, h.lastOld < UInt64.size) ∧
      Classified hunks head base "src/a.ts" (classify hunks head base "src/a.ts") ∧
      (classify hunks head base "src/a.ts").added.map (·.fullName) = ["fresh"] ∧
      (classify hunks head base "src/a.ts").modified.map (·.fullName) = ["main"] ∧
      (classify hunks head base "src/a.ts").deleted.map (·.fullName) = ["gone"] := by
  intro hunks head base
  have hfits : ∀ h ∈ hunks, h.lastOld < UInt64.size := by decide
  exact ⟨hfits, classify_by_scope hunks head base "src/a.ts" hfits, by decide, by decide, by decide⟩

end ChangeSet

end CodeImpact
