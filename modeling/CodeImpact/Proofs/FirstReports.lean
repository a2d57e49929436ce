import CodeImpact.Proofs.Classification

/-!
# First reports

The sections of a patch report functions one after the other, each in a bucket. Merging is the same
as noting these reports in order and dropping those whose identifier was noted before, so each
identifier is kept once, as it was first reported.
-/

namespace CodeImpact

/-- Where a change puts a function. -/
inductive Bucket
  | added
  | modified
  | deleted
  deriving DecidableEq, Repr

namespace ChangeSet

/-- The functions in a bucket. -/
def bucket (c : ChangeSet) : Bucket → List ChangedFunction
  | .added => c.added
  | .modified => c.modified
  | .deleted => c.deleted

/-- The identifiers in all buckets. -/
def ids (c : ChangeSet) : List String :=
  c.all.map (·.id)

/-- The functions with their buckets: added, then modified, then deleted. -/
def reports (c : ChangeSet) : List (Bucket × ChangedFunction) :=
  c.added.map (.added, ·) ++ c.modified.map (.modified, ·) ++ c.deleted.map (.deleted, ·)

/-- Puts functions at the end of a bucket. -/
def put (c : ChangeSet) : Bucket → List ChangedFunction → ChangeSet
  | .added, ds => { c with added := c.added ++ ds }
  | .modified, ds => { c with modified := c.modified ++ ds }
  | .deleted, ds => { c with deleted := c.deleted ++ ds }

/-- Notes a report unless its identifier is in a bucket already. -/
def note (c : ChangeSet) (r : Bucket × ChangedFunction) : ChangeSet :=
  if r.2.id ∈ c.ids then c else c.put r.1 [r.2]

variable {c : ChangeSet} {b : Bucket} {d : ChangedFunction} {id : String}

theorem mem_ids : id ∈ c.ids ↔ ∃ b, ∃ d ∈ c.bucket b, d.id = id := by
  simp only [ids, all, List.map_append, List.mem_append, List.mem_map]
  constructor
  · rintro ((h | h) | h)
    · exact ⟨.added, h⟩
    · exact ⟨.modified, h⟩
    · exact ⟨.deleted, h⟩
  · rintro ⟨b, h⟩
    cases b with
    | added => exact .inl (.inl h)
    | modified => exact .inl (.inr h)
    | deleted => exact .inr h

theorem ids_eq_map_reports (c : ChangeSet) : c.ids = c.reports.map (·.2.id) := by
  simp only [ids, all, reports, List.map_append, List.map_map]
  rfl

@[simp] theorem put_nil (c : ChangeSet) (b : Bucket) : c.put b [] = c := by
  cases b <;> simp [put]

theorem put_put (c : ChangeSet) (b : Bucket) (ds es : List ChangedFunction) :
    (c.put b ds).put b es = c.put b (ds ++ es) := by
  cases b <;> simp [put]

theorem ids_put_perm (c : ChangeSet) (b : Bucket) (ds : List ChangedFunction) :
    (c.put b ds).ids.Perm (ds.map (·.id) ++ c.ids) := by
  rw [List.perm_iff_count]
  intro id
  cases b <;> simp only [ids, all, put, List.map_append, List.count_append] <;> omega

theorem mem_bucket_put {b' : Bucket} {ds : List ChangedFunction} :
    d ∈ (c.put b ds).bucket b' ↔ d ∈ c.bucket b' ∨ b' = b ∧ d ∈ ds := by
  cases b <;> cases b' <;> simp [put, bucket]

/-! ## Merging notes reports -/

/-- What is seen matters only for the identifiers at hand. -/
theorem unseen_congr {seen seen' : List String} {ds : List ChangedFunction}
    (h : ∀ d ∈ ds, d.id ∈ seen ↔ d.id ∈ seen') : unseen seen ds = unseen seen' ds := by
  induction ds generalizing seen seen' with
  | nil => rfl
  | cons d ds ih =>
    obtain ⟨hd, hds⟩ := List.forall_mem_cons.1 h
    have hcons : ∀ e ∈ ds, e.id ∈ d.id :: seen ↔ e.id ∈ d.id :: seen' := by
      intro e he
      rw [List.mem_cons, List.mem_cons, hds e he]
    simp only [unseen, List.contains_iff_mem, hd, ih hds, ih hcons]

/-- Noting the functions of one bucket puts those there that are not seen yet. -/
theorem foldl_note_map (c : ChangeSet) (b : Bucket) (ds : List ChangedFunction) :
    (ds.map (b, ·)).foldl note c = c.put b (unseen c.ids ds) := by
  induction ds generalizing c with
  | nil => simp [unseen]
  | cons d ds ih =>
    rw [List.map_cons, List.foldl_cons, ih]
    by_cases hd : d.id ∈ c.ids
    · simp [note, unseen, hd]
    · have hseen : ∀ id, id ∈ (c.put b [d]).ids ↔ id ∈ d.id :: c.ids :=
        fun id => (ids_put_perm c b [d]).mem_iff
      simp only [note, hd, if_false, unseen, List.contains_iff_mem, put_put]
      rw [unseen_congr fun e _ => hseen e.id, List.singleton_append]

/-- To merge a change is to note its reports one by one. -/
theorem merge_eq_foldl_note (c other : ChangeSet) : c.merge other = other.reports.foldl note c := by
  let added := unseen c.ids other.added
  let modified := unseen (added.map (·.id) ++ c.ids) other.modified
  let noted := (c.put .added added).put .modified modified
  have hadded : (other.added.map (.added, ·)).foldl note c = c.put .added added :=
    foldl_note_map c .added other.added
  have hmodified : (other.modified.map (.modified, ·)).foldl note (c.put .added added) = noted := by
    rw [foldl_note_map, unseen_congr fun _ _ => (ids_put_perm c .added added).mem_iff]
  have hnoted : noted.ids.Perm (modified.map (·.id) ++ (added.map (·.id) ++ c.ids)) :=
    (ids_put_perm _ .modified modified).trans ((ids_put_perm c .added added).append_left _)
  have hdeleted : (other.deleted.map (.deleted, ·)).foldl note noted = c.merge other := by
    rw [foldl_note_map, unseen_congr fun _ _ => hnoted.mem_iff]
    rfl
  rw [reports, List.foldl_append, List.foldl_append, hadded, hmodified, hdeleted]

/-! ## Which reports are kept -/

/-- A change that keeps the first report of each identifier. -/
structure KeepsFirst (c : ChangeSet) (rs : List (Bucket × ChangedFunction)) : Prop where
  distinct : c.ids.Nodup
  mem_bucket : ∀ b d, d ∈ c.bucket b ↔ rs.find? (·.2.id = d.id) = some (b, d)

variable {rs : List (Bucket × ChangedFunction)}

theorem KeepsFirst.mem_ids (h : KeepsFirst c rs) : id ∈ c.ids ↔ id ∈ rs.map (·.2.id) := by
  rw [ChangeSet.mem_ids]
  constructor
  · rintro ⟨b, d, hd, rfl⟩
    exact List.mem_map.2 ⟨(b, d), List.mem_of_find?_eq_some ((h.mem_bucket b d).1 hd), rfl⟩
  · intro hid
    obtain ⟨r, hr, rfl⟩ := List.mem_map.1 hid
    cases hfind : rs.find? (·.2.id = r.2.id) with
    | none => simpa using List.find?_eq_none.1 hfind r hr
    | some first =>
      have hfirst : first.2.id = r.2.id := by simpa using List.find?_some hfind
      exact ⟨first.1, first.2, (h.mem_bucket _ _).2 (hfirst ▸ hfind), hfirst⟩

theorem keepsFirst_empty : KeepsFirst {} [] where
  distinct := List.nodup_nil
  mem_bucket b d := by cases b <;> simp [bucket]

/-- A later report is found only if there is none before it. -/
theorem find?_concat {r s : Bucket × ChangedFunction} :
    (rs ++ [r]).find? (·.2.id = id) = some s ↔
      rs.find? (·.2.id = id) = some s ∨ id ∉ rs.map (·.2.id) ∧ r.2.id = id ∧ r = s := by
  rw [List.find?_append, Option.or_eq_some_iff, List.find?_eq_none, List.find?_singleton]
  simp

/-- A report changes what is kept only if it is the first of its identifier. -/
theorem KeepsFirst.note (h : KeepsFirst c rs) (r : Bucket × ChangedFunction) :
    KeepsFirst (c.note r) (rs ++ [r]) := by
  unfold ChangeSet.note
  split
  next hold =>
    refine ⟨h.distinct, fun b d => ?_⟩
    rw [find?_concat, ← h.mem_bucket]
    refine (or_iff_left ?_).symm
    rintro ⟨hnew, hid, -⟩
    exact hnew (hid ▸ h.mem_ids.1 hold)
  next hnew =>
    constructor
    · rw [(ids_put_perm c r.1 [r.2]).nodup_iff]
      exact List.nodup_cons.2 ⟨hnew, h.distinct⟩
    · intro b d
      rw [mem_bucket_put, find?_concat, ← h.mem_bucket, ← h.mem_ids, List.mem_singleton]
      refine or_congr_right ⟨?_, ?_⟩
      · rintro ⟨rfl, rfl⟩
        exact ⟨hnew, rfl, rfl⟩
      · rintro ⟨-, -, rfl⟩
        exact ⟨rfl, rfl⟩

/-- A run over reports keeps the first one on each identifier. -/
theorem keepsFirst_foldl_note (rs : List (Bucket × ChangedFunction)) :
    KeepsFirst (rs.foldl note {}) rs := by
  induction rs using List.reverseRecOn with
  | nil => exact keepsFirst_empty
  | append_singleton rs r ih =>
    rw [List.foldl_append]
    exact ih.note r

/-! ## The sections of a patch -/

/-- The changes that the sections with a path report, each by its own hunks. -/
def ofSections (p : Patch) (head base : CodeGraph) : List ChangeSet :=
  p.files.filterMap fun f => f.path?.map (classify f.hunks head base)

/-- The changes of a patch are those of its sections, merged in order. -/
theorem ofPatch_eq_foldl_merge (p : Patch) (head base : CodeGraph) :
    ofPatch p head base = (ofSections p head base).foldl merge {} := by
  rw [ofPatch, ofSections, List.foldl_filterMap]
  congr
  funext c f
  cases f.path? <;> rfl

/-- Merging the sections is noting all their reports, one after the other. -/
theorem ofPatch_eq_foldl_note (p : Patch) (head base : CodeGraph) :
    ofPatch p head base = ((ofSections p head base).flatMap reports).foldl note {} := by
  rw [ofPatch_eq_foldl_merge, List.foldl_flatMap]
  congr
  funext c other
  exact merge_eq_foldl_note c other

/-- The change of a whole patch keeps every identifier that a section with a path reports by its own
hunks. It keeps each once, with the description and in the bucket of its first report, in the order
of the sections and then of the buckets. -/
theorem ofPatch_keeps_first_reports (diff : String) (head base : CodeGraph) :
    (ofPatch (.ofText diff) head base).ids.Nodup ∧
    (∀ id, id ∈ (ofPatch (.ofText diff) head base).ids ↔
      ∃ f ∈ (Patch.ofText diff).files, ∃ path, f.path? = some path ∧
        id ∈ (classify f.hunks head base path).ids) ∧
    ∀ b d, d ∈ (ofPatch (.ofText diff) head base).bucket b ↔
      ((ofSections (.ofText diff) head base).flatMap reports).find? (·.2.id = d.id) =
        some (b, d) := by
  have hkeeps := keepsFirst_foldl_note ((ofSections (.ofText diff) head base).flatMap reports)
  rw [← ofPatch_eq_foldl_note] at hkeeps
  refine ⟨hkeeps.distinct, fun id => ?_, hkeeps.mem_bucket⟩
  rw [hkeeps.mem_ids, List.map_flatMap]
  simp only [← ids_eq_map_reports, ofSections, List.mem_flatMap, List.mem_filterMap,
    Option.map_eq_some_iff]
  constructor
  · rintro ⟨_, ⟨f, hf, path, hpath, rfl⟩, hid⟩
    exact ⟨f, hf, path, hpath, hid⟩
  · rintro ⟨f, hf, path, hpath, hid⟩
    exact ⟨_, ⟨f, hf, path, hpath, rfl⟩, hid⟩

end ChangeSet

end CodeImpact
