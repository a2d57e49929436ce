import CodeImpact.Proofs.FirstReports
import CodeImpact.Proofs.Unique

/-!
# Laws of merging changes

Merging appends to each bucket what no bucket of the receiver, and no earlier bucket of the other
change, has. So merging is associative, also for changes that hold an identifier several times, and
the identifiers of a merge are those of the receiver with the new ones appended, each once.
-/

namespace CodeImpact

namespace ChangeSet

variable {seen seen' : List String} {ds es : List ChangedFunction} {id : String}

/-! ## Unseen functions -/

theorem unseen_cons_of_mem {d : ChangedFunction} (h : d.id ∈ seen) :
    unseen seen (d :: ds) = unseen seen ds := by
  rw [unseen, if_pos (List.contains_iff_mem.2 h)]

theorem unseen_cons_of_not_mem {d : ChangedFunction} (h : d.id ∉ seen) :
    unseen seen (d :: ds) = d :: unseen (d.id :: seen) ds := by
  rw [unseen, if_neg (mt List.contains_iff_mem.1 h)]

theorem mem_ids_unseen :
    id ∈ (unseen seen ds).map (·.id) ↔ id ∈ ds.map (·.id) ∧ id ∉ seen := by
  induction ds generalizing seen with
  | nil => simp [unseen]
  | cons d ds ih =>
    by_cases hd : d.id ∈ seen
    · have hne : id ∉ seen → id ≠ d.id := by
        rintro hseen rfl
        exact hseen hd
      rw [unseen_cons_of_mem hd, ih, List.map_cons, List.mem_cons]
      exact and_congr_left fun hseen => (or_iff_right (hne hseen)).symm
    · rw [unseen_cons_of_not_mem hd, List.map_cons, List.map_cons, List.mem_cons, List.mem_cons, ih,
        List.mem_cons]
      by_cases heq : id = d.id
      · simp [heq, hd]
      · simp [heq]

theorem unseen_sublist (seen : List String) (ds : List ChangedFunction) :
    (unseen seen ds).Sublist ds := by
  induction ds generalizing seen with
  | nil => exact List.Sublist.refl _
  | cons d ds ih =>
    unfold unseen
    split
    · exact (ih seen).cons d
    · exact (ih (d.id :: seen)).cons_cons d

/-- What was kept of a list counts as seen for the rest. -/
theorem unseen_append (seen : List String) (ds es : List ChangedFunction) :
    unseen seen (ds ++ es) = unseen seen ds ++ unseen (seen ++ ds.map (·.id)) es := by
  induction ds generalizing seen with
  | nil => simp [unseen]
  | cons d ds ih =>
    rw [List.cons_append]
    by_cases hd : d.id ∈ seen
    · rw [unseen_cons_of_mem hd, unseen_cons_of_mem hd, ih]
      refine congrArg _ (unseen_congr fun e _ => ?_)
      simp only [List.map_cons, List.mem_append, List.mem_cons]
      grind
    · rw [unseen_cons_of_not_mem hd, unseen_cons_of_not_mem hd, ih, List.cons_append]
      refine congrArg _ (congrArg _ (unseen_congr fun e _ => ?_))
      simp only [List.map_cons, List.mem_append, List.mem_cons]
      grind

/-- What is unseen after one list of identifiers and then after another is unseen after both. -/
theorem unseen_unseen (seen seen' : List String) (ds : List ChangedFunction) :
    unseen seen (unseen seen' ds) = unseen (seen ++ seen') ds := by
  induction ds generalizing seen seen' with
  | nil => rfl
  | cons d ds ih =>
    by_cases hd' : d.id ∈ seen'
    · rw [unseen_cons_of_mem hd', unseen_cons_of_mem (List.mem_append_right _ hd'), ih]
    · rw [unseen_cons_of_not_mem hd']
      by_cases hd : d.id ∈ seen
      · rw [unseen_cons_of_mem hd, unseen_cons_of_mem (List.mem_append_left _ hd), ih]
        refine unseen_congr fun e _ => ?_
        simp only [List.mem_append, List.mem_cons]
        grind
      · have hboth : d.id ∉ seen ++ seen' := by simp [hd, hd']
        rw [unseen_cons_of_not_mem hd, unseen_cons_of_not_mem hboth, ih]
        refine congrArg _ (unseen_congr fun e _ => ?_)
        simp only [List.cons_append, List.mem_append, List.mem_cons]
        grind

theorem unseen_of_subset (h : ∀ d ∈ ds, d.id ∈ seen) : unseen seen ds = [] := by
  induction ds with
  | nil => rfl
  | cons d ds ih =>
    obtain ⟨hd, hds⟩ := List.forall_mem_cons.1 h
    rw [unseen_cons_of_mem hd, ih hds]

/-- Distinct identifiers that are new are all unseen. -/
theorem unseen_of_disjoint (hdistinct : (ds.map (·.id)).Nodup) (hnew : ∀ d ∈ ds, d.id ∉ seen) :
    unseen seen ds = ds := by
  induction ds generalizing seen with
  | nil => rfl
  | cons d ds ih =>
    obtain ⟨hd, hds⟩ := List.forall_mem_cons.1 hnew
    obtain ⟨hfirst, hrest⟩ := List.nodup_cons.1 hdistinct
    rw [unseen_cons_of_not_mem hd, ih hrest]
    intro e he
    rw [List.mem_cons, not_or]
    exact ⟨fun heq => hfirst (List.mem_map.2 ⟨e, he, heq⟩), hds e he⟩

/-! ## The buckets of a merge -/

variable {a c other : ChangeSet}

/-- The identifiers in the buckets before this one. -/
def earlierIds (c : ChangeSet) : Bucket → List String
  | .added => []
  | .modified => c.added.map (·.id)
  | .deleted => c.added.map (·.id) ++ c.modified.map (·.id)

theorem ext_bucket (h : ∀ b, a.bucket b = c.bucket b) : a = c := by
  obtain ⟨added, modified, deleted⟩ := a
  obtain ⟨added', modified', deleted'⟩ := c
  obtain rfl : added = added' := h .added
  obtain rfl : modified = modified' := h .modified
  obtain rfl : deleted = deleted' := h .deleted
  rfl

theorem mem_ids_of_mem_bucket {b : Bucket} {d : ChangedFunction} (h : d ∈ c.bucket b) :
    d.id ∈ c.ids :=
  mem_ids.2 ⟨b, d, h, rfl⟩

theorem earlierIds_subset (c : ChangeSet) (b : Bucket) : c.earlierIds b ⊆ c.ids := by
  intro id hid
  cases b with
  | added => cases hid
  | modified => simp [ids, all, List.map_append, show id ∈ c.added.map (·.id) from hid]
  | deleted =>
    rcases List.mem_append.1 hid with hid | hid <;> simp [ids, all, List.map_append, hid]

/-- What a merge appends to a bucket. -/
theorem bucket_merge (c other : ChangeSet) (b : Bucket) :
    (c.merge other).bucket b =
      c.bucket b ++ unseen (c.ids ++ other.earlierIds b) (other.bucket b) := by
  cases b with
  | added => simp [merge, bucket, earlierIds, ids]
  | modified =>
    refine congrArg (c.modified ++ ·) (unseen_congr fun d _ => ?_)
    simp only [List.mem_append, mem_ids_unseen, earlierIds, ids]
    grind
  | deleted =>
    refine congrArg (c.deleted ++ ·) (unseen_congr fun d _ => ?_)
    simp only [List.mem_append, mem_ids_unseen, earlierIds, ids]
    grind

/-- The identifiers of a merge: those of the receiver, and each new one once. -/
theorem ids_merge_perm (c other : ChangeSet) :
    (c.merge other).ids.Perm (appendUnique c.ids other.ids) := by
  rw [merge_eq_foldl_note, ids_eq_map_reports other]
  induction other.reports using List.reverseRecOn with
  | nil => exact List.Perm.refl _
  | append_singleton rs r ih =>
    rw [List.foldl_append, List.map_append, List.map_singleton, appendUnique_append,
      appendUnique_singleton, List.foldl_cons, List.foldl_nil, note]
    simp only [ih.mem_iff]
    split
    · exact ih
    · exact (ids_put_perm _ r.1 [r.2]).trans
        ((ih.append_left [r.2.id]).trans List.perm_append_comm)

theorem mem_ids_merge : id ∈ (c.merge other).ids ↔ id ∈ c.ids ∨ id ∈ other.ids := by
  rw [(ids_merge_perm c other).mem_iff, mem_appendUnique]

/-- An identifier that is kept stays in its bucket. -/
theorem mem_earlierIds_merge {b : Bucket} :
    id ∈ (c.merge other).earlierIds b ↔
      id ∈ c.earlierIds b ∨ id ∈ other.earlierIds b ∧ id ∉ c.ids := by
  have hadded := bucket_merge c other .added
  have hmodified := bucket_merge c other .modified
  cases b with
  | added => simp [earlierIds]
  | modified =>
    change id ∈ ((c.merge other).bucket .added).map (·.id) ↔ _
    rw [hadded, List.map_append, List.mem_append, mem_ids_unseen]
    simp [earlierIds, bucket]
  | deleted =>
    change id ∈ ((c.merge other).bucket .added).map (·.id) ++
      ((c.merge other).bucket .modified).map (·.id) ↔ _
    rw [hadded, hmodified, List.map_append, List.map_append]
    simp only [List.mem_append, mem_ids_unseen]
    simp only [earlierIds, bucket, List.mem_append]
    grind

theorem merge_assoc (a c other : ChangeSet) :
    (a.merge c).merge other = a.merge (c.merge other) := by
  refine ext_bucket fun b => ?_
  -- What `other` brings before `c`'s bucket is new to `c`, so it hides nothing of `c`.
  have hfirst : unseen (a.ids ++ c.earlierIds b) (c.bucket b) =
      unseen (a.ids ++ (c.merge other).earlierIds b) (c.bucket b) := by
    refine unseen_congr fun d hd => ?_
    have hid := mem_ids_of_mem_bucket hd
    simp [mem_earlierIds_merge, hid]
  have hsecond : unseen ((a.merge c).ids ++ other.earlierIds b) (other.bucket b) =
      unseen (a.ids ++ (c.merge other).earlierIds b ++ (c.bucket b).map (·.id) ++
        (c.ids ++ other.earlierIds b)) (other.bucket b) := by
    refine unseen_congr fun d hd => ?_
    have hbucket : d.id ∈ (c.bucket b).map (·.id) → d.id ∈ c.ids := by
      intro hmem
      obtain ⟨e, he, heq⟩ := List.mem_map.1 hmem
      exact heq ▸ mem_ids_of_mem_bucket he
    have hearlier := @earlierIds_subset c b d.id
    simp only [List.mem_append, mem_ids_merge, mem_earlierIds_merge]
    tauto
  rw [bucket_merge, bucket_merge, bucket_merge, bucket_merge, unseen_append, unseen_unseen, hfirst,
    hsecond, List.append_assoc]

theorem merge_empty (c : ChangeSet) : c.merge {} = c := by
  refine ext_bucket fun b => ?_
  rw [bucket_merge, unseen_of_subset, List.append_nil]
  cases b <;> simp [bucket]

theorem merge_self (c : ChangeSet) : c.merge c = c := by
  refine ext_bucket fun b => ?_
  rw [bucket_merge, unseen_of_subset, List.append_nil]
  exact fun d hd => List.mem_append_left _ (mem_ids_of_mem_bucket hd)

/-- The empty change takes another one over as it is only if no identifier is repeated there. -/
theorem empty_merge_eq_iff (c : ChangeSet) : merge {} c = c ↔ c.ids.Nodup := by
  constructor
  · intro heq
    rw [← heq, (ids_merge_perm {} c).nodup_iff]
    exact nodup_appendUnique List.nodup_nil _
  · intro hdistinct
    refine ext_bucket fun b => ?_
    have hsplit := hdistinct
    simp only [ids, all, List.map_append, List.nodup_append] at hsplit
    obtain ⟨⟨hadded, hmodified, hfirst⟩, hdeleted, hsecond⟩ := hsplit
    rw [bucket_merge, unseen_of_disjoint]
    · cases b <;> rfl
    · cases b with
      | added => exact hadded
      | modified => exact hmodified
      | deleted => exact hdeleted
    · intro d hd hmem
      have hmap : d.id ∈ (c.bucket b).map (·.id) := List.mem_map_of_mem hd
      cases b with
      | added => cases hmem
      | modified => exact hfirst _ hmem _ hmap rfl
      | deleted => exact hsecond _ hmem _ hmap rfl

/-- Changes can be merged among themselves before they are merged into another one. -/
theorem foldl_merge (c : ChangeSet) (others : List ChangeSet) :
    others.foldl merge c = c.merge (others.foldl merge {}) := by
  have : Std.Associative merge := ⟨merge_assoc⟩
  conv_lhs => rw [← merge_empty c]
  exact List.foldl_assoc

/-- A section brings the change of its path, between those of the sections around it. -/
theorem ofPatch_of_section {p early late : Patch} {f : FilePatch} {path : String}
    (h : p.files = early.files ++ f :: late.files) (hpath : f.path? = some path)
    (head base : CodeGraph) :
    ofPatch p head base =
      ((ofPatch early head base).merge (classify f.hunks head base path)).merge
        (ofPatch late head base) := by
  have hsections : ofSections p head base =
      ofSections early head base ++ classify f.hunks head base path ::
        ofSections late head base := by
    rw [ofSections, h, List.filterMap_append, List.filterMap_cons, hpath]
    rfl
  rw [ofPatch_eq_foldl_merge, hsections, List.foldl_append, List.foldl_cons, foldl_merge,
    ← ofPatch_eq_foldl_merge, ← ofPatch_eq_foldl_merge]

/-- Merging is associative, and the empty change is neutral: on the right always, on the left
exactly for changes without repeated identifiers. To merge a change with itself changes nothing. A
merge appends to each bucket functions of that bucket of the other change; of the identifiers, it
adds each one that is in no bucket yet once, and no other. -/
theorem merge_laws :
    (∀ a b c : ChangeSet, (a.merge b).merge c = a.merge (b.merge c)) ∧
    (∀ c : ChangeSet, c.merge {} = c) ∧
    (∀ c : ChangeSet, merge {} c = c ↔ c.ids.Nodup) ∧
    (∀ c : ChangeSet, c.merge c = c) ∧
    ∀ c other : ChangeSet,
      (∀ b, ∃ new, (c.merge other).bucket b = c.bucket b ++ new ∧ new.Sublist (other.bucket b)) ∧
      (∀ id, (c.merge other).ids.count id =
        if id ∈ c.ids then c.ids.count id else if id ∈ other.ids then 1 else 0) ∧
      (c.ids.Nodup → (c.merge other).ids.Nodup) := by
  refine ⟨merge_assoc, merge_empty, empty_merge_eq_iff, merge_self, fun c other => ⟨?_, ?_, ?_⟩⟩
  · exact fun b => ⟨_, bucket_merge c other b, unseen_sublist _ _⟩
  · intro id
    rw [(ids_merge_perm c other).count_eq, count_appendUnique]
  · intro hdistinct
    rw [(ids_merge_perm c other).nodup_iff]
    exact nodup_appendUnique hdistinct _

/-- A change that reports one function twice. -/
def reportedTwice : ChangeSet where
  added := [{ (default : ChangedFunction) with id := "/r/a.ts::f" }]
  modified := [{ (default : ChangedFunction) with id := "/r/a.ts::f", lines := 3 }]

/-- A change with another function. -/
def reportedOnce : ChangeSet where
  deleted := [{ (default : ChangedFunction) with id := "/r/a.ts::g" }]

theorem reportedTwice_merged_once :
    reportedOnce.ids.Nodup ∧ ¬ reportedTwice.ids.Nodup ∧
      (reportedOnce.merge reportedTwice).ids.Nodup ∧
      (reportedOnce.merge reportedTwice).ids.count "/r/a.ts::f" = 1 ∧
      merge {} reportedTwice ≠ reportedTwice ∧
      (reportedTwice.merge reportedOnce).merge reportedTwice =
        reportedTwice.merge (reportedOnce.merge reportedTwice) := by
  obtain ⟨hassoc, -, hleft, -, hmerge⟩ := merge_laws
  obtain ⟨-, hcount, hnodup⟩ := hmerge reportedOnce reportedTwice
  have hdistinct : reportedOnce.ids.Nodup := by decide
  have hrepeated : ¬ reportedTwice.ids.Nodup := by decide
  exact ⟨hdistinct, hrepeated, hnodup hdistinct, hcount "/r/a.ts::f",
    mt (hleft reportedTwice).1 hrepeated, hassoc _ _ _⟩

end ChangeSet

end CodeImpact
