import CodeImpact.Proofs.Implementations
import Mathlib.Data.List.Infix

/-!
# Types of members

What is recorded for the members of scopes is kept under one text for each member, and looked up
from a scope outwards. Where no name has a colon these texts tell members apart, so a member has the
type recorded for it in the innermost scope that has a record: the last one that overwrites, or else
the first.
-/

namespace CodeImpact

/-! ## Members by their texts -/

namespace Scope

/-- A name without colons is found again behind a scope. -/
theorem lastName_qualify (s : Scope) {name : String} (h : ':' ∉ name.toList) :
    Bindings.lastName (s.qualify name) = name := by
  obtain ⟨frames⟩ := s
  cases frames using List.reverseRecOn with
  | nil =>
    have hcut : Text.cutLast? keySeparator.toList name.toList = none := by
      have hreverse := Text.cut?_of_not_mem (List.mem_cons_self (a := ':') (l := [':']))
        (s := name.toList.reverse) (by simpa using h)
      rw [Text.cutLast?, toList_keySeparator]
      simp [hreverse]
    rw [qualify_nil, Bindings.lastName, hcut]
  | append_singleton frames f =>
    rw [qualify_concat, Bindings.lastName, cutLast?_compositeKey h]
    simp

end Scope

/-! ## Records -/

/-- A record that a member of a scope holds a type. -/
structure InstanceRecord where
  scope : Scope
  member : String
  type : String
  /-- Whether an earlier record is replaced. -/
  overwrite : Bool

namespace InstanceRecord

/-- No name of the record has a colon. -/
structure IsPlain (r : InstanceRecord) : Prop where
  scope : ∀ n ∈ r.scope.names, ':' ∉ n.toList
  member : ':' ∉ r.member.toList
  type : ':' ∉ r.type.toList

instance (r : InstanceRecord) : Decidable r.IsPlain :=
  decidable_of_iff ((∀ n ∈ r.scope.names, ':' ∉ n.toList) ∧ ':' ∉ r.member.toList ∧
    ':' ∉ r.type.toList) ⟨fun h => ⟨h.1, h.2.1, h.2.2⟩, fun h => ⟨h.scope, h.member, h.type⟩⟩

/-- The records for a member of the scope with these names. -/
def recordedAt (rs : List InstanceRecord) (names : List String) (member : String) : List InstanceRecord :=
  rs.filter fun r => r.scope.names = names ∧ r.member = member

/-- The record that counts: the last one that overwrites, or the first if none does. -/
def standing? (rs : List InstanceRecord) : Option InstanceRecord :=
  (rs.filter (·.overwrite)).getLast?.or rs.head?

/-- One record more: it stands if it overwrites or is the first one. -/
theorem standing?_concat (rs : List InstanceRecord) (r : InstanceRecord) :
    standing? (rs ++ [r]) = if r.overwrite then some r else (standing? rs).or (some r) := by
  cases hr : r.overwrite with
  | true => simp [standing?, hr]
  | false =>
    have hfilter : (rs ++ [r]).filter (·.overwrite) = rs.filter (·.overwrite) := by simp [hr]
    rw [standing?, hfilter, standing?, List.head?_append, Option.or_assoc]
    rfl

theorem standing?_eq_none_iff {rs : List InstanceRecord} : standing? rs = none ↔ rs = [] := by
  cases rs with
  | nil => simp [standing?]
  | cons r rs => simp [standing?]

theorem mem_of_standing? {rs : List InstanceRecord} {r : InstanceRecord}
    (h : standing? rs = some r) : r ∈ rs := by
  rcases Option.or_eq_some_iff.1 h with hlast | ⟨-, hfirst⟩
  · exact List.mem_of_mem_filter (List.mem_of_getLast? hlast)
  · exact List.mem_of_head? hfirst

end InstanceRecord

namespace Bindings

/-- The bindings after some records. -/
def recordAll (b : Bindings) (rs : List InstanceRecord) : Bindings :=
  rs.foldl (fun b r => b.recordInstance r.scope r.member r.type r.overwrite) b

/-- What a record changes in the table. -/
theorem get?_instances_recordInstance (b : Bindings) (r : InstanceRecord) (key : String) :
    (b.recordInstance r.scope r.member r.type r.overwrite).instances.get? key =
      if r.scope.qualify r.member = key then
        if r.overwrite then some (r.scope.qualify r.type)
        else (b.instances.get? key).or (some (r.scope.qualify r.type))
      else b.instances.get? key := by
  unfold recordInstance
  by_cases hkey : r.scope.qualify r.member = key
  · subst hkey
    cases hold : b.instances.get? (r.scope.qualify r.member) <;>
      cases hr : r.overwrite <;> simp [Table.contains, hold]
  · rw [if_neg hkey]
    dsimp only
    split
    · rfl
    · simp [hkey]

/-- What is kept under a key is the type of the record that counts among those with the key. -/
theorem get?_instances_recordAll (rs : List InstanceRecord) (key : String) :
    (recordAll {} rs).instances.get? key =
      (InstanceRecord.standing? (rs.filter fun r => r.scope.qualify r.member = key)).map
        fun r => r.scope.qualify r.type := by
  induction rs using List.reverseRecOn with
  | nil => rfl
  | append_singleton rs r ih =>
    rw [recordAll, List.foldl_append, List.foldl_cons, List.foldl_nil, ← recordAll,
      get?_instances_recordInstance, ih, List.filter_append]
    by_cases hkey : r.scope.qualify r.member = key
    · rw [if_pos hkey, List.filter_cons_of_pos (by simpa using hkey), List.filter_nil,
        InstanceRecord.standing?_concat]
      split
      · rfl
      · rw [Option.map_or, Option.map_some]
    · rw [if_neg hkey, List.filter_cons_of_neg (by simpa using hkey), List.filter_nil,
        List.append_nil]

/-! ## Looking a member up -/

variable {rs : List InstanceRecord} {member : String}

/-- The text of a member of a scope leads to what is recorded for it, and to nothing else. -/
theorem get?_instances_qualify (hrs : ∀ r ∈ rs, r.IsPlain) {s : Scope}
    (hs : ∀ n ∈ s.names, ':' ∉ n.toList) (hmember : ':' ∉ member.toList) :
    ((recordAll {} rs).instances.get? (s.qualify member)).map lastName =
      (InstanceRecord.standing? (InstanceRecord.recordedAt rs s.names member)).map (·.type) := by
  have hkeys : (rs.filter fun r => r.scope.qualify r.member = s.qualify member) =
      InstanceRecord.recordedAt rs s.names member := by
    refine List.filter_congr fun r hr => decide_eq_decide.2 ⟨fun h => ?_, fun h => ?_⟩
    · exact Scope.qualify_inj (hrs r hr).scope hs (hrs r hr).member hmember h
    · rw [Scope.qualify_congr h.1, h.2]
  rw [get?_instances_recordAll, hkeys, Option.map_map]
  refine Option.map_congr fun r hr => ?_
  have hmem : r ∈ rs := List.mem_of_mem_filter (InstanceRecord.mem_of_standing? hr)
  exact Scope.lastName_qualify r.scope (hrs r hmem).type

theorem instanceType?_nil (b : Bindings) (member : String) :
    b.instanceType? ⟨[]⟩ member =
      (b.instances.get? (Scope.qualify ⟨[]⟩ member)).map lastName := rfl

/-- A member is looked up in a scope before the scope around it. -/
theorem instanceType?_concat (b : Bindings) (frames : List Frame) (f : Frame) (member : String) :
    b.instanceType? ⟨frames ++ [f]⟩ member =
      ((b.instances.get? (Scope.qualify ⟨frames ++ [f]⟩ member)).map lastName).or
        (b.instanceType? ⟨frames⟩ member) := by
  rw [instanceType?, List.reverse_concat, instanceAround?, List.reverse_cons, List.reverse_reverse]
  cases b.instances.get? (Scope.qualify ⟨frames ++ [f]⟩ member) <;> rfl

/-- The innermost scope around a place that has a record for a member. -/
structure IsInnermost (rs : List InstanceRecord) (place : List String) (member : String)
    (names : List String) : Prop where
  around : names <+: place
  recorded : InstanceRecord.recordedAt rs names member ≠ []
  longest : ∀ longer, longer <+: place → InstanceRecord.recordedAt rs longer member ≠ [] →
    longer.length ≤ names.length

/-- A place with a record is innermost for itself. -/
theorem isInnermost_self {place : List String} {r : InstanceRecord}
    (h : InstanceRecord.standing? (InstanceRecord.recordedAt rs place member) = some r) :
    IsInnermost rs place member place where
  around := List.prefix_rfl
  recorded := List.ne_nil_of_mem (InstanceRecord.mem_of_standing? h)
  longest _ hlonger _ := hlonger.length_le

/-- A place inside without a record looks outwards. -/
theorem IsInnermost.concat {place names : List String} {name : String}
    (h : IsInnermost rs place member names)
    (hnone : InstanceRecord.recordedAt rs (place ++ [name]) member = []) :
    IsInnermost rs (place ++ [name]) member names where
  around := h.around.trans (List.prefix_append place [name])
  recorded := h.recorded
  longest longer hlonger hrecorded := by
    rcases List.prefix_concat_iff.1 hlonger with rfl | hlonger
    · exact absurd hnone hrecorded
    · exact h.longest longer hlonger hrecorded

/-- A member has the type recorded for it in the innermost scope with a record, and there the type
of the last record that overwrites, or of the first one if none does. Without a record in any scope
around the place it has no known type. -/
theorem member_types_by_innermost_scope (rs : List InstanceRecord) (hrs : ∀ r ∈ rs, r.IsPlain)
    (scope : Scope) (hscope : ∀ n ∈ scope.names, ':' ∉ n.toList) (member : String)
    (hmember : ':' ∉ member.toList) :
    (∃ names r, IsInnermost rs scope.names member names ∧
      InstanceRecord.standing? (InstanceRecord.recordedAt rs names member) = some r ∧
      (recordAll {} rs).instanceType? scope member = some r.type) ∨
    ((∀ names, names <+: scope.names → InstanceRecord.recordedAt rs names member = []) ∧
      (recordAll {} rs).instanceType? scope member = none) := by
  obtain ⟨frames⟩ := scope
  induction frames using List.reverseRecOn with
  | nil =>
    rw [instanceType?_nil, get?_instances_qualify hrs hscope hmember]
    cases hstanding : InstanceRecord.standing?
        (InstanceRecord.recordedAt rs (Scope.names ⟨[]⟩) member) with
    | some r => exact .inl ⟨_, r, isInnermost_self hstanding, hstanding, rfl⟩
    | none =>
      refine .inr ⟨fun names hnames => ?_, rfl⟩
      obtain rfl := List.prefix_nil.1 hnames
      exact InstanceRecord.standing?_eq_none_iff.1 hstanding
  | append_singleton frames f ih =>
    rw [instanceType?_concat, get?_instances_qualify hrs hscope hmember]
    cases hstanding : InstanceRecord.standing?
        (InstanceRecord.recordedAt rs (Scope.names ⟨frames ++ [f]⟩) member) with
    | some r => exact .inl ⟨_, r, isInnermost_self hstanding, hstanding, rfl⟩
    | none =>
      have hnone := InstanceRecord.standing?_eq_none_iff.1 hstanding
      rw [Scope.names_concat] at hscope hnone ⊢
      rw [Option.map_none, Option.none_or]
      rcases ih fun n hn => hscope n (List.mem_append_left _ hn) with
        ⟨names, r, hinnermost, hr, htype⟩ | ⟨hunrecorded, htype⟩
      · exact .inl ⟨names, r, hinnermost.concat hnone, hr, htype⟩
      · refine .inr ⟨fun names hnames => ?_, htype⟩
        rcases List.prefix_concat_iff.1 hnames with rfl | hnames
        · exact hnone
        · exact hunrecorded names hnames

/-- A member of the file and a member of a class with the same name. The class declares it as a
field before and after its constructor takes it as a parameter. -/
def repoRecords : List InstanceRecord :=
  let caller : Scope := ⟨[⟨.classType, "Caller"⟩]⟩
  [⟨Scope.file, "repo", "Shared", true⟩, ⟨caller, "repo", "Repo", false⟩,
    ⟨caller, "repo", "SqlRepo", true⟩, ⟨caller, "repo", "OtherRepo", false⟩]

/-- In a method of the class the member has the type of the parameter. -/
theorem repoRecords_parameter_counts :
    (∀ r ∈ repoRecords, r.IsPlain) ∧
    (recordAll {} repoRecords).instanceType?
      ⟨[⟨.classType, "Caller"⟩, ⟨.method, "run"⟩]⟩ "repo" = some "SqlRepo" := by
  have hplain : ∀ r ∈ repoRecords, r.IsPlain := by
    decide
  refine ⟨hplain, ?_⟩
  have hcaller : InstanceRecord.recordedAt repoRecords ["Caller"] "repo" ≠ [] := by
    simp [InstanceRecord.recordedAt, repoRecords, Scope.names, Scope.file]
  rcases member_types_by_innermost_scope repoRecords hplain
    ⟨[⟨.classType, "Caller"⟩, ⟨.method, "run"⟩]⟩ (by decide) "repo" (by decide) with
    ⟨names, r, hinnermost, hr, htype⟩ | ⟨hnone, -⟩
  · have hlength := hinnermost.longest ["Caller"] (by decide) hcaller
    have hnames : names ∈ [[], ["Caller"], ["Caller", "run"]] :=
      (List.mem_inits names _).2 hinnermost.around
    rw [List.mem_cons, List.mem_cons, List.mem_singleton] at hnames
    rcases hnames with rfl | rfl | rfl
    · simp at hlength
    · have hstanding : InstanceRecord.standing?
          (InstanceRecord.recordedAt repoRecords ["Caller"] "repo") =
          some ⟨⟨[⟨.classType, "Caller"⟩]⟩, "repo", "SqlRepo", true⟩ := rfl
      rw [htype, Option.some.inj (hr.symm.trans hstanding)]
    · exact absurd rfl hinnermost.recorded
  · exact absurd (hnone ["Caller"] (by decide)) hcaller

end Bindings

end CodeImpact
