import CodeImpact.Proofs.Text
import CodeImpact.Scope
import Mathlib.Data.List.Infix

/-!
# The parts of a key

A key is a path, a separator and the names of a scope, with nothing escaped, and separators overlap:
three colons hold two of them. A path is found again in front of the first separator exactly if it
holds none and does not end with a colon. Names without colons are then told from the rest, also
empty ones; only no name at all and one empty name have the same text.
-/

namespace CodeImpact

/-! ## Texts of keys -/

theorem toList_keySeparator : keySeparator.toList = [':', ':'] := by
  simp [keySeparator]

theorem toList_compositeKey (path rest : String) :
    (compositeKey path rest).toList = path.toList ++ ':' :: ':' :: rest.toList := by
  simp [compositeKey, keySeparator]

theorem colon_mem_compositeKey (outer name : String) : ':' ∈ (compositeKey outer name).toList := by
  simp [toList_compositeKey]

/-- The separator between a path and a scope is the one between two names. -/
theorem compositeKey_assoc (path outer name : String) :
    compositeKey path (compositeKey outer name) = compositeKey (compositeKey path outer) name := by
  simp [compositeKey, String.append_assoc]

/-! ## Paths in front of a separator -/

/-- A path such that no separator starts before the one that is put behind it. -/
structure EndsAtSeparator (path : String) : Prop where
  no_separator : ¬ keySeparator.toList <:+: path.toList
  last_ne : path.toList.getLast? ≠ some ':'

/-- A path ends at the first separator iff no earlier place can be one. -/
theorem endsAtSeparator_iff {path : String} :
    EndsAtSeparator path ↔ ¬ [':', ':'] <:+: path.toList ++ [':'] := by
  have hsuffix : [':', ':'] <:+ path.toList ++ [':'] ↔ path.toList.getLast? = some ':' := by
    constructor
    · rintro ⟨lead, hlead⟩
      have hpath : path.toList = lead ++ [':'] :=
        (List.append_left_inj [':']).1 (by simpa using hlead.symm)
      simp [hpath]
    · intro hlast
      obtain ⟨lead, hlead⟩ := List.getLast?_eq_some_iff.1 hlast
      exact ⟨lead, by simp [hlead]⟩
  rw [List.infix_concat_iff, hsuffix, ← toList_keySeparator, not_or]
  constructor
  · intro h
    exact ⟨h.last_ne, h.no_separator⟩
  · rintro ⟨hlast, hnone⟩
    exact ⟨hnone, hlast⟩

instance (path : String) : Decidable (EndsAtSeparator path) :=
  decidable_of_iff _ endsAtSeparator_iff.symm

theorem endsAtSeparator_of_not_mem {path : String} (h : ':' ∉ path.toList) :
    EndsAtSeparator path := by
  constructor
  · intro hinside
    rw [toList_keySeparator] at hinside
    exact h (hinside.subset List.mem_cons_self)
  · intro hlast
    exact h (List.mem_of_getLast? hlast)

/-- A key is taken apart at its first separator, and at no other. -/
theorem splitComposite?_eq_some_iff {key path rest : String} :
    splitComposite? key = some (path, rest) ↔
      key = compositeKey path rest ∧ EndsAtSeparator path := by
  rw [endsAtSeparator_iff]
  constructor
  · intro h
    obtain ⟨⟨before, after⟩, hcut, heq⟩ := Option.map_eq_some_iff.1 h
    obtain ⟨rfl, rfl⟩ := Prod.mk.inj heq
    rw [toList_keySeparator] at hcut
    constructor
    · rw [← String.toList_inj, toList_compositeKey, Text.cut?_eq_some hcut]
      simp
    · simpa using Text.not_infix_dropLast_of_cut? (List.cons_ne_nil _ _) hcut
  · rintro ⟨rfl, hpath⟩
    have hcut : Text.cut? [':', ':'] (path.toList ++ ':' :: ':' :: rest.toList) =
        some (path.toList, rest.toList) := Text.cut?_append_of_not_infix hpath rest.toList
    rw [splitComposite?, toList_compositeKey, toList_keySeparator, hcut]
    simp

theorem splitComposite?_ne_none (path rest : String) :
    splitComposite? (compositeKey path rest) ≠ none := by
  have hcut := Text.cut?_ne_none path.toList [':', ':'] rest.toList
  rw [splitComposite?, toList_compositeKey, toList_keySeparator]
  simpa using hcut

/-- The path of a key is found again if it ends at the first separator. -/
theorem splitComposite?_compositeKey {path : String} (h : EndsAtSeparator path) (rest : String) :
    splitComposite? (compositeKey path rest) = some (path, rest) :=
  splitComposite?_eq_some_iff.2 ⟨rfl, h⟩

/-- A path and what follows it can be read off a key. -/
theorem compositeKey_inj_of_path {path other rest rest' : String} (h : EndsAtSeparator path)
    (h' : EndsAtSeparator other) (heq : compositeKey path rest = compositeKey other rest') :
    path = other ∧ rest = rest' := by
  have hsplit := splitComposite?_compositeKey h rest
  rw [heq, splitComposite?_compositeKey h' rest'] at hsplit
  obtain ⟨hpaths, hrests⟩ := Prod.mk.inj (Option.some.inj hsplit)
  exact ⟨hpaths.symm, hrests.symm⟩

/-! ## Names behind it -/

/-- A name without colons is found again behind the last separator. -/
theorem cutLast?_compositeKey {name : String} (h : ':' ∉ name.toList) (outer : String) :
    Text.cutLast? keySeparator.toList (compositeKey outer name).toList =
      some (outer.toList, name.toList) := by
  have hcut := Text.cutLast?_append h outer.toList [':']
  rw [toList_keySeparator, toList_compositeKey]
  simpa using hcut

/-- A name without a colon and what stands before it can be read off a key. -/
theorem compositeKey_inj {outer outer' name name' : String} (h : ':' ∉ name.toList)
    (h' : ':' ∉ name'.toList) (heq : compositeKey outer name = compositeKey outer' name') :
    outer = outer' ∧ name = name' := by
  have hcut := cutLast?_compositeKey h outer
  rw [heq, cutLast?_compositeKey h' outer'] at hcut
  obtain ⟨houter, hname⟩ := Prod.mk.inj (Option.some.inj hcut)
  exact ⟨(String.toList_inj.1 houter).symm, (String.toList_inj.1 hname).symm⟩

namespace Scope

/-- The names of the enclosing declarations, outermost first. -/
def names (s : Scope) : List String :=
  s.frames.map (·.name)

theorem qualify_nil (name : String) : qualify ⟨[]⟩ name = name := rfl

theorem chain_concat (frames : List Frame) (f : Frame) :
    chain ⟨frames ++ [f]⟩ = qualify ⟨frames⟩ f.name := by
  by_cases hframes : frames = []
  · simp [hframes, chain, qualify, isFileLevel]
  · have houter : isFileLevel ⟨frames⟩ = false := by simpa [isFileLevel] using hframes
    rw [qualify, houter, if_neg Bool.false_ne_true, chain, List.map_append,
      String.intercalate_append_of_ne_nil (by simpa using hframes) (by simp),
      List.map_singleton, String.intercalate_singleton]
    rfl

/-- A name inside a frame follows the name of the frame. -/
theorem qualify_concat (frames : List Frame) (f : Frame) (name : String) :
    qualify ⟨frames ++ [f]⟩ name = compositeKey (qualify ⟨frames⟩ f.name) name := by
  have hlevel : isFileLevel ⟨frames ++ [f]⟩ = false := by simp [isFileLevel]
  rw [qualify, hlevel, if_neg Bool.false_ne_true, chain_concat]

theorem names_concat (frames : List Frame) (f : Frame) :
    names ⟨frames ++ [f]⟩ = names ⟨frames⟩ ++ [f.name] := by
  simp [names]

/-- Names without colons can be read off their text. -/
theorem qualify_inj {s t : Scope} {name other : String} (hs : ∀ n ∈ s.names, ':' ∉ n.toList)
    (ht : ∀ n ∈ t.names, ':' ∉ n.toList) (hname : ':' ∉ name.toList) (hother : ':' ∉ other.toList)
    (h : s.qualify name = t.qualify other) : s.names = t.names ∧ name = other := by
  obtain ⟨frames⟩ := s
  obtain ⟨others⟩ := t
  induction frames using List.reverseRecOn generalizing others name other with
  | nil =>
    cases others using List.reverseRecOn with
    | nil => exact ⟨rfl, h⟩
    | append_singleton others g =>
      rw [qualify_nil, qualify_concat] at h
      exact absurd (h ▸ colon_mem_compositeKey _ _) hname
  | append_singleton frames f ih =>
    cases others using List.reverseRecOn with
    | nil =>
      rw [qualify_nil, qualify_concat] at h
      exact absurd (h ▸ colon_mem_compositeKey _ _) hother
    | append_singleton others g =>
      rw [qualify_concat, qualify_concat] at h
      obtain ⟨houter, rfl⟩ := compositeKey_inj hname hother h
      rw [names_concat, List.forall_mem_append, List.forall_mem_singleton] at hs ht
      obtain ⟨hnames, hlast⟩ := ih hs.2 ht.2 hs.1 others ht.1 houter
      rw [names_concat, names_concat, hnames, hlast]
      exact ⟨rfl, rfl⟩

theorem chain_congr {s t : Scope} (h : s.names = t.names) : s.chain = t.chain :=
  congrArg keySeparator.intercalate h

theorem qualify_congr {s t : Scope} (h : s.names = t.names) (name : String) :
    s.qualify name = t.qualify name := by
  have hlevel : s.isFileLevel = t.isFileLevel := by
    simpa [names, isFileLevel] using congrArg List.isEmpty h
  rw [qualify, qualify, hlevel, chain_congr h]

/-- The names of a scope can be read off its chain, unless there are none. -/
theorem names_of_chain_eq {s t : Scope} (hs : ∀ n ∈ s.names, ':' ∉ n.toList)
    (ht : ∀ n ∈ t.names, ':' ∉ n.toList) (hsne : s.frames ≠ []) (htne : t.frames ≠ [])
    (h : s.chain = t.chain) : s.names = t.names := by
  obtain ⟨frames⟩ := s
  obtain ⟨others⟩ := t
  cases frames using List.reverseRecOn with
  | nil => exact absurd rfl hsne
  | append_singleton frames f =>
    cases others using List.reverseRecOn with
    | nil => exact absurd rfl htne
    | append_singleton others g =>
      rw [names_concat, List.forall_mem_append, List.forall_mem_singleton] at hs ht
      rw [chain_concat, chain_concat] at h
      obtain ⟨hnames, hlast⟩ := qualify_inj hs.1 ht.1 hs.2 ht.2 h
      rw [names_concat, names_concat, hnames, hlast]

end Scope

/-- Keys tell declarations apart: a key has the path and the names of one declaration only. It is
taken apart into its path and the rest of it, and what a text is taken apart into makes it up again,
with a path that holds no separator. -/
theorem keys_name_declarations :
    (∀ (path other : String) (s t : Scope), EndsAtSeparator path → EndsAtSeparator other →
      s.frames ≠ [] → t.frames ≠ [] → (∀ n ∈ s.names, ':' ∉ n.toList) →
      (∀ n ∈ t.names, ':' ∉ n.toList) →
      (s.key path = t.key other ↔ path = other ∧ s.names = t.names)) ∧
    (∀ path : String, EndsAtSeparator path → ∀ rest : String,
      splitComposite? (compositeKey path rest) = some (path, rest)) ∧
    ∀ text path rest : String, splitComposite? text = some (path, rest) →
      compositeKey path rest = text ∧ EndsAtSeparator path := by
  refine ⟨?_, ?_, ?_⟩
  · intro path other s t hpath hother hsne htne hs ht
    constructor
    · intro hkey
      obtain ⟨hpaths, hchains⟩ := compositeKey_inj_of_path hpath hother hkey
      exact ⟨hpaths, Scope.names_of_chain_eq hs ht hsne htne hchains⟩
    · rintro ⟨rfl, hnames⟩
      rw [Scope.key, Scope.key, Scope.chain_congr hnames]
  · intro path hpath rest
    exact splitComposite?_compositeKey hpath rest
  · intro text path rest hsplit
    obtain ⟨htext, hpath⟩ := splitComposite?_eq_some_iff.1 hsplit
    exact ⟨htext.symm, hpath⟩

/-- A path with colons of its own, and a name that is empty. -/
theorem unnamed_class_key_apart :
    let s : Scope := ⟨[⟨.classType, ""⟩, ⟨.method, "m"⟩]⟩
    let t : Scope := ⟨[⟨.function, "m"⟩]⟩
    s.key "C:/a:b.rs" ≠ t.key "C:/a:b.rs" ∧
      splitComposite? "C:/a:b.rs::::m" = some ("C:/a:b.rs", "::m") ∧
      EndsAtSeparator "C:/a:b.rs" := by
  intro s t
  have hpath : EndsAtSeparator "C:/a:b.rs" := by decide
  have hsplit := keys_name_declarations.2.1 "C:/a:b.rs" hpath "::m"
  refine ⟨fun hkey => ?_, hsplit, (keys_name_declarations.2.2 _ _ _ hsplit).2⟩
  have hnames := ((keys_name_declarations.1 _ _ s t hpath hpath (by decide) (by decide)
    (by decide) (by decide)).1 hkey).2
  exact absurd hnames (by decide)

/-- A colon at the end of a path is lost to what follows it. -/
example : compositeKey "a:" "b" = compositeKey "a" ":b" := by decide

end CodeImpact
