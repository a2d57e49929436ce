import CodeImpact.Command.Run
import CodeImpact.Proofs.ArgumentOrder
import CodeImpact.Proofs.Distance
import CodeImpact.Proofs.GraphText

/-!
# Kinds of edges in an answer

The answer to an impact command lists the kinds of edges that were chosen, and an empty list stands
for all of them. A choice is followed exactly as it is listed. The list is also empty for a choice
without any item, which follows nothing: this is the only case in which the list says something
else than what was followed.
-/

namespace CodeImpact

/-- A value that is read names one kind for each item. -/
theorem Flag.eq_nil_of_kinds? {text : String} {ks : List Relation} (h : kinds? text = some ks) :
    ks = [] ↔ items text = [] := by
  cases hitems : items text with
  | nil =>
    rw [kinds?, hitems] at h
    exact iff_of_true (Option.some.inj h).symm rfl
  | cons item items =>
    rw [kinds?, hitems, List.mapM_cons] at h
    obtain ⟨k, -, hrest⟩ := Option.bind_eq_some_iff.1 h
    obtain ⟨later, -, hks⟩ := Option.bind_eq_some_iff.1 hrest
    obtain rfl := Option.some.inj hks
    simp

namespace Invocation

/-- An impact command comes from the command's own word, and follows what the last choice names. -/
theorem kinds_of_asked {verb : Verb} {base : Settings} {values : Flag → List String}
    {isOn : Switch → Bool} {source : DiffSource} {direction : Direction}
    {kinds : Option (List Relation)} {depth : Option UInt64} {s : Settings} {output : OutputFormat}
    {verbose : Bool}
    (h : asked? verb base values isOn =
      some ⟨.impact source direction kinds depth s output, verbose⟩) :
    verb = .impact ∧ kinds = Options.last? Flag.kinds? (values .kinds) := by
  simp only [asked?, Option.map_eq_some_iff, Invocation.mk.injEq] at h
  obtain ⟨command, hcommand, rfl, -⟩ := h
  cases verb with
  | graph | exportGraph | changes => simp [Command.ofOptions?] at hcommand
  | impact =>
    simp only [Command.ofOptions?, Option.map_eq_some_iff, Command.impact.injEq] at hcommand
    obtain ⟨-, -, -, -, rfl, -⟩ := hcommand
    exact ⟨rfl, rfl⟩

end Invocation

namespace ImpactCommand

/-- The kinds that a list in an answer stands for: all of them if it is empty. -/
def listed (words : List String) : Set Relation :=
  {k | words = [] ∨ k.word ∈ words}

/-- An answer with this list of kinds and with what a traversal with these options finds. -/
structure Answers (c : LoadedChange) (o : TraversalOptions) (words : List String) (data : Json) :
    Prop where
  kinds : data.field? "kinds" = some (.texts words)
  results : data.field? "results" = some (.arr ((ImpactAnalysis.ofChanges c.head.relations
    c.base.relations c.change.changes o).results.map ImpactResult.toJson))

/-- The answer lists the words of the chosen kinds, next to the impact along them. -/
theorem answers_json (c : LoadedChange) (direction : Direction) (kinds : Option (List Relation))
    (depth : Option UInt64) :
    Answers c (options direction kinds depth) (kindWords kinds)
      (json c (.ofChanges c.head.relations c.base.relations c.change.changes
        (options direction kinds depth)) direction kinds depth) := by
  constructor <;> rw [json]
  · refine Json.holds_obj ?_ ("kinds", _) (by simp [Json.texts])
    cases depth <;> simp [Json.optionalField]
  · refine Json.holds_obj ?_ ("results", _) (by simp)
    cases depth <;> simp [Json.optionalField]

theorem run_of_load {d : Disk} {source : DiffSource} {s : Settings} {c : LoadedChange}
    (hload : LoadedChange.load d source s = .ok c) {output : OutputFormat}
    (hjson : output.isJson = true) (stamp : Stamp) (direction : Direction)
    (kinds : Option (List Relation)) (depth : Option UInt64) :
    run d stamp source direction kinds depth s output = .ok {
      stdout := stamp.answer output (json c (.ofChanges c.head.relations c.base.relations
        c.change.changes (options direction kinds depth)) direction kinds depth) c.isPartial
      disk := d } := by
  rw [run, hload]
  exact if_pos hjson

/-- If the change can be loaded, the command prints this answer. -/
theorem stdout_run {d : Disk} {source : DiffSource} {s : Settings} {c : LoadedChange}
    (hload : LoadedChange.load d source s = .ok c) {output : OutputFormat}
    (hjson : output.isJson = true) (stamp : Stamp) (direction : Direction)
    (kinds : Option (List Relation)) (depth : Option UInt64) :
    ((Command.impact source direction kinds depth s output).run d stamp).stdout =
      stamp.answer output (json c (.ofChanges c.head.relations c.base.relations c.change.changes
        (options direction kinds depth)) direction kinds depth) c.isPartial := by
  delta Command.run
  simp only [run_of_load hload hjson]

/-- Without a choice every kind is followed. -/
theorem follows_options_none (direction : Direction) (depth : Option UInt64) (k : Relation) :
    (options direction none depth).follows k = true :=
  rfl

/-- A choice is followed as it is listed. -/
theorem follows_options_some (direction : Direction) (ks : List Relation) (depth : Option UInt64)
    (k : Relation) :
    (options direction (some ks) depth).follows k = true ↔ k.word ∈ kindWords (some ks) := by
  rw [kindWords, Option.getD_some, List.mem_map_of_injective Relation.word_injective]
  simp [options, TraversalOptions.follows]

/-- The answer to an accepted command line lists the kinds that are followed, if any are chosen, and
none if all are followed. It also lists none if there is a choice without items: only then does the
list not stand for what is followed. -/
theorem answer_lists_followed_kinds {base : Settings} {args : List String} {source : DiffSource}
    {direction : Direction} {kinds : Option (List Relation)} {depth : Option UInt64} {s : Settings}
    {output : OutputFormat} {verbose : Bool}
    (haccepted : Invocation.ofArguments base args =
      .ok ⟨.impact source direction kinds depth s output, verbose⟩) :
    ∃ written : List WrittenOption,
      args = "impact" :: written.flatMap WrittenOption.arguments ∧
      (∀ (d : Disk) (stamp : Stamp) (c : LoadedChange), output.isJson = true →
        LoadedChange.load d source s = .ok c →
        ∃ data, Answers c (options direction kinds depth) (kindWords kinds) data ∧
          ((Command.impact source direction kinds depth s output).run d stamp).stdout =
            stamp.answer output data c.isPartial) ∧
      (WrittenOption.values written .kinds = [] →
        kindWords kinds = [] ∧ ∀ k, (options direction kinds depth).follows k = true) ∧
      (∀ text, (WrittenOption.values written .kinds).getLast? = some text →
        (kindWords kinds = [] ↔ Flag.items text = []) ∧
        ∀ k, (options direction kinds depth).follows k = true ↔ k.word ∈ kindWords kinds) ∧
      ((∀ k, (options direction kinds depth).follows k = true ↔ k ∈ listed (kindWords kinds)) ↔
        ∀ text, (WrittenOption.values written .kinds).getLast? = some text →
          Flag.items text ≠ []) := by
  obtain hhelp | hversion | ⟨verb, written, hwritten, rfl, hasked⟩ :=
    Invocation.exists_written_of_ofArguments haccepted
  · cases hhelp
  · cases hversion
  obtain ⟨rfl, rfl⟩ := Invocation.kinds_of_asked hasked
  refine ⟨written, rfl,
    fun d stamp c hjson hload => ⟨_, answers_json c _ _ _, stdout_run hload hjson stamp _ _ _⟩, ?_⟩
  cases hlast : (WrittenOption.values written .kinds).getLast? with
  | none =>
    have hnone : Options.last? Flag.kinds? (WrittenOption.values written .kinds) = none := by
      rw [Options.last?, hlast, Option.bind_none]
    rw [hnone]
    have hfollows := follows_options_none direction depth
    refine ⟨fun _ => ⟨rfl, hfollows⟩, by simp, ?_⟩
    exact iff_of_true (fun k => iff_of_true (hfollows k) (.inl rfl)) (by simp)
  | some text =>
    have hvalue := hwritten _ (WrittenOption.mem_values.1 (List.mem_of_getLast? hlast))
    rw [WrittenOption.acceptedBy, Bool.and_eq_true] at hvalue
    obtain ⟨ks, hks⟩ := Option.isSome_iff_exists.1 hvalue.2
    have hsome : Options.last? Flag.kinds? (WrittenOption.values written .kinds) = some ks := by
      rw [Options.last?, hlast, Option.bind_some, hks]
    rw [hsome]
    have hempty : kindWords (some ks) = [] ↔ Flag.items text = [] :=
      List.map_eq_nil_iff.trans (Flag.eq_nil_of_kinds? hks)
    have hfollows := follows_options_some direction ks depth
    refine ⟨fun h => by simp [h] at hlast, fun _ h => ?_, ?_⟩
    · obtain rfl := Option.some.inj h
      exact ⟨hempty, hfollows⟩
    constructor
    · -- the answer to an empty choice stands for all kinds, and none is followed
      intro hlisted _ h hitems
      obtain rfl := Option.some.inj h
      have hnil := hempty.2 hitems
      have hcalls := (hfollows .calls).1 ((hlisted .calls).2 (.inl hnil))
      rw [hnil] at hcalls
      cases hcalls
    · intro hitems k
      have hne : kindWords (some ks) ≠ [] := fun h => hitems text rfl (hempty.1 h)
      exact (hfollows k).trans (or_iff_right hne).symm

/-- A command line that chooses two kinds, with blanks and an empty item. -/
def twoKinds : List String :=
  ["impact", "--kinds", "calls,, has-method ", "--head", "h", "--base", "b", "--diff", "d",
    "--output", "json"]

theorem twoKinds_followed :
    Invocation.ofArguments {} twoKinds = .ok ⟨.impact ⟨"h", "b", "d", none⟩ .backward
      (some [.calls, .hasMethod]) none {} .json, false⟩ ∧
    ∀ k, (options .backward (some [.calls, .hasMethod]) none).follows k = true ↔
      k ∈ listed ["CALLS", "HAS_METHOD"] := by
  have haccepted : Invocation.ofArguments {} twoKinds = .ok ⟨.impact ⟨"h", "b", "d", none⟩ .backward
      (some [.calls, .hasMethod]) none {} .json, false⟩ := by decide
  obtain ⟨written, -, -, -, hchosen, hlisted⟩ := answer_lists_followed_kinds haccepted
  refine ⟨haccepted, hlisted.2 fun text htext hitems => ?_⟩
  exact absurd ((hchosen text htext).1.2 hitems) (by decide)

/-- A choice of kinds that is only a separator is accepted. Its answer lists no kind, as if all were
followed, and none is. -/
theorem separator_follows_nothing :
    Invocation.ofArguments {} ["impact", "--kinds", ",", "--head", "h", "--base", "b", "--diff",
        "d", "--output", "json"] =
      .ok ⟨.impact ⟨"h", "b", "d", none⟩ .backward (some []) none {} .json, false⟩ ∧
    kindWords (some []) = [] ∧
    ∀ k, k ∈ listed (kindWords (some [])) ∧
      (options .backward (some []) none).follows k = false :=
  ⟨by decide, rfl, fun _ => ⟨.inl rfl, rfl⟩⟩

end ImpactCommand

end CodeImpact
