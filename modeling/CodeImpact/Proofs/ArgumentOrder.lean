import CodeImpact.Command.Arguments

/-!
# Options in any order

A command line is a command and options: switches, and flags with their values. What it asks for
depends on the values of each flag and on the switches alone, so options of different names may
change places. The options read so far are always those that the written ones ask for.
-/

namespace CodeImpact

/-! ## Words -/

/-- The spellings of a switch. -/
def Switch.words : Switch → List String
  | .noIgnoreFiles => ["--no-gitignore"]
  | .verbose => ["--verbose", "-v"]
  | .enrich => ["--enrich"]
  | .minify => ["--minify"]
  | .cluster => ["--cluster"]

theorem Switch.ofWord?_of_mem_words {s : Switch} {word : String} (h : word ∈ s.words) :
    ofWord? word = some s := by
  cases s <;> simp only [words, List.mem_cons, List.not_mem_nil, or_false] at h
  case verbose => obtain rfl | rfl := h <;> rfl
  all_goals subst h; rfl

theorem Switch.mem_words_of_ofWord? {s : Switch} {word : String} (h : ofWord? word = some s) :
    word ∈ s.words := by
  unfold ofWord? at h
  split at h <;> simp_all
  all_goals subst h; simp [words]

/-- No word of a flag is one of a switch. -/
theorem Switch.ofWord?_word (f : Flag) : ofWord? f.word = none := by
  cases f <;> rfl

theorem Flag.ofWord?_word (f : Flag) : ofWord? f.word = some f := by
  cases f <;> decide

theorem Flag.word_of_ofWord? {f : Flag} {word : String} (h : ofWord? word = some f) :
    f.word = word := by
  simpa using List.find?_some h

/-! ## Values -/

namespace Flag

/-- The positive number that a value spells. -/
def positive? (text : String) : Option UInt64 :=
  (Text.plusWord64? text.toList).filter (· ≠ 0)

/-- The items between the commas of a value, less the empty ones. -/
def items (text : String) : List String :=
  (((text.toList.splitOn ',').map Text.trimBoth).filter (· ≠ [])).map String.ofList

/-- The kinds that the items of a value name. -/
def kinds? (text : String) : Option (List Relation) :=
  (items text).mapM Relation.ofText?

/-- Whether a text can be the value of a flag. -/
def accepts (f : Flag) (text : String) : Bool :=
  match f with
  | .timeoutSeconds | .workers => (positive? text).isSome
  | .maxFileSize | .maxDepth => (Text.plusWord64? text.toList).isSome
  | .output => (OutputFormat.ofText? text).isSome
  | .format => (ExportFormat.ofText? text).isSome
  | .direction => (Direction.ofText? text).isSome
  | .kinds => (kinds? text).isSome
  | .includes | .excludes | .root | .out | .head | .base | .diff | .file => true

end Flag

namespace Options

@[simp] theorem orFail_some {α : Type} (e : UsageError) (a : α) : orFail e (some a) = .ok a :=
  rfl

@[simp] theorem orFail_none {α : Type} (e : UsageError) :
    orFail e (none : Option α) = .error e :=
  rfl

theorem orFail_eq_ok {α : Type} {e : UsageError} {o : Option α} {a : α} :
    orFail e o = .ok a ↔ o = some a := by
  cases o <;> simp [orFail]

theorem number_eq_ok {f : Flag} {text : String} {n : UInt64} :
    number f text = .ok n ↔ Text.plusWord64? text.toList = some n :=
  orFail_eq_ok

theorem positive_eq_ok {f : Flag} {text : String} {n : UInt64} :
    positive f text = .ok n ↔ Flag.positive? text = some n := by
  unfold positive number Flag.positive?
  cases Text.plusWord64? text.toList with
  | none => simp [orFail, Except.bind]
  | some m =>
    simp only [orFail, Except.bind, Option.filter_some, ne_eq, decide_not, Bool.not_eq_true']
    by_cases hm : m = 0 <;> simp [hm]

/-- Failing with a usage error or with nothing leaves the same lists. -/
theorem mapM_orFail_eq_ok {α β : Type} {e : α → UsageError} {f : α → Option β} {as : List α}
    {bs : List β} :
    as.mapM (fun a => orFail (e a) (f a)) = .ok bs ↔ as.mapM f = some bs := by
  induction as generalizing bs with
  | nil => simp [pure, Except.pure]
  | cons a as ih =>
    rw [List.mapM_cons, List.mapM_cons]
    cases f a with
    | none => simp [bind, Except.bind]
    | some b =>
      cases hrest : as.mapM fun a => orFail (e a) (f a) with
      | error err =>
        have hnone : as.mapM f = none := by
          refine Option.eq_none_iff_forall_ne_some.2 fun cs hcs => ?_
          rw [ih.2 hcs] at hrest
          cases hrest
        simp [hnone, bind, Except.bind]
      | ok cs => simp [ih.1 hrest, bind, Except.bind, pure, Except.pure]

/-- A list of kinds is read iff each item that is not empty names a kind. -/
theorem kindList_eq_ok {text : String} {ks : List Relation} :
    kindList text = .ok ks ↔ Flag.kinds? text = some ks := by
  unfold kindList Flag.kinds? Flag.items
  rw [List.mapM_map]
  exact mapM_orFail_eq_ok

end Options

/-! ## Written options -/

/-- An option as it is written: a switch by one of its words, or a flag with its value. -/
inductive WrittenOption
  | switch (s : Switch) (word : String)
  | flag (f : Flag) (value : String)
  deriving DecidableEq, Repr

namespace WrittenOption

/-- The arguments of an option. -/
def arguments : WrittenOption → List String
  | .switch _ word => [word]
  | .flag f value => [f.word, value]

/-- Whether a command takes the option as it is written. -/
def acceptedBy (verb : Verb) : WrittenOption → Bool
  | .switch s word => s.belongsTo verb && s.words.contains word
  | .flag f value => f.belongsTo verb && f.accepts value

/-- The value of an option that is the given flag. -/
def value? (f : Flag) : WrittenOption → Option String
  | .switch _ _ => none
  | .flag g value => if g = f then some value else none

/-- Whether an option is the given switch. -/
def isSwitch (s : Switch) : WrittenOption → Bool
  | .switch t _ => t = s
  | .flag _ _ => false

/-- The values of a flag in the order they are written. -/
def values (written : List WrittenOption) (f : Flag) : List String :=
  written.filterMap (value? f)

/-- Whether a switch is written. -/
def isOn (written : List WrittenOption) (s : Switch) : Bool :=
  written.any (isSwitch s)

variable {verb : Verb} {written : List WrittenOption}

@[simp] theorem values_concat_switch (s : Switch) (word : String) (f : Flag) :
    values (written ++ [.switch s word]) f = values written f := by
  simp [values, value?]

/-- A flag adds its value behind those that were given before. -/
@[simp] theorem values_concat_flag (g : Flag) (value : String) (f : Flag) :
    values (written ++ [.flag g value]) f =
      values written f ++ if g = f then [value] else [] := by
  by_cases h : g = f <;> simp [values, value?, h]

@[simp] theorem isOn_concat_switch (t : Switch) (word : String) (s : Switch) :
    isOn (written ++ [.switch t word]) s = (isOn written s || t = s) := by
  simp [isOn, isSwitch]

@[simp] theorem isOn_concat_flag (f : Flag) (value : String) (s : Switch) :
    isOn (written ++ [.flag f value]) s = isOn written s := by
  simp [isOn, isSwitch]

theorem mem_values {f : Flag} {value : String} :
    value ∈ values written f ↔ .flag f value ∈ written := by
  rw [values, List.mem_filterMap]
  constructor
  · rintro ⟨w, hw, hvalue⟩
    cases w with
    | switch s word => cases hvalue
    | flag g v =>
      rw [value?, Option.ite_none_right_eq_some] at hvalue
      obtain ⟨rfl, hv⟩ := hvalue
      rwa [← Option.some.inj hv]
  · exact fun h => ⟨_, h, by simp [value?]⟩

end WrittenOption

namespace Options

/-- What the last value of a flag says. -/
def last? {α : Type} (read : String → Option α) (values : List String) : Option α :=
  values.getLast?.bind read

/-- The options that the values of each flag and the switches ask for. -/
def asked (values : Flag → List String) (isOn : Switch → Bool) : Options where
  includes := values .includes
  excludes := values .excludes
  noIgnoreFiles := isOn .noIgnoreFiles
  timeoutSeconds := last? Flag.positive? (values .timeoutSeconds)
  maxFileSize := last? (fun text => Text.plusWord64? text.toList) (values .maxFileSize)
  workers := last? Flag.positive? (values .workers)
  verbose := isOn .verbose
  output := (last? OutputFormat.ofText? (values .output)).getD .human
  root := (values .root).getLast?
  enrich := isOn .enrich
  format := (last? ExportFormat.ofText? (values .format)).getD .json
  minify := isOn .minify
  cluster := isOn .cluster
  out := (values .out).getLast?
  head := (values .head).getLast?
  base := (values .base).getLast?
  diff := (values .diff).getLast?
  file := (values .file).getLast?
  direction := (last? Direction.ofText? (values .direction)).getD .backward
  kinds := last? Flag.kinds? (values .kinds)
  maxDepth := last? (fun text => Text.plusWord64? text.toList) (values .maxDepth)

/-- The options that written ones ask for. -/
def ofWritten (written : List WrittenOption) : Options :=
  asked (WrittenOption.values written) (WrittenOption.isOn written)

/-- One step of reading: a switch. -/
theorem turnOn_ofWritten (written : List WrittenOption) (s : Switch) (word : String) :
    (ofWritten written).turnOn s = ofWritten (written ++ [.switch s word]) := by
  cases s <;> simp [turnOn, ofWritten, asked]

/-- One step of reading: a flag with a value that it accepts. -/
theorem assign_ofWritten (written : List WrittenOption) {f : Flag} {value : String}
    (h : f.accepts value = true) :
    (ofWritten written).assign f value = .ok (ofWritten (written ++ [.flag f value])) := by
  cases f
  case includes | excludes | root | out | head | base | diff | file =>
    simp [assign, ofWritten, asked]
  case timeoutSeconds | workers =>
    obtain ⟨n, hn⟩ := Option.isSome_iff_exists.1 h
    simp [assign, positive_eq_ok.2 hn, Except.map, ofWritten, asked, last?, hn]
  case maxFileSize | maxDepth =>
    obtain ⟨n, hn⟩ := Option.isSome_iff_exists.1 h
    simp [assign, number_eq_ok.2 hn, Except.map, ofWritten, asked, last?, hn]
  case kinds =>
    obtain ⟨ks, hks⟩ := Option.isSome_iff_exists.1 h
    simp [assign, kindList_eq_ok.2 hks, Except.map, ofWritten, asked, last?, hks]
  case output | format | direction =>
    obtain ⟨a, ha⟩ := Option.isSome_iff_exists.1 h
    simp [assign, Except.map, ofWritten, asked, last?, ha]

/-- What is made from a value that is read needs the value. -/
theorem exists_of_map_eq_ok {α β : Type} {x : Except UsageError α} {f : α → β} {b : β}
    (h : x.map f = .ok b) : ∃ a, x = .ok a := by
  cases x with
  | error e => cases h
  | ok a => exact ⟨a, rfl⟩

/-- A value that is taken is one that the flag accepts. -/
theorem accepts_of_assign {o o' : Options} {f : Flag} {value : String}
    (h : o.assign f value = .ok o') : f.accepts value = true := by
  cases f
  case includes | excludes | root | out | head | base | diff | file => rfl
  case timeoutSeconds | workers =>
    obtain ⟨n, hn⟩ := exists_of_map_eq_ok h
    exact Option.isSome_iff_exists.2 ⟨n, positive_eq_ok.1 hn⟩
  case maxFileSize | maxDepth =>
    obtain ⟨n, hn⟩ := exists_of_map_eq_ok h
    exact Option.isSome_iff_exists.2 ⟨n, number_eq_ok.1 hn⟩
  case kinds =>
    obtain ⟨ks, hks⟩ := exists_of_map_eq_ok h
    exact Option.isSome_iff_exists.2 ⟨ks, kindList_eq_ok.1 hks⟩
  case output | format | direction =>
    obtain ⟨a, ha⟩ := exists_of_map_eq_ok h
    exact Option.isSome_iff_exists.2 ⟨a, orFail_eq_ok.1 ha⟩

/-! ## Reading -/

variable {verb : Verb} {o : Options}

theorem read_switch {s : Switch} {word : String} (hword : Switch.ofWord? word = some s)
    (hverb : s.belongsTo verb = true) (rest : List String) :
    read verb o (word :: rest) = read verb (o.turnOn s) rest := by
  rw [read.eq_def]
  simp only [hword, Option.filter_some, hverb, if_true]

/-- The word after a flag is its value, also if it looks like a flag. -/
theorem read_flag {f : Flag} (hverb : f.belongsTo verb = true) (value : String)
    (rest : List String) :
    read verb o (f.word :: value :: rest) =
      (o.assign f value).bind fun o => read verb o rest := by
  rw [read.eq_def]
  simp only [Switch.ofWord?_word, Flag.ofWord?_word, Option.filter_none, Option.filter_some, hverb,
    if_true]
  cases o.assign f value <;> rfl

/-- One more option takes the options of those before it to the options with it. -/
theorem read_ofWritten_append (written : List WrittenOption) {w : WrittenOption}
    (h : w.acceptedBy verb = true) (rest : List String) :
    read verb (ofWritten written) (w.arguments ++ rest) =
      read verb (ofWritten (written ++ [w])) rest := by
  cases w with
  | switch s word =>
    obtain ⟨hverb, hword⟩ := Bool.and_eq_true_iff.1 h
    rw [List.contains_iff_mem] at hword
    rw [WrittenOption.arguments, List.singleton_append,
      read_switch (Switch.ofWord?_of_mem_words hword) hverb, turnOn_ofWritten]
  | flag f value =>
    obtain ⟨hverb, hvalue⟩ := Bool.and_eq_true_iff.1 h
    rw [WrittenOption.arguments, List.cons_append, List.singleton_append, read_flag hverb,
      assign_ofWritten written hvalue, Except.bind]

/-- A run of reading: options that are accepted one by one are accepted together, and what is read
depends on the options alone. -/
theorem read_ofWritten (written : List WrittenOption) {later : List WrittenOption}
    (h : ∀ w ∈ later, w.acceptedBy verb = true) :
    read verb (ofWritten written) (later.flatMap WrittenOption.arguments) =
      .ok (ofWritten (written ++ later)) := by
  induction later generalizing written with
  | nil => simp [read]
  | cons w later ih =>
    obtain ⟨hw, hlater⟩ := List.forall_mem_cons.1 h
    rw [List.flatMap_cons, read_ofWritten_append written hw, ih _ hlater, List.append_assoc,
      List.singleton_append]

/-- Arguments that can be read are written options. -/
theorem exists_written_of_read (written : List WrittenOption) {args : List String} {o' : Options}
    (h : read verb (ofWritten written) args = .ok o') :
    ∃ later : List WrittenOption, (∀ w ∈ later, w.acceptedBy verb = true) ∧
      later.flatMap WrittenOption.arguments = args ∧ o' = ofWritten (written ++ later) := by
  generalize ho : ofWritten written = o at h
  fun_induction read verb o args generalizing written with
  | case1 =>
    obtain rfl := Except.ok.inj h
    exact ⟨[], by simp, rfl, by rw [List.append_nil, ho]⟩
  | case2 o word rest s hs ih =>
    obtain ⟨hword, hverb⟩ := Option.filter_eq_some_iff.1 hs
    have hnext := (turnOn_ofWritten written s word).symm
    rw [ho] at hnext
    obtain ⟨later, hlater, hrest, ho'⟩ := ih _ hnext h
    refine ⟨.switch s word :: later, ?_, by simp [WrittenOption.arguments, hrest], ?_⟩
    · have hspelled := List.contains_iff_mem.2 (Switch.mem_words_of_ofWord? hword)
      exact List.forall_mem_cons.2 ⟨Bool.and_eq_true_iff.2 ⟨hverb, hspelled⟩, hlater⟩
    · rw [ho', List.append_assoc, List.singleton_append]
  | case5 o word _ f value rest hf o'' hassign ih =>
    obtain ⟨hword, hverb⟩ := Option.filter_eq_some_iff.1 hf
    have hvalue := accepts_of_assign hassign
    rw [← ho, assign_ofWritten written hvalue] at hassign
    obtain ⟨later, hlater, hrest, ho'⟩ := ih _ (Except.ok.inj hassign) h
    refine ⟨.flag f value :: later, ?_, ?_, ?_⟩
    · exact List.forall_mem_cons.2 ⟨Bool.and_eq_true_iff.2 ⟨hverb, hvalue⟩, hlater⟩
    · simp [WrittenOption.arguments, hrest, Flag.word_of_ofWord? hword]
    · rw [ho', List.append_assoc, List.singleton_append]
  | case3 | case4 | case6 => cases h

end Options

/-! ## What a command line asks for -/

/-- The flags that a command needs. -/
def Verb.required : Verb → List Flag
  | .graph | .exportGraph => [.root]
  | .changes | .impact => [.head, .base, .diff]

/-- The settings with those that the options ask for. -/
def Settings.changedBy (s : Settings) (o : Options) : Settings where
  maxFileSize := o.maxFileSize.getD s.maxFileSize
  timeoutSeconds := o.timeoutSeconds.getD s.timeoutSeconds
  workers := (o.workers.map atLeastOne).getD s.workers
  batchSize := (o.workers.map fun n => atLeastOne n * filesPerWorker).getD s.batchSize
  includes := o.includes
  excludes := o.excludes
  useIgnoreFiles := !o.noIgnoreFiles

theorem Options.settings_eq (o : Options) (base : Settings) :
    o.settings base = base.changedBy o := by
  unfold settings Settings.changedBy
  cases o.timeoutSeconds <;> cases o.maxFileSize <;> cases o.workers <;> rfl

/-- Where the options find a change. -/
def DiffSource.ofOptions? (o : Options) : Option DiffSource :=
  o.head.bind fun head => o.base.bind fun base => o.diff.map fun diff => ⟨head, base, diff, o.file⟩

/-- The command that the options complete, if all that it needs is there. -/
def Command.ofOptions? (verb : Verb) (s : Settings) (o : Options) : Option Command :=
  match verb with
  | .graph => o.root.map fun root => .graph root o.enrich s o.output
  | .exportGraph => o.root.map fun root => .exportGraph root o.format o.minify o.cluster o.out s
  | .changes => (DiffSource.ofOptions? o).map fun source => .changes source s o.output
  | .impact =>
    (DiffSource.ofOptions? o).map fun source =>
      .impact source o.direction o.kinds o.maxDepth s o.output

/-- What a command with the values of each flag and the switches asks for. -/
def Invocation.asked? (verb : Verb) (base : Settings) (values : Flag → List String)
    (isOn : Switch → Bool) : Option Invocation :=
  let o := Options.asked values isOn
  (Command.ofOptions? verb (base.changedBy o) o).map fun command => ⟨command, o.verbose⟩

namespace Options

theorem diffSource_eq_ok {o : Options} {source : DiffSource} :
    o.diffSource = .ok source ↔ DiffSource.ofOptions? o = some source := by
  unfold diffSource DiffSource.ofOptions? need
  cases o.head <;> cases o.base <;> cases o.diff <;>
    simp [bind, Except.bind, pure, Except.pure]

/-- A command is complete iff all that it needs was given. -/
theorem command_eq_ok {o : Options} {verb : Verb} {base : Settings} {c : Command} :
    o.command verb base = .ok c ↔ Command.ofOptions? verb (base.changedBy o) o = some c := by
  rw [← settings_eq]
  cases verb with
  | graph | exportGraph =>
    unfold command Command.ofOptions? need
    cases o.root <;> simp [bind, Except.bind, pure, Except.pure]
  | changes | impact =>
    unfold command Command.ofOptions?
    cases hsource : o.diffSource with
    | ok source =>
      simp [diffSource_eq_ok.1 hsource, bind, Except.bind, pure, Except.pure]
    | error e =>
      have hnone : DiffSource.ofOptions? o = none := by
        refine Option.eq_none_iff_forall_ne_some.2 fun source h => ?_
        rw [diffSource_eq_ok.2 h] at hsource
        cases hsource
      simp [hnone, bind, Except.bind]

end Options

namespace Invocation

variable {verb : Verb} {base : Settings} {i : Invocation}

theorem ofArguments_word (verb : Verb) (base : Settings) (rest : List String) :
    ofArguments base (verb.word :: rest) = (do
      let o ← Options.read verb {} rest
      let command ← o.command verb base
      return ⟨command, o.verbose⟩) := by
  cases verb <;> rfl

/-- Reading a command line is looking up the values and switches that it writes, in whatever order
they come. -/
theorem ofArguments_written {written : List WrittenOption}
    (h : ∀ w ∈ written, w.acceptedBy verb = true) :
    ofArguments base (verb.word :: written.flatMap WrittenOption.arguments) = .ok i ↔
      asked? verb base (WrittenOption.values written) (WrittenOption.isOn written) = some i := by
  have hread : Options.read verb {} (written.flatMap WrittenOption.arguments) =
      .ok (Options.ofWritten written) := Options.read_ofWritten [] h
  have hask : asked? verb base (WrittenOption.values written) (WrittenOption.isOn written) =
      (Command.ofOptions? verb (base.changedBy (.ofWritten written)) (.ofWritten written)).map
        (⟨·, (Options.ofWritten written).verbose⟩) := rfl
  rw [ofArguments_word, hread, hask, Option.map_eq_some_iff]
  simp only [bind, Except.bind, pure, Except.pure, ← Options.command_eq_ok]
  cases (Options.ofWritten written).command verb base <;> simp

/-- Every command line that is accepted is a command with options that it takes. -/
theorem exists_written_of_ofArguments {args : List String} (h : ofArguments base args = .ok i) :
    i = ⟨.help, false⟩ ∨ i = ⟨.version, false⟩ ∨
      ∃ (verb : Verb) (written : List WrittenOption),
        (∀ w ∈ written, w.acceptedBy verb = true) ∧
        args = verb.word :: written.flatMap WrittenOption.arguments ∧
        asked? verb base (WrittenOption.values written) (WrittenOption.isOn written) = some i := by
  cases args with
  | nil => cases h
  | cons word rest =>
    rw [ofArguments] at h
    split at h
    · exact .inl (Except.ok.inj h).symm
    split at h
    · exact .inr (.inl (Except.ok.inj h).symm)
    split at h
    · cases h
    next verb hverb =>
      have hword : verb.word = word := by simpa using List.find?_some hverb
      cases hread : Options.read verb {} rest with
      | error e => simp [hread, bind, Except.bind] at h
      | ok o =>
        obtain ⟨written, hwritten, hrest, -⟩ := Options.exists_written_of_read [] hread
        refine .inr (.inr ⟨verb, written, hwritten, by rw [hword, hrest], ?_⟩)
        rw [← ofArguments_written hwritten, ofArguments_word, hrest]
        exact h

/-- A command with all the options it needs asks for something. -/
theorem isSome_asked? (verb : Verb) (base : Settings) {values : Flag → List String}
    (h : ∀ f ∈ verb.required, values f ≠ []) (isOn : Switch → Bool) :
    (asked? verb base values isOn).isSome = true := by
  have hlast : ∀ f ∈ verb.required, ∃ value, (values f).getLast? = some value := fun f hf =>
    Option.isSome_iff_exists.1 (List.getLast?_isSome.2 (h f hf))
  unfold asked? Command.ofOptions?
  cases verb with
  | graph | exportGraph =>
    obtain ⟨root, hroot⟩ := hlast .root (by decide)
    simp [Options.asked, hroot]
  | changes | impact =>
    obtain ⟨head, hhead⟩ := hlast .head (by decide)
    obtain ⟨old, hold⟩ := hlast .base (by decide)
    obtain ⟨diff, hdiff⟩ := hlast .diff (by decide)
    simp [DiffSource.ofOptions?, Options.asked, hhead, hold, hdiff]

/-- A command line is accepted if it has the options that its command needs. What it asks for is
determined by the values of each flag and by the switches, so it stays the same if options change
places and those of one flag keep their order. -/
theorem arguments_in_any_order (verb : Verb) (base : Settings) (written : List WrittenOption)
    (haccepted : ∀ w ∈ written, w.acceptedBy verb = true)
    (hrequired : ∀ f ∈ verb.required, WrittenOption.values written f ≠ []) :
    ∃ i, ofArguments base (verb.word :: written.flatMap WrittenOption.arguments) = .ok i ∧
      asked? verb base (WrittenOption.values written) (WrittenOption.isOn written) = some i ∧
      ∀ other : List WrittenOption, other.Perm written →
        (∀ f, WrittenOption.values other f = WrittenOption.values written f) →
        ofArguments base (verb.word :: other.flatMap WrittenOption.arguments) = .ok i := by
  obtain ⟨i, hi⟩ := Option.isSome_iff_exists.1
    (isSome_asked? verb base hrequired (WrittenOption.isOn written))
  refine ⟨i, (ofArguments_written haccepted).2 hi, hi, fun other hperm hvalues => ?_⟩
  have hswitches : WrittenOption.isOn other = WrittenOption.isOn written :=
    funext fun s => hperm.any_eq
  refine (ofArguments_written fun w hw => haccepted w (hperm.mem_iff.1 hw)).2 ?_
  rw [funext hvalues, hswitches, hi]

/-- Options with values that look like flags, and with a flag that is given twice. -/
def flagLikeValues : List WrittenOption :=
  [.flag .includes "--head", .switch .verbose "-v", .flag .head "old", .flag .base "--diff",
    .flag .diff "-v", .flag .kinds "calls,, has-method ", .flag .head "new"]

/-- The same options with each flag next to the others of its name. -/
def flagLikeValuesMoved : List WrittenOption :=
  [.flag .head "old", .flag .head "new", .flag .kinds "calls,, has-method ",
    .flag .includes "--head", .flag .diff "-v", .flag .base "--diff", .switch .verbose "-v"]

theorem flagLikeValues_in_any_order :
    ∃ i, ofArguments {} ["impact", "--include", "--head", "-v", "--head", "old", "--base", "--diff",
        "--diff", "-v", "--kinds", "calls,, has-method ", "--head", "new"] = .ok i ∧
      ofArguments {} ["impact", "--head", "old", "--head", "new", "--kinds", "calls,, has-method ",
        "--include", "--head", "--diff", "-v", "--base", "--diff", "-v"] = .ok i ∧
      i = ⟨.impact ⟨"new", "--diff", "-v", none⟩ .backward (some [.calls, .hasMethod]) none
        { includes := ["--head"] } .human, true⟩ := by
  obtain ⟨i, hread, hasked, hmoved⟩ :=
    arguments_in_any_order .impact {} flagLikeValues (by decide) (by decide)
  refine ⟨i, hread, hmoved flagLikeValuesMoved (by decide) (by intro f; cases f <;> rfl), ?_⟩
  exact Option.some.inj (hasked.symm.trans (by decide))

end Invocation

end CodeImpact
