import CodeImpact.Proofs.ArgumentOrder
import CodeImpact.Proofs.Text

/-!
# Workers and batches

Settings are adjusted step by step, by changes of one setting and by environments. Beside the words
that hold the number of workers and the batch size stand the numbers without bound that the steps
ask for, which are never zero. The word for the workers is always the number asked for. The batch
size and the number of threads are products, so their words are the numbers asked for modulo the
size of a word: they are right as long as the products fit, and zero if a product is a multiple of
that size. Command lines take every positive word as a number of workers.
-/

namespace CodeImpact

/-! ## Adjustments -/

/-- One adjustment of the settings. -/
inductive Adjustment
  | setting (change : Setting)
  | environment (env : Environment)
  deriving DecidableEq, Repr

namespace Settings

/-- Makes one adjustment. -/
def adjust (s : Settings) : Adjustment → Settings
  | .setting change => s.set change
  | .environment env => s.withEnvironment env

/-- Makes adjustments one after the other. -/
def adjusted (s : Settings) (steps : List Adjustment) : Settings :=
  steps.foldl adjust s

end Settings

/-- The numbers that settings stand for. -/
structure Counts where
  workers : Nat
  batchSize : Nat

namespace Counts

/-- What one adjustment asks for: at least one worker, four files for each, and no empty batch. -/
def adjust (c : Counts) : Adjustment → Counts
  | .setting (.workers n) => ⟨max 1 n.toNat, 4 * max 1 n.toNat⟩
  | .setting (.batchSize n) => { c with batchSize := max 1 n.toNat }
  | _ => c

/-- What adjustments ask for one after the other. -/
def adjusted (c : Counts) (steps : List Adjustment) : Counts :=
  steps.foldl adjust c

structure Positive (c : Counts) : Prop where
  workers : 1 ≤ c.workers
  batchSize : 1 ≤ c.batchSize

theorem Positive.adjust {c : Counts} (h : c.Positive) (step : Adjustment) :
    (c.adjust step).Positive := by
  have hmax (n : UInt64) : 1 ≤ max 1 n.toNat := Nat.le_max_left 1 n.toNat
  cases step with
  | environment env => exact h
  | setting change =>
    cases change with
    | workers n => exact ⟨hmax n, Nat.le_trans (hmax n) (by simp only [Counts.adjust]; omega)⟩
    | batchSize n => exact ⟨h.workers, hmax n⟩
    | maxFileSize | timeoutSeconds | includes | excludes | useIgnoreFiles => exact h

theorem Positive.adjusted {c : Counts} (h : c.Positive) (steps : List Adjustment) :
    (c.adjusted steps).Positive := by
  induction steps generalizing c with
  | nil => exact h
  | cons step steps ih => exact ih (h.adjust step)

end Counts

/-! ## Words and the numbers they stand for -/

namespace Settings

variable {s : Settings} {c : Counts}

def counts (s : Settings) : Counts :=
  ⟨s.workers.toNat, s.batchSize.toNat⟩

/-- The words of the settings are the numbers asked for, as far as they fit. -/
structure Tracks (s : Settings) (c : Counts) : Prop where
  workers : s.workers.toNat = c.workers
  batchSize : s.batchSize.toNat = c.batchSize % UInt64.size

theorem tracks_counts (s : Settings) : s.Tracks s.counts :=
  ⟨rfl, (Nat.mod_eq_of_lt s.batchSize.toNat_lt_size).symm⟩

theorem toNat_atLeastOne (n : UInt64) : (atLeastOne n).toNat = max 1 n.toNat := by
  unfold atLeastOne
  by_cases h : n = 0
  · simp [h]
  · have hne : n.toNat ≠ 0 := fun hzero => h (UInt64.toNat_inj.1 hzero)
    rw [if_neg h]
    omega

/-- The batch size is four files for each worker, modulo 64 bits. -/
theorem toNat_filesOf (n : UInt64) :
    (atLeastOne n * filesPerWorker).toNat = 4 * max 1 n.toNat % UInt64.size := by
  rw [UInt64.toNat_mul, toNat_atLeastOne, Nat.mul_comm]
  rfl

/-- The number of threads is two for each worker, modulo 64 bits. -/
theorem toNat_threadLimit (h : 1 ≤ s.workers.toNat) :
    s.threadLimit.toNat = 2 * s.workers.toNat % UInt64.size := by
  have hworkers : (atLeastOne s.workers).toNat = s.workers.toNat := by
    rw [toNat_atLeastOne]
    omega
  rw [threadLimit, UInt64.toNat_mul, hworkers, Nat.mul_comm]
  rfl

theorem Tracks.adjust (h : s.Tracks c) (step : Adjustment) :
    (s.adjust step).Tracks (c.adjust step) := by
  cases step with
  | environment env => exact ⟨h.workers, h.batchSize⟩
  | setting change =>
    cases change with
    | workers n => exact ⟨toNat_atLeastOne n, toNat_filesOf n⟩
    | batchSize n =>
      have hword : (atLeastOne n).toNat % UInt64.size = (atLeastOne n).toNat :=
        Nat.mod_eq_of_lt (atLeastOne n).toNat_lt_size
      rw [toNat_atLeastOne] at hword
      exact ⟨h.workers, (toNat_atLeastOne n).trans hword.symm⟩
    | maxFileSize | timeoutSeconds | includes | excludes | useIgnoreFiles =>
      exact ⟨h.workers, h.batchSize⟩

/-- A run of changes: the settings follow the counts modulo 64 bits. -/
theorem Tracks.adjusted (h : s.Tracks c) (steps : List Adjustment) :
    (s.adjusted steps).Tracks (c.adjusted steps) := by
  induction steps generalizing s c with
  | nil => exact h
  | cons step steps ih => exact ih (h.adjust step)

end Settings

/-- The batch size asked for fits in a word as long as four files for each worker do. -/
theorem Counts.batchSize_adjusted_lt {c : Counts} {steps : List Adjustment}
    (hc : c.batchSize < UInt64.size)
    (hsteps : ∀ n, .setting (.workers n) ∈ steps → 4 * n.toNat < UInt64.size) :
    (c.adjusted steps).batchSize < UInt64.size := by
  induction steps generalizing c with
  | nil => exact hc
  | cons step steps ih =>
    refine ih ?_ fun n hn => hsteps n (List.mem_cons_of_mem step hn)
    have hsize : 4 < UInt64.size := by decide
    cases step with
    | environment env => exact hc
    | setting change =>
      cases change with
      | workers n =>
        have hn := hsteps n List.mem_cons_self
        simp only [Counts.adjust]
        omega
      | batchSize n =>
        have hn := n.toNat_lt_size
        simp only [Counts.adjust]
        omega
      | maxFileSize | timeoutSeconds | includes | excludes | useIgnoreFiles => exact hc

/-! ## Command lines -/

/-- The settings that a command runs with. -/
def Command.settings? : Command → Option Settings
  | .help | .version => none
  | .graph _ _ s _ | .exportGraph _ _ _ _ _ s | .changes _ s _ | .impact _ _ _ _ s _ => some s

theorem Command.settings?_of_ofOptions? {verb : Verb} {s : Settings} {o : Options} {c : Command}
    (h : ofOptions? verb s o = some c) : c.settings? = some s := by
  cases verb <;>
  · obtain ⟨found, -, rfl⟩ := Option.map_eq_some_iff.1 h
    rfl

/-- Options change settings like a sequence of changes. -/
theorem Options.exists_adjusted_eq_settings (o : Options) (base : Settings) :
    ∃ steps, o.settings base = base.adjusted steps := by
  unfold settings
  extract_lets changes
  refine ⟨changes.map .setting, ?_⟩
  rw [Settings.adjusted, List.foldl_map]
  rfl

/-- The settings of a command arise by adjustments. -/
theorem Invocation.exists_adjusted {base u : Settings} {args : List String} {i : Invocation}
    (h : ofArguments base args = .ok i) (hu : i.command.settings? = some u) :
    ∃ steps, u = base.adjusted steps := by
  obtain rfl | rfl | ⟨verb, written, -, -, hasked⟩ := exists_written_of_ofArguments h
  · cases hu
  · cases hu
  · obtain ⟨command, hcommand, rfl⟩ := Option.map_eq_some_iff.1 hasked
    rw [Command.settings?_of_ofOptions? hcommand] at hu
    rw [← Option.some.inj hu, ← Options.settings_eq]
    exact Options.exists_adjusted_eq_settings _ base

theorem Flag.positive?_repr {n : UInt64} (h : n ≠ 0) : positive? n.toNat.repr = some n := by
  have hdigits : n.toNat.repr.toList = Nat.toDigits 10 n.toNat := by simp [Nat.repr]
  have hplus : Text.plusWord64? (Nat.toDigits 10 n.toNat) =
      Text.word64? (Nat.toDigits 10 n.toNat) := by
    unfold Text.plusWord64?
    split
    next digits heq =>
      have hdigit := List.all_eq_true.1 (Text.all_isDigit_toDigits n.toNat) '+'
      rw [heq] at hdigit
      exact absurd (hdigit List.mem_cons_self) (by decide)
    next => rfl
  rw [positive?, hdigits, hplus, Text.word64?_toDigits, Option.filter_some, if_pos (by simpa using h)]

/-- Every positive word is taken as a number of workers. -/
theorem Invocation.ofArguments_workers (base : Settings) (root : String) {n : UInt64} (h : n ≠ 0) :
    ∃ u, ofArguments base ["graph", "--root", root, "--workers", n.toNat.repr] =
      .ok ⟨.graph root false u .human, false⟩ ∧ u.workers = n := by
  let written : List WrittenOption := [.flag .root root, .flag .workers n.toNat.repr]
  have hvalue := Flag.positive?_repr h
  have haccepted : ∀ w ∈ written, w.acceptedBy .graph = true := by
    simp [written, WrittenOption.acceptedBy, Flag.belongsTo, Flag.accepts, hvalue, Verb.takesRoot]
  refine ⟨base.changedBy (.ofWritten written), (ofArguments_written haccepted).2 rfl, ?_⟩
  have hworkers : (Options.ofWritten written).workers = some n := hvalue
  rw [Settings.changedBy, hworkers, Option.map_some, Option.getD_some, Settings.atLeastOne,
    if_neg h]

/-! ## How far the words are right -/

namespace Settings

variable {s : Settings}

theorem one_le_workers_adjusted (hs : s.counts.Positive) (steps : List Adjustment) :
    1 ≤ (s.adjusted steps).workers.toNat := by
  rw [(s.tracks_counts.adjusted steps).workers]
  exact (hs.adjusted steps).workers

/-- The batch size follows the workers as far as four files for each fit in a word. -/
theorem batchSize_set_workers (s : Settings) (n : UInt64) :
    (s.set (.workers n)).batchSize.toNat = 4 * (s.set (.workers n)).workers.toNat % UInt64.size := by
  simp only [set, toNat_filesOf, toNat_atLeastOne]

/-- After any adjustments of settings with at least one worker and no empty batch, there is at least
one worker, and the batch size is what the adjustments ask for modulo the size of a word, so not
zero as long as four files for each worker that was set fit in a word. Right after the workers are
set, the batch size is four times their number if and only if this fits, and zero if and only if it
is a multiple of the size. The threads of a command are twice its workers if and only if this fits,
and command lines take every positive number of workers. -/
theorem counts_right_within_words (s : Settings) (hworkers : 1 ≤ s.workers.toNat)
    (hbatch : 1 ≤ s.batchSize.toNat) (steps : List Adjustment) :
    1 ≤ (s.adjusted steps).workers.toNat ∧
    (s.adjusted steps).Tracks (s.counts.adjusted steps) ∧
    ((∀ n, .setting (.workers n) ∈ steps → 4 * n.toNat < UInt64.size) →
      (s.adjusted steps).batchSize.toNat = (s.counts.adjusted steps).batchSize ∧
        1 ≤ (s.adjusted steps).batchSize.toNat) ∧
    (∀ n t, t = (s.adjusted steps).adjust (.setting (.workers n)) →
      (t.batchSize.toNat = 4 * t.workers.toNat ↔ 4 * t.workers.toNat < UInt64.size) ∧
      (t.batchSize.toNat = 0 ↔ UInt64.size ∣ 4 * t.workers.toNat)) ∧
    (∀ args i u, Invocation.ofArguments (s.adjusted steps) args = .ok i →
      i.command.settings? = some u → 1 ≤ u.workers.toNat ∧
        (u.threadLimit.toNat = 2 * u.workers.toNat ↔ 2 * u.workers.toNat < UInt64.size)) ∧
    ∀ n : UInt64, n ≠ 0 → ∀ root, ∃ u, Invocation.ofArguments (s.adjusted steps)
      ["graph", "--root", root, "--workers", n.toNat.repr] =
        .ok ⟨.graph root false u .human, false⟩ ∧ u.workers = n := by
  have hs : s.counts.Positive := ⟨hworkers, hbatch⟩
  have htracks := s.tracks_counts.adjusted steps
  have hsize : UInt64.size ≠ 0 := by decide
  refine ⟨one_le_workers_adjusted hs steps, htracks, ?_, ?_, ?_, ?_⟩
  · intro hfit
    have hlt := Counts.batchSize_adjusted_lt (c := s.counts) s.batchSize.toNat_lt_size hfit
    have heq : (s.adjusted steps).batchSize.toNat = (s.counts.adjusted steps).batchSize :=
      htracks.batchSize.trans (Nat.mod_eq_of_lt hlt)
    exact ⟨heq, heq ▸ (hs.adjusted steps).batchSize⟩
  · intro n t ht
    have hfollows : t.batchSize.toNat = 4 * t.workers.toNat % UInt64.size := by
      rw [ht]
      exact batchSize_set_workers _ n
    rw [hfollows, Nat.mod_eq_iff_lt hsize]
    exact ⟨Iff.rfl, Nat.dvd_iff_mod_eq_zero.symm⟩
  · intro args i u hi hu
    obtain ⟨more, rfl⟩ := Invocation.exists_adjusted hi hu
    have hone : 1 ≤ ((s.adjusted steps).adjusted more).workers.toNat := by
      have h := one_le_workers_adjusted hs (steps ++ more)
      rwa [adjusted, List.foldl_append] at h
    exact ⟨hone, by rw [toNat_threadLimit hone, Nat.mod_eq_iff_lt hsize]⟩
  · intro n hn root
    exact Invocation.ofArguments_workers _ root hn

/-- The most workers whose batch fits in a word, set between other adjustments. -/
def crowded : List Adjustment :=
  [.setting (.batchSize 0), .setting (.workers 4611686018427387903),
    .environment { timeoutSeconds := some " 5 " }]

theorem crowded_right_within_words :
    (∀ n, .setting (.workers n) ∈ crowded → 4 * n.toNat < UInt64.size) ∧
    1 ≤ (({} : Settings).adjusted crowded).workers.toNat ∧
    (({} : Settings).adjusted crowded).batchSize.toNat = 18446744073709551612 ∧
    ∃ u, Invocation.ofArguments (({} : Settings).adjusted crowded)
        ["graph", "--root", "/w", "--workers", "9223372036854775807"] =
          .ok ⟨.graph "/w" false u .human, false⟩ ∧
      u.threadLimit.toNat = 18446744073709551614 := by
  have hfit : ∀ n, .setting (.workers n) ∈ crowded → 4 * n.toNat < UInt64.size := by
    simp [crowded, UInt64.size]
  obtain ⟨hone, -, hbatch, -, hthreads, haccepts⟩ :=
    counts_right_within_words {} (by decide) (by decide) crowded
  obtain ⟨u, hu, hworkers⟩ := haccepts 9223372036854775807 (by decide) "/w"
  have hlimit := (hthreads _ _ u hu rfl).2
  rw [hworkers] at hlimit
  exact ⟨hfit, hone, (hbatch hfit).1, u, hu, hlimit.2 (by decide)⟩

/-- With a quarter of the words as workers, a batch is empty, and with half of them there is no
thread. -/
theorem workers_wrapped :
    (({} : Settings).adjusted [.setting (.workers 4611686018427387904)]).counts =
      ⟨4611686018427387904, 0⟩ ∧
    ∃ u, Invocation.ofArguments {} ["graph", "--root", "/w", "--workers", "9223372036854775808"] =
        .ok ⟨.graph "/w" false u .human, false⟩ ∧
      u.workers.toNat = 9223372036854775808 ∧ u.threadLimit.toNat = 0 := by
  refine ⟨rfl, _, rfl, ?_⟩
  decide

end Settings

end CodeImpact
