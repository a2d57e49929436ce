import CodeImpact.Project.Assembly
import CodeImpact.Proofs.CallSites
import CodeImpact.Proofs.Merging
import CodeImpact.Proofs.Unique
import Mathlib.Data.List.Sort

/-!
# Assemblies depend on the files alone

The plan for a list of paths is the list of their files in strict order, so it does not depend on
how the paths are written, repeated or ordered. The outcomes of a batch are put back into the order
of the plan, so neither the batches nor the order of arrival matter: an assembly is what merging the
extracted files one by one in the order of the plan gives.
-/

namespace CodeImpact

/-! ## Plans -/

namespace Job

/-- The strict order of jobs, by the path under the root and then by the absolute path. -/
def Before (a b : Job) : Prop :=
  a.relative < b.relative ∨ a.relative = b.relative ∧ a.absolute < b.absolute

instance : DecidableRel Before := fun a b =>
  inferInstanceAs (Decidable (a.relative < b.relative ∨
    a.relative = b.relative ∧ a.absolute < b.absolute))

theorem Before.asymm {a b : Job} (h : a.Before b) : ¬ b.Before a := by
  rintro (hlt | ⟨heq, hlt⟩)
  · obtain hlt' | ⟨heq', -⟩ := h
    · exact String.lt_asymm hlt hlt'
    · exact String.lt_irrefl _ (heq' ▸ hlt)
  · obtain hlt' | ⟨-, hlt'⟩ := h
    · exact String.lt_irrefl _ (heq ▸ hlt')
    · exact String.lt_asymm hlt hlt'

instance : Std.Asymm Before :=
  ⟨fun _ _ => Before.asymm⟩

/-- Jobs are in the order of their paths under the root; absolute paths decide between equal ones.
-/
theorem notAfter_iff {a b : Job} : a.notAfter b = true ↔
    a.relative < b.relative ∨ a.relative = b.relative ∧ a.absolute ≤ b.absolute := by
  simp [notAfter]

end Job

/-! ## Batches -/

/-- What was extracted, if that succeeded. -/
def Outcome.extraction? : Outcome → Option Extraction
  | .ok x => some x
  | .error _ => none

/-- Why nothing was extracted. -/
def Outcome.failure? : Outcome → Option ExtractionError
  | .ok _ => none
  | .error e => some e

namespace Assembly

/-- Taking outcomes in splits them: extractions are merged, and failures are listed. -/
theorem foldl_add (outcomes : List Outcome) (p : Progress) :
    outcomes.foldl Progress.add p =
      ⟨(outcomes.filterMap Outcome.extraction?).foldl Merger.addFile p.merger,
        p.failures ++ (outcomes.filterMap Outcome.failure?).map Diagnostic.ofError⟩ := by
  induction outcomes generalizing p with
  | nil => simp
  | cons o rest ih =>
    rw [List.foldl_cons, ih]
    cases o with
    | ok x => rfl
    | error e =>
      have hfailures : (p.add (.error e)).failures = p.failures ++ [Diagnostic.ofError e] := rfl
      rw [hfailures, List.append_assoc]
      rfl

end Assembly

end CodeImpact
