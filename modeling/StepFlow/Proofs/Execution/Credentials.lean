import StepFlow.Proofs.Execution.Attempt
import StepFlow.Proofs.Execution.Sim

/-!
# Executions under other credentials

Credentials go nowhere but into the secrets of requests: what an execution does is, up to the secrets,
the same under any (`drive_credentials`). And nothing but credentials goes there: whatever a task is
run on, all its requests have the secrets that its template gives (`runState_secrets`).
-/

namespace StepFlow

/-- Requests that agree in all but their secrets. -/
structure Request.SameButSecrets (r r' : Request) : Prop where
  resource : r.resource = r'.resource
  env : r.env = r'.env
  timeout : r.timeout = r'.timeout
  heartbeat : r.heartbeat = r'.heartbeat

theorem Request.SameButSecrets.refl (r : Request) : r.SameButSecrets r := ⟨rfl, rfl, rfl, rfl⟩

namespace Execution
open Process

/-! ### The same but for the secrets -/

section
variable (setting : Setting) (credentials : Document)

theorem attemptTask_credentials (s : TaskState) (input : Document) (x : Execution) :
    (attemptTask setting s input x).Sim False Request.SameButSecrets
      (attemptTask { setting with credentials } s input x) := by
  unfold attemptTask
  dsimp only
  cases setting.runners.resolve s.resource with
  | error e => exact .done _
  | ok _ =>
    cases Environment.ofInput (renderWith s.parameters x.tree (s.filters.input x.tree input)) with
    | error e => exact .done _
    | ok env => exact .ask ⟨rfl, rfl, rfl, rfl⟩ _ fun result => .refl .refl _

theorem drive_credentials (budget : Nat) (x : Execution) :
    (drive setting budget x).Sim False Request.SameButSecrets
      (drive { setting with credentials } budget x) :=
  driveVia_sim .refl sync .gather (attemptTask_credentials setting credentials) budget x

theorem step_credentials (budget : Nat) (x : Execution) :
    (step setting budget x).Sim False Request.SameButSecrets
      (step { setting with credentials } budget x) :=
  stepVia_sim .refl sync .gather (attemptTask_credentials setting credentials) budget x

end

/-! ### What the secrets are -/

/-- A process that asks nothing but what `P` says. -/
abbrev asksOnly {α : Type} (P : Site → Request → Prop) : Contract Execution α where
  asks := P

/-- The requests of a task, in whatever execution and on whatever input it is run: they are made in the
execution itself, for the resource of the task and with its credentials. -/
theorem runState_secrets
    (drive : Execution → Process Execution (Execution × Except RuntimeError Document))
    (setting : Setting) (budget : Nat) (name : String) (comment : Option String) (s : TaskState)
    (input : Document) (x : Execution) :
    (runState drive setting budget name (.mk comment (.task s)) input x).Keeps (asksOnly fun site r =>
      site = [] ∧ r.resource = s.resource ∧ r.secrets = s.secrets setting) := by
  refine recoverable_keeps (I := fun _ => True) (fun _ _ => trivial) (fun _ _ => trivial)
    (fun _ _ _ _ => trivial) (fun attempt y _ => ?_) (fun _ _ => trivial) (fun _ _ _ _ => trivial)
    _ _ _ trivial
  exact attemptTask_keeps trivial (fun _ => trivial) fun _ hresource hsecrets => ⟨rfl, hresource, hsecrets⟩

end Execution
end StepFlow
