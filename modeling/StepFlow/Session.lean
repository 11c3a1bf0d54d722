import StepFlow.Execution.Step
import StepFlow.Process.Timeline

/-!
# Sessions

A session is an execution with its timeline, on which steps and whole runs can be made one after the
other. The limit that a workflow sets on its time counts from the start of a run, and holds for a run
of the whole workflow only, neither for single steps nor for nested graphs.
-/

namespace StepFlow

structure Session (ω : Type) where
  execution : Execution
  timeline : Timeline ω
  deriving Inhabited

namespace Session

variable {ω : Type}

/-- A session in which nothing has happened. -/
def start (execution : Execution) (world : ω) : Session ω := ⟨execution, .start world⟩

/-- Adds an event of the execution as a whole. -/
def tell (event : Event) (s : Session ω) : Session ω :=
  { s with timeline := s.timeline.logEvent [] event }

/-- Runs the state that is next; none when the budget is used up. -/
def step (setting : Setting) (runners : Runners ω) (budget : Nat) (s : Session ω) :
    Option (Session ω × Except RuntimeError Status) :=
  match (Execution.step setting budget s.execution).run runners none s.timeline with
  | (.finished (x, result), t) => some (⟨x, t⟩, result)
  | (.cut _, _) | (.stuck, _) => none

/-- The time at which a run that starts now is cut off; a timer watches it. -/
def deadline (s : Session ω) : Option Duration :=
  if s.execution.nested then none
  else
    s.execution.workflow.timeoutSeconds.map fun n =>
      s.timeline.clock + (Duration.ofSeconds n).onTimer

/-- The session after a run, with the event that closes it. -/
def close (result : Except RuntimeError Document) (s : Session ω) :
    Session ω × Except RuntimeError Document :=
  match result with
  | .ok output => (s.tell (.workflowCompleted s.execution.status output), result)
  | .error e =>
    (tell (.workflowFailed e.message) { s with execution.status := .errored }, result)

/-- Runs to the end; none when the budget is used up. -/
def run (setting : Setting) (runners : Runners ω) (budget : Nat) (s : Session ω) :
    Option (Session ω × Except RuntimeError Document) :=
  match (Execution.drive setting budget s.execution).run runners s.deadline s.timeline with
  | (.finished (x, result), t) => some (close result ⟨x, t⟩)
  | (.cut x, t) =>
    let seconds := s.execution.workflow.timeoutSeconds.getD 0
    some (close (.error (.timeout seconds)) ⟨x, t⟩)
  | (.stuck, _) => none

end Session

end StepFlow
