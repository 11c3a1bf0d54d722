import StepFlow.Execution.Failure
import StepFlow.Workflow.Error

/-!
# Errors that abort an execution
-/

namespace StepFlow

/-- Why the duration of a Wait state cannot be found: what its path reads is of no use. -/
inductive WaitFlaw where
  | seconds (expression : String) (got : Document)
  | timestamp (expression : String) (got : Document)
  deriving Inhabited

inductive RuntimeError where
  | stateNotFound (state : String)
  | noChoiceMatched (state : String)
  | evaluation (state : String) (source : EvaluationError)
  | path (state : String) (source : PathError)
  | invalidWait (state : String) (flaw : WaitFlaw)
  | taskFailed (state : String) (failure : TaskFailure)
  | timeout (seconds : Nat)
  deriving Inhabited

def WaitFlaw.message : WaitFlaw → String
  | seconds e got =>
    "SecondsPath '" ++ e ++ "' must select a non-negative integer, got " ++ got.compact
  | timestamp e got =>
    "TimestampPath '" ++ e ++ "' must select an RFC3339 timestamp, got " ++ got.compact

def RuntimeError.message : RuntimeError → String
  | stateNotFound state => "state '" ++ state ++ "' not found in workflow"
  | noChoiceMatched state =>
    "no choice matched in state '" ++ state ++ "' and no Default is set"
  | evaluation state _ => "failed to evaluate choice in state '" ++ state ++ "'"
  | path state _ => "failed to apply path in state '" ++ state ++ "'"
  | invalidWait state flaw => "invalid wait in state '" ++ state ++ "': " ++ flaw.message
  | taskFailed state failure => "state '" ++ state ++ "' failed: " ++ failure.render
  | timeout seconds => "workflow timed out after " ++ toString seconds ++ "s"

end StepFlow
