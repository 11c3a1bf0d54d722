import StepFlow.Definition
import StepFlow.Duration
import StepFlow.Execution.Status

/-!
# Events

What an execution tells of its progress.
-/

namespace StepFlow

inductive Event where
  | workflowStarted (input : Document)
  | stateStarted (state : String) (type : StateType) (input : Document)
  /-- A state is done; without a next one the execution ends. -/
  | stateCompleted (state : String) (output : Document) (next : Option String)
  /-- The delay is that of a log, in milliseconds. -/
  | taskRetrying (state error : String) (retryCount delayMillis : Nat)
  | taskCaught (state error next : String)
  | workflowCompleted (status : Status) (output : Document)
  | workflowFailed (error : String)
  deriving Inhabited

end StepFlow
