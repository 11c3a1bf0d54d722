import StepFlow.Document.Shape
import StepFlow.Path
import StepFlow.Runner.Request

/-!
# Task failures

A failure of a Task, Map or Parallel state: a name and a cause, which retriers and catchers are
matched against.
-/

namespace StepFlow

structure TaskFailure where
  error : String
  cause : String
  deriving DecidableEq, Repr, Inhabited

namespace TaskFailure

def taskFailed : String := "States.TaskFailed"
def timeout : String := "States.Timeout"
def runtime : String := "States.Runtime"
def resultPathMatchFailure : String := "States.ResultPathMatchFailure"
def parameterPathFailure : String := "States.ParameterPathFailure"
def branchFailed : String := "States.BranchFailed"

def render (f : TaskFailure) : String := f.error ++ ": " ++ f.cause

/-- What a catcher writes. -/
def toDocument (f : TaskFailure) : Document :=
  .ofList [("Error", .str f.error), ("Cause", .str f.cause)]

/-- The failure that a run reports by its exit status. An object on its standard output may name
the error and the cause; otherwise the cause is the output itself, or the status when there is no
output. -/
def ofReport (r : Report) : TaskFailure :=
  let raw := Text.trim r.output
  let reported := (Document.parse raw).toOption
  let field (name : String) : Option String :=
    (reported.bind (·.get? name)).bind Document.toStr?
  { error := (field "Error").getD taskFailed
    cause := (field "Cause").getD
      (if raw.isEmpty then "exit status " ++ toString r.exitStatus else raw) }

def ofRunnerError (e : RunnerError) : TaskFailure :=
  let name := match e with
    | .timeout .. => timeout
    | .unsupportedScheme .. | .invalidResource .. | .invalidInput .. => runtime
    | _ => taskFailed
  ⟨name, e.message⟩

def ofPathError (e : PathError) : TaskFailure :=
  let name := match e with
    | .resultPathMismatch .. => resultPathMatchFailure
    | _ => parameterPathFailure
  ⟨name, e.message⟩

end TaskFailure

/-- The result of a run: its standard output as a document, or else as a text under `results`. -/
def Report.result (r : Report) : Document :=
  let raw := Text.trim r.output
  match Document.parse raw with
  | .ok d => d
  | .error _ => .ofList [("results", .str raw)]

end StepFlow
