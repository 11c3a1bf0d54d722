import StepFlow.Document.Printer
import StepFlow.Document.Draft
import StepFlow.Duration

/-!
# Errors of runners
-/

namespace StepFlow

/-- Why an input cannot become the environment of a task. -/
inductive InputFlaw where
  | notAnObject (d : Document)
  | other (reason : String)
  deriving Inhabited

inductive RunnerError where
  /-- No runner serves the scheme of the resource. -/
  | unsupportedScheme (resource : String)
  | invalidResource (resource reason : String)
  | invalidInput (flaw : InputFlaw)
  | spawn (program : String)
  | timeout (resource : String) (limit : Duration)
  | configMissing (path : String)
  | configUnreadable (path : String) (fault : Fault)
  | json (reason : String)
  | io (reason : String)
  deriving Inhabited

def InputFlaw.message : InputFlaw → String
  | notAnObject d => "expected an object, got " ++ d.compact
  | other reason => reason

def RunnerError.message : RunnerError → String
  | unsupportedScheme resource => "no runner registered for resource '" ++ resource ++ "'"
  | invalidResource resource reason => "invalid resource '" ++ resource ++ "': " ++ reason
  | invalidInput flaw => "invalid task input: " ++ flaw.message
  | spawn program => "failed to start '" ++ program ++ "'"
  | timeout resource limit =>
    "resource '" ++ resource ++ "' timed out after " ++ limit.secondsText ++ "s"
  | configMissing path => "failed to read runner config '" ++ path ++ "'"
  | configUnreadable path _ => "failed to parse runner config '" ++ path ++ "'"
  | json reason => "json error: " ++ reason
  | io reason => "io error: " ++ reason

end StepFlow
