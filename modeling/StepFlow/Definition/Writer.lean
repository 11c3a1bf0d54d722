import StepFlow.Definition

/-!
# Writing definitions

`Graph.toDocument` writes a definition under the first name of every field. Absent options and empty
lists of retriers and catchers are left out, whether a state ends the workflow is always written
where it can be, and a null of a path field is kept.
-/

namespace StepFlow.Definition

open Record

def strings (xs : List String) : Document := .arr (xs.map .str)

def double (x : Binary64) : Document := .num (.float x)

namespace Retrier

def toDocument (r : Retrier) : Document :=
  .ofList (("ErrorEquals", strings r.errorEquals)
    :: (present "IntervalSeconds" double r.intervalSeconds
      ++ present "MaxAttempts" Document.ofNat r.maxAttempts
      ++ present "BackoffRate" double r.backoffRate))

end Retrier

namespace Catcher

def toDocument (c : Catcher) : Document :=
  .ofList (("ErrorEquals", strings c.errorEquals) :: ("Next", .str c.next)
    :: written "ResultPath" .str c.resultPath)

end Catcher

def Filters.toFields (f : Filters) : Fields :=
  present "Comment" .str f.comment ++ written "InputPath" .str f.inputPath
    ++ written "OutputPath" .str f.outputPath

def Transition.toFields (t : Transition) : Fields :=
  ("End", .bool t.isEnd) :: present "Next" .str t.next

def Recovery.toFields (r : Recovery) : Fields :=
  nonempty "Retry" Retrier.toDocument r.retry ++ nonempty "Catch" Catcher.toDocument r.catchers

def Pass.toFields (s : Pass) : Fields :=
  s.filters.toFields ++ s.transition.toFields ++ written "ResultPath" .str s.resultPath
    ++ present "Parameters" id s.parameters ++ present "Result" id s.result

def Task.toFields (s : Task) : Fields :=
  ("Resource", .str s.resource) :: (s.filters.toFields ++ s.transition.toFields
    ++ written "ResultPath" .str s.resultPath ++ present "Parameters" id s.parameters
    ++ present "ResultSelector" id s.resultSelector ++ s.recovery.toFields
    ++ present "TimeoutSeconds" Document.ofNat s.timeoutSeconds
    ++ present "HeartbeatSeconds" Document.ofNat s.heartbeatSeconds
    ++ present "Credentials" id s.credentials)

def Choice.toFields (s : Choice) : Fields :=
  ("Choices", .arr s.choices) :: (present "Default" .str s.default ++ s.filters.toFields)

def Wait.toFields (s : Wait) : Fields :=
  s.filters.toFields ++ s.transition.toFields ++ present "Seconds" Document.ofNat s.seconds
    ++ present "SecondsPath" .str s.secondsPath ++ present "Timestamp" .str s.timestamp
    ++ present "TimestampPath" .str s.timestampPath

def Fail.toFields (s : Fail) : Fields :=
  present "Comment" .str s.comment ++ present "Error" .str s.error ++ present "Cause" .str s.cause

def Map.toFields (s : Map) : Fields :=
  s.filters.toFields ++ s.transition.toFields ++ written "ResultPath" .str s.resultPath
    ++ present "ItemsPath" .str s.itemsPath ++ present "ItemSelector" id s.itemSelector
    ++ present "ResultSelector" id s.resultSelector
    ++ present "MaxConcurrency" Document.ofNat s.maxConcurrency ++ s.recovery.toFields

def Parallel.toFields (s : Parallel) : Fields :=
  s.filters.toFields ++ s.transition.toFields ++ written "ResultPath" .str s.resultPath
    ++ present "ResultSelector" id s.resultSelector ++ s.recovery.toFields

def Header.toFields (h : Header) : Fields :=
  ("StartAt", .str h.startAt) :: (present "Comment" .str h.comment
    ++ present "Version" .str h.version
    ++ present "TimeoutSeconds" Document.ofNat h.timeoutSeconds)

/-- A state of a type with its fields. -/
def typed (type : StateType) (fields : Fields) : Document :=
  .ofList (("Type", .str type.name) :: fields)

mutual

def State.toDocument : State → Document
  | .pass s => typed .pass s.toFields
  | .task s => typed .task s.toFields
  | .choice s => typed .choice s.toFields
  | .wait s => typed .wait s.toFields
  | .succeed f => typed .succeed f.toFields
  | .fail s => typed .fail s.toFields
  | .map s iterator => typed .map (("Iterator", iterator.toDocument) :: s.toFields)
  | .parallel s branches => typed .parallel (("Branches", .arr (branchDocuments branches)) :: s.toFields)

def Graph.toDocument : Graph → Document
  | .mk header states => .ofList (("States", .obj (stateDocuments states)) :: header.toFields)

def branchDocuments : List Graph → List Document
  | [] => []
  | g :: rest => g.toDocument :: branchDocuments rest

def stateDocuments : List (String × State) → Fields
  | [] => []
  | (name, s) :: rest => (name, s.toDocument) :: stateDocuments rest

end

end StepFlow.Definition
