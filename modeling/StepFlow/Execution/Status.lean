import StepFlow.Document.Record

/-!
# Status

How far an execution has come, and what is said of one that ended in a Fail state.
-/

namespace StepFlow

inductive Status where
  /-- No state has run yet. -/
  | pending
  | running
  /-- Ended in a Succeed state or a final one. -/
  | success
  /-- Ended in a Fail state or aborted. -/
  | errored
  deriving DecidableEq, Repr, Inhabited

namespace Status

def isTerminal (s : Status) : Bool := s = success || s = errored

def name : Status → String
  | pending => "pending"
  | running => "running"
  | success => "success"
  | errored => "errored"

def all : List Status := [pending, running, success, errored]

def ofName? (name : String) : Option Status := all.find? (·.name = name)

def ofDocument? (d : Document) : Option Status := d.toWord? ofName?

end Status

/-- The fields of the Fail state that an execution ended in. -/
structure ExecutionFailure where
  error : Option String
  cause : Option String
  deriving DecidableEq, Repr, Inhabited

namespace ExecutionFailure

def render (f : ExecutionFailure) : String :=
  match f.error, f.cause with
  | some error, some cause => error ++ ": " ++ cause
  | some error, none => error
  | none, some cause => cause
  | none, none => "workflow failed"

def toDocument (f : ExecutionFailure) : Document :=
  .ofList (Record.present "Error" .str f.error ++ Record.present "Cause" .str f.cause)

def layout : Layout := [("Error", true), ("Cause", true)]

def ofDocument? (d : Document) : Option ExecutionFailure := do
  let fields ← d.members? layout
  return {
    error := ← Record.optional ["Error"] Document.toStr? fields
    cause := ← Record.optional ["Cause"] Document.toStr? fields }

end ExecutionFailure

end StepFlow
