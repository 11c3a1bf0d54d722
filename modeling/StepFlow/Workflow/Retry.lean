import StepFlow.Definition
import StepFlow.Path.Reference
import StepFlow.Workflow.Error

/-!
# Retriers and catchers

Which failures of a state are retried, after which delay, and which are caught. A failure matches a
list of patterns by its name, by its name and cause as they are rendered, or because the pattern
takes all errors. The delay grows with the number of the retry.
-/

namespace StepFlow

/-- The pattern that matches every failure. -/
def allErrors : String := "States.ALL"

/-- Does one of the patterns select a failure? -/
def matchesError (patterns : List String) (error rendered : String) : Bool :=
  patterns.any fun p => p = allErrors || p = error || p = rendered

structure Retrier where
  errorEquals : List String
  intervalSeconds : Binary64
  maxAttempts : Nat
  backoffRate : Binary64
  deriving DecidableEq, Repr, Inhabited

structure Catcher where
  errorEquals : List String
  next : String
  /-- Where the error is written; none discards it. -/
  resultPath : Option ReferencePath
  deriving DecidableEq, Repr, Inhabited

namespace Retrier

def ofDefinition (d : Definition.Retrier) : Except WorkflowError Retrier :=
  if d.errorEquals.isEmpty then .error (.invalidDefinition .retryWithoutErrors)
  else
    let interval := d.intervalSeconds.getD (.ofInt 1)
    let rate := d.backoffRate.getD (.ofInt 2)
    if interval.units < 0 ∨ rate.units < 0 then .error (.invalidDefinition .negativeRetry)
    else .ok ⟨d.errorEquals, interval, d.maxAttempts.getD 3, rate⟩

def selects (r : Retrier) (error rendered : String) : Bool :=
  matchesError r.errorEquals error rendered

/-- The nanoseconds before retry number `count`: the product of interval, rate and count, and zero
when it is beyond the range of durations. -/
def delay (r : Retrier) (count : Nat) : Nat :=
  let seconds := do
    let step ← r.intervalSeconds.mul r.backoffRate
    step.mul (.ofInt count)
  (seconds.bind Binary64.toNanos).getD 0

end Retrier

/-- Where a result is written: at the root unless the field is there, and nowhere if it is null. -/
def resultPathOf (field : Nullable String) : Except WorkflowError (Option ReferencePath) :=
  let build (expression : String) : Except WorkflowError (Option ReferencePath) :=
    match ReferencePath.ofString expression with
    | .ok p => .ok (some p)
    | .error e => .error (.path e)
  match field with
  | .absent => build "$"
  | .null => .ok none
  | .value expression => build expression

namespace Catcher

def ofDefinition (d : Definition.Catcher) : Except WorkflowError Catcher :=
  if d.errorEquals.isEmpty then .error (.invalidDefinition .catchWithoutErrors)
  else (resultPathOf d.resultPath).map fun p => ⟨d.errorEquals, d.next, p⟩

def selects (c : Catcher) (error rendered : String) : Bool :=
  matchesError c.errorEquals error rendered

end Catcher

end StepFlow
