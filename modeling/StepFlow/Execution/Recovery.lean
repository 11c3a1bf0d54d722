import StepFlow.Execution
import StepFlow.Execution.Error
import StepFlow.Process

/-!
# Retrying and catching

A state whose attempt fails is tried again as long as the first retrier that matches the failure
allows it, each time from the raw input and after the retrier's delay. The count of retries starts
again whenever another retrier takes over. When the retrier is exhausted, or there is none, the first
catcher that matches writes the failure into the raw input and leads on; without one the execution is
aborted.
-/

namespace StepFlow

namespace Recovery

/-- The first retrier that matches a failure, with its position. -/
def retrier? (r : Recovery) (f : TaskFailure) : Option (Nat × Retrier) :=
  (r.retriers.zipIdx.find? fun (retrier, _) => retrier.selects f.error f.render).map
    fun (retrier, i) => (i, retrier)

def catcher? (r : Recovery) (f : TaskFailure) : Option Catcher :=
  r.catchers.find? fun c => c.selects f.error f.render

end Recovery

/-- What becomes of a failure. -/
inductive Remedy where
  /-- Another attempt after a delay; `position` is that of the retrier. -/
  | retry (position : Nat) (delay : Duration) (record : StateRecord)
  /-- No other attempt; the record is that of the state under way. -/
  | giveUp (record : StateRecord)

namespace Remedy

/-- The record after a failure that a retrier matches: one retry more, counted from the start when
the last failure was another retrier's. The count has 32 bits, and these suffice unless a retrier
allows `2 ^ 32 - 1` retries (`Recovery.FitsCount`); what a count past them would be is left out. -/
def count (position : Nat) (retrier : Retrier) (last : Option Nat) (r : StateRecord) : StateRecord :=
  if last = some position then { r with retryCount := r.retryCount + 1 }
  else { r with retryCount := 1, retrier := some retrier.errorEquals }

/-- Whether to try again after a failure. -/
def ofFailure (recovery : Recovery) (f : TaskFailure) (last : Option Nat) (r : StateRecord) :
    Remedy :=
  match recovery.retrier? f with
  | some (position, retrier) =>
    let r := count position retrier last r
    if r.retryCount ≤ retrier.maxAttempts then
      .retry position (retrier.delay r.retryCount) r
    else .giveUp r
  | none => .giveUp r

end Remedy

namespace Execution

/-- The execution with another record of the state under way. -/
def withRecord (x : Execution) (record : StateRecord) : Execution :=
  { x with context := { x.context with state := record } }

/-- A failure that is not retried: caught, or the end of the execution. -/
def catchFailure (recovery : Recovery) (name : String) (input : Document) (f : TaskFailure)
    (x : Execution) : Process Execution (Execution × Except RuntimeError Outcome) :=
  match recovery.catcher? f with
  | none => .done (x, .error (.taskFailed name f))
  | some c =>
    match (match c.resultPath with
      | some p => p.set input f.toDocument
      | none => .ok input) with
    | .error e => .done (x, .error (.path name e))
    | .ok output => do
      Process.tell (.taskCaught name f.error c.next)
      return (x, .ok ⟨some c.next, output⟩)

/-- Attempts a state, numbered from `attempt` on, until it succeeds, is caught or fails for good. Before
every attempt the tree is refreshed, since paths may read the count of retries. -/
def recoverable (refresh : Execution → Execution)
    (run : Nat → Execution → Process Execution (Except TaskFailure Document)) (transition : Transition)
    (recovery : Recovery) (name : String) (input : Document) :
    (budget attempt : Nat) → (last : Option Nat) → Execution →
      Process Execution (Execution × Except RuntimeError Outcome)
  | 0, _, _, _ => .stuck
  | budget + 1, attempt, last, x => do
    let x := refresh x
    match ← run attempt x with
    | .ok output => return (x, .ok ⟨transition.next?, output⟩)
    | .error f =>
      match Remedy.ofFailure recovery f last x.context.state with
      | .giveUp record => catchFailure recovery name input f (x.withRecord record)
      | .retry position delay record =>
        let x := x.withRecord record
        Process.tell (.taskRetrying name f.error record.retryCount (Duration.toMillisWord delay))
        Process.sleep x delay
        recoverable refresh run transition recovery name input budget (attempt + 1) (some position) x

end Execution

end StepFlow
