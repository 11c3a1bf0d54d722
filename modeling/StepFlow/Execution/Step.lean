import StepFlow.Execution.Flow
import StepFlow.Execution.Recovery
import StepFlow.Process.Gather

/-!
# Stepping

`Execution.step` runs the state that is next, `Execution.drive` steps until the end. Map and Parallel
states run nested executions, each with a fork of the context, and gather them; a nested execution
that ends in a Fail state or aborts is a failure of the state.

How the tree of an execution is refreshed and how nested executions are joined are parts that can be
exchanged: `stepVia` and `driveVia` take any two, and `step` and `drive` are those with `sync` and `gather`.

Executions may go on for ever, so the processes are built with a budget: the number of steps of one
execution, of attempts of one state and of levels of nesting. Where it is used up the process is
stuck.
-/

namespace StepFlow

/-- Most branches of a Parallel state for which the first failure in time counts; with more, results
are taken in order. -/
def maxEagerBranches : Nat := 30

/-- A way to run nested executions as one process. -/
abbrev Join := Execution → Nat → Discipline → List (Slot Execution TaskFailure Document) →
  Process Execution (Except TaskFailure (List Document))

namespace Execution

abbrev Attempt := Process Execution (Except TaskFailure Document)

/-- One attempt at a task: its input becomes the environment of a request. -/
def attemptTask (setting : Setting) (s : TaskState) (input : Document) (x : Execution) : Attempt :=
  let effective := renderWith s.parameters x.tree (s.filters.input x.tree input)
  let secrets := match s.credentials with
    | some t => t.render (.obj []) setting.credentials
    | none => .null
  let request : Except RunnerError Request := do
    let _ ← setting.runners.resolve s.resource
    let env ← Environment.ofInput effective
    return ⟨s.resource, env, secrets, s.timeoutSeconds.map .ofSeconds,
      s.heartbeatSeconds.map .ofSeconds⟩
  match request with
  | .error e => .done (.error (.ofRunnerError e))
  | .ok request => do
    match ← Process.ask x request with
    | .error e => return .error (.ofRunnerError e)
    | .ok report =>
      if report.success then
        return shapeResult s.results s.filters x.tree input report.result
      else return .error (.ofReport report)

/-- What a nested execution that is over means to the state that started it. -/
def nestedResult (x : Execution) (result : Except RuntimeError Document) :
    Except TaskFailure Document :=
  match result with
  | .error e => .error ⟨TaskFailure.branchFailed, e.message⟩
  | .ok output =>
    match x.failure with
    | some f => .error ⟨f.error.getD TaskFailure.branchFailed, f.cause.getD ""⟩
    | none => .ok output

/-- A nested execution as one of several. -/
def nestedSlot (drive : Execution → Process Execution (Execution × Except RuntimeError Document))
    (x : Execution) : Slot Execution TaskFailure Document :=
  .ready (Process.bind (fun (x, result) => .done (nestedResult x result)) (drive x))

/-- The nested execution for one item. With a selector its input is rendered against its own
context. -/
def iteration (s : MapState) (iterator : Workflow) (x : Execution) (effective : Document)
    (index : Nat) (item : Document) : Execution :=
  let context := (x.context.fork iterator.startAt item).withItem index item
  let context := match s.itemSelector with
    | some selector =>
      let input := selector.render context.toDocument effective
      { context with state := { context.state with input } }
    | none => context
  ofContext iterator context true

/-- The nested execution for one branch. -/
def branch (x : Execution) (effective : Document) (w : Workflow) : Execution :=
  ofContext w (x.context.fork w.startAt effective) true

/-- Tells of the start of the execution with its first state; of a nested one nothing is told. -/
def begin (x : Execution) : Process Execution Execution :=
  if x.status = .pending then do
    if !x.nested then Process.tell (.workflowStarted x.context.execution.input)
    return { x with status := .running }
  else return x

/-- Moves on to the state that follows, or to the end. -/
def advance (state : State) (outcome : Outcome) (x : Execution) :
    Execution × Except RuntimeError Status :=
  match outcome.next with
  | some next =>
    if (x.workflow.state? next).isSome then
      let context := { x.context with state := .pending next outcome.output }
      ({ x with current := next, context }, .ok x.status)
    else ({ x with status := .errored }, .error (.stateNotFound next))
  | none =>
    let (status, failure) := match state.action with
      | .fail s => (Status.errored, some ⟨s.error, s.cause⟩)
      | _ => (Status.success, x.failure)
    ({ x with status, failure, output := some outcome.output }, .ok status)

section
variable (refresh : Execution → Execution) (join : Join)

section
variable (drive : Execution → Process Execution (Execution × Except RuntimeError Document))

/-- One attempt at a Map state. -/
def attemptMapVia (s : MapState) (iterator : Workflow) (input : Document) (attempt : Nat)
    (x : Execution) : Attempt :=
  let effective := s.filters.input x.tree input
  match s.itemsPath.value x.tree effective with
  | some (.arr items) => do
    let limit := if s.maxConcurrency = 0 then max items.length 1 else s.maxConcurrency
    let slots := items.zipIdx.map fun (item, i) =>
      nestedSlot drive (iteration s iterator x effective i item)
    match ← join x attempt (.inOrder limit) slots with
    | .error f => return .error f
    | .ok outputs => return shapeResult s.results s.filters x.tree input (.arr outputs)
  | other =>
    .done (.error ⟨TaskFailure.runtime, "ItemsPath '" ++ s.itemsPath.expression
      ++ "' must select an array, got " ++ (other.getD .null).compact⟩)

/-- One attempt at a Parallel state. -/
def attemptParallelVia (s : ParallelState) (branches : List Workflow) (input : Document)
    (attempt : Nat) (x : Execution) : Attempt := do
  let effective := s.filters.input x.tree input
  let discipline :=
    if branches.length ≤ maxEagerBranches then Discipline.firstFailure
    else .inOrder branches.length
  let slots := branches.map fun w => nestedSlot drive (branch x effective w)
  match ← join x attempt discipline slots with
  | .error f => return .error f
  | .ok outputs => return shapeResult s.results s.filters x.tree input (.arr outputs)

/-- Runs a state that has been entered. -/
def runStateVia (setting : Setting) (budget : Nat) (name : String) (state : State)
    (input : Document) (x : Execution) : Process Execution (Execution × Except RuntimeError Outcome) :=
  let x := refresh x
  match state.action with
  | .pass s => .done (x, s.run name x.tree input)
  | .choice s => .done (x, s.run name x.tree input)
  | .succeed filters => .done (x, .ok (filters.succeed x.tree input))
  | .fail _ => .done (x, .ok ⟨none, input⟩)
  | .wait s =>
    match s.span setting.now name x.tree input with
    | .error e => .done (x, .error e)
    | .ok span => do
      Process.sleep x span
      return (x, .ok (s.outcome x.tree input))
  | .task s =>
    recoverable refresh (fun _ => attemptTask setting s input) s.transition s.recovery name input
      budget 0 none x
  | .map s iterator =>
    recoverable refresh (attemptMapVia join drive s iterator input) s.transition s.recovery name
      input budget 0 none x
  | .parallel s branches =>
    recoverable refresh (attemptParallelVia join drive s branches input) s.transition s.recovery
      name input budget 0 none x

/-- Runs the state that is next, given how nested executions are run. An execution that is over stays
as it is. -/
def stepWithVia (setting : Setting) (budget : Nat) (x : Execution) :
    Process Execution (Execution × Except RuntimeError Status) :=
  if x.isEnd then .done (x, .ok x.status)
  else
    match x.workflow.state? x.current with
    | none => .done ({ x with status := .errored }, .error (.stateNotFound x.current))
    | some state => do
      let x ← begin x
      let name := x.current
      let input := x.context.state.input
      let x := { x with context := x.context.enter setting.stamps name input }
      Process.tell (.stateStarted name state.type input)
      match ← runStateVia refresh join drive setting budget name state input x with
      | (x, .error e) => return ({ x with status := .errored }, .error e)
      | (x, .ok outcome) =>
        let x := { x with context := x.context.finish setting.stamps outcome.output }
        Process.tell (.stateCompleted name outcome.output outcome.next)
        return x.advance state outcome

end

/-- Steps until the end and gives the output. -/
def driveVia (setting : Setting) : (budget : Nat) → Execution →
    Process Execution (Execution × Except RuntimeError Document)
  | 0, _ => .stuck
  | budget + 1, x =>
    if x.isEnd then .done (x, .ok (x.output.getD .null))
    else do
      match ← stepWithVia refresh join (driveVia setting budget) setting budget x with
      | (x, .error e) => return (x, .error e)
      | (x, .ok _) => driveVia setting budget x

/-- Runs the state that is next. -/
def stepVia (setting : Setting) (budget : Nat) (x : Execution) :
    Process Execution (Execution × Except RuntimeError Status) :=
  stepWithVia refresh join (driveVia refresh join setting budget) setting budget x

end

/-! ### With the parts of an execution -/

section
variable (drive : Execution → Process Execution (Execution × Except RuntimeError Document))

def attemptMap (s : MapState) (iterator : Workflow) (input : Document) (attempt : Nat)
    (x : Execution) : Attempt :=
  attemptMapVia gather drive s iterator input attempt x

def attemptParallel (s : ParallelState) (branches : List Workflow) (input : Document) (attempt : Nat)
    (x : Execution) : Attempt :=
  attemptParallelVia gather drive s branches input attempt x

def runState (setting : Setting) (budget : Nat) (name : String) (state : State) (input : Document)
    (x : Execution) : Process Execution (Execution × Except RuntimeError Outcome) :=
  runStateVia sync gather drive setting budget name state input x

def stepWith (setting : Setting) (budget : Nat) (x : Execution) :
    Process Execution (Execution × Except RuntimeError Status) :=
  stepWithVia sync gather drive setting budget x

end

def drive (setting : Setting) (budget : Nat) (x : Execution) :
    Process Execution (Execution × Except RuntimeError Document) :=
  driveVia sync gather setting budget x

def step (setting : Setting) (budget : Nat) (x : Execution) :
    Process Execution (Execution × Except RuntimeError Status) :=
  stepVia sync gather setting budget x

end Execution

end StepFlow
