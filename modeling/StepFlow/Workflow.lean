import StepFlow.Workflow.State

/-!
# Workflows

`Workflow.ofDefinition` reads every path, template and rule of a definition and checks the graph. Of
several errors the first in this order is reported: no states at all; the first state by name that
cannot be read; an unknown first state; the first state by name that leads to an unknown one. Nested
graphs are checked in the same way, by themselves.
-/

namespace StepFlow

/-! ### Fields -/

namespace Build

def path (expression : String) : Except WorkflowError Path :=
  (Path.ofString expression).mapError .path

/-- A filter: the whole value unless the field is there, and nothing if it is null. -/
def filter (field : Nullable String) : Except WorkflowError (Option Path) :=
  match field with
  | .absent => (path "$").map some
  | .null => .ok none
  | .value expression => (path expression).map some

def template (field : Option Document) : Except WorkflowError (Option Template) :=
  match field with
  | none => .ok none
  | some d => ((Template.ofDocument d).mapError .path).map some

def transition (d : Definition.Transition) : Except WorkflowError Transition :=
  match d.next, d.isEnd with
  | some next, false => .ok (.next next)
  | none, true => .ok .final
  | _, _ => .error .invalidTransition

def filters (d : Definition.Filters) : Except WorkflowError Filters := do
  let inputPath ← filter d.inputPath
  let outputPath ← filter d.outputPath
  return ⟨inputPath, outputPath⟩

def recovery (d : Definition.Recovery) : Except WorkflowError Recovery := do
  let retriers ← d.retry.mapM Retrier.ofDefinition
  let catchers ← d.catchers.mapM Catcher.ofDefinition
  return ⟨retriers, catchers⟩

def timestamp (text : String) : Except WorkflowError Timestamp :=
  (Timestamp.parse text).mapError fun flaw => .invalidDefinition (.badTimestamp text flaw)

/-- The duration of a Wait state, given by exactly one of its four fields. -/
def duration (d : Definition.Wait) : Except WorkflowError WaitDuration :=
  match d.seconds, d.secondsPath, d.timestamp, d.timestampPath with
  | some n, none, none, none => .ok (.seconds n)
  | none, some p, none, none => (path p).map .secondsPath
  | none, none, some t, none => (timestamp t).map .timestamp
  | none, none, none, some p => (path p).map .timestampPath
  | _, _, _, _ => .error (.invalidDefinition .waitSource)

/-! ### States without graphs -/

def pass (d : Definition.Pass) : Except WorkflowError PassState := do
  let transition ← transition d.transition
  let filters ← filters d.filters
  let resultPath ← resultPathOf d.resultPath
  let parameters ← template d.parameters
  return ⟨filters, transition, resultPath, parameters, d.result⟩

def task (d : Definition.Task) : Except WorkflowError TaskState := do
  if d.resource.isEmpty then throw (.invalidDefinition .emptyResource)
  let transition ← transition d.transition
  let filters ← filters d.filters
  let resultPath ← resultPathOf d.resultPath
  let parameters ← template d.parameters
  let selector ← template d.resultSelector
  let recovery ← recovery d.recovery
  let credentials ← template d.credentials
  return ⟨d.resource, filters, transition, ⟨selector, resultPath⟩, parameters, recovery,
    d.timeoutSeconds, d.heartbeatSeconds, credentials⟩

def choice (d : Definition.Choice) : Except WorkflowError ChoiceState := do
  if d.choices.isEmpty then throw (.invalidChoice .noChoices)
  let choices ← d.choices.mapM Choice.ofDocument
  let filters ← filters d.filters
  return ⟨choices, d.default, filters⟩

def wait (d : Definition.Wait) : Except WorkflowError WaitState := do
  let duration ← duration d
  let transition ← transition d.transition
  let filters ← filters d.filters
  return ⟨filters, transition, duration⟩

/-- A Map state, its graph having been read after the transition. -/
def map (d : Definition.Map) (transition : Transition) : Except WorkflowError MapState := do
  let filters ← filters d.filters
  let resultPath ← resultPathOf d.resultPath
  let itemsPath ← path (d.itemsPath.getD "$")
  let itemSelector ← template d.itemSelector
  let selector ← template d.resultSelector
  let recovery ← recovery d.recovery
  return ⟨filters, transition, ⟨selector, resultPath⟩, itemsPath, itemSelector,
    d.maxConcurrency.getD 0, recovery⟩

/-- A Parallel state, its graphs having been read after the transition. -/
def parallel (d : Definition.Parallel) (transition : Transition) :
    Except WorkflowError ParallelState := do
  let filters ← filters d.filters
  let resultPath ← resultPathOf d.resultPath
  let selector ← template d.resultSelector
  let recovery ← recovery d.recovery
  return ⟨filters, transition, ⟨selector, resultPath⟩, recovery⟩

/-! ### Graphs -/

/-- The first dangling target of the states, in their order. -/
def dangling? (all : Table State) : Table State → Option WorkflowError
  | [] => none
  | (name, s) :: rest =>
    match s.targets.find? fun target => (Table.get? target all).isNone with
    | some target => some (.unknownState name target)
    | none => dangling? all rest

/-- A graph of states that have been read. -/
def graph (header : Definition.Header) (states : Table State) : Except WorkflowError Workflow :=
  if (Table.get? header.startAt states).isNone then .error (.unknownStartAt header.startAt)
  else
    match dangling? states states with
    | some e => .error e
    | none => .ok (.mk header.startAt states header.comment header.timeoutSeconds)

end Build

mutual

def State.ofDefinition : Definition.State → Except WorkflowError State
  | .pass d => (Build.pass d).map fun s => .mk d.filters.comment (.pass s)
  | .task d => (Build.task d).map fun s => .mk d.filters.comment (.task s)
  | .choice d => (Build.choice d).map fun s => .mk d.filters.comment (.choice s)
  | .wait d => (Build.wait d).map fun s => .mk d.filters.comment (.wait s)
  | .succeed d => (Build.filters d).map fun f => .mk d.comment (.succeed f)
  | .fail d => .ok (.mk d.comment (.fail ⟨d.error, d.cause⟩))
  | .map d iterator => do
    let transition ← Build.transition d.transition
    let iterator ← Workflow.ofDefinition iterator
    let s ← Build.map d transition
    return .mk d.filters.comment (.map s iterator)
  | .parallel d branches => do
    if branches.isEmpty then throw (.invalidDefinition .noBranches)
    let transition ← Build.transition d.transition
    let branches ← branchesOfDefinitions branches
    let s ← Build.parallel d transition
    return .mk d.filters.comment (.parallel s branches)

/-- Reads and checks a graph. -/
def Workflow.ofDefinition : Definition.Graph → Except WorkflowError Workflow
  | .mk header states =>
    if states.isEmpty then .error .noStates
    else do
      let states ← statesOfDefinitions states
      Build.graph header states

def branchesOfDefinitions : List Definition.Graph → Except WorkflowError (List Workflow)
  | [] => .ok []
  | g :: rest => do
    let w ← Workflow.ofDefinition g
    .ok (w :: (← branchesOfDefinitions rest))

def statesOfDefinitions :
    List (String × Definition.State) → Except WorkflowError (List (String × State))
  | [] => .ok []
  | (name, d) :: rest => do
    let s ← (State.ofDefinition d).mapError (.invalidState name)
    .ok ((name, s) :: (← statesOfDefinitions rest))

end

end StepFlow
