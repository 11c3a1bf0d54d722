import StepFlow.Execution.Context
import StepFlow.Execution.Status
import StepFlow.Runner.Registry
import StepFlow.Workflow

/-!
# Executions

One execution of a workflow: its context, the state that is next, how far it has come and what it has
given. `tree` is the document of the context that paths read. It is kept up to date bit by bit: only
the record of the state under way and those of states newly done are written again.
-/

namespace StepFlow

/-- What all states of an execution share and none of them changes. -/
structure Setting where
  /-- The schemes that runners serve. -/
  runners : Registry Unit
  /-- What the credentials of tasks are rendered against. -/
  credentials : Document
  stamps : Stamps
  /-- The instant that waits for a timestamp count from, one for a whole session: the wall clock does not
  move with the time that passes in sleeps, and what it moves by itself meanwhile is left out. What is said
  of runs in one setting rests on that; visits at other times of the clock are visits in other settings
  (`Execution.attempt_alike`). -/
  now : Timestamp
  deriving Inhabited

structure Execution where
  workflow : Workflow
  context : Context
  tree : Document
  /-- The name of the state that is next. -/
  current : String
  status : Status
  output : Option Document
  failure : Option ExecutionFailure
  /-- An iteration of a Map state or a branch of a Parallel state. -/
  nested : Bool
  deriving Inhabited

namespace Execution

/-- An execution in which no state has run. -/
def ofContext (workflow : Workflow) (context : Context) (nested : Bool) : Execution where
  workflow := workflow
  context := context
  tree := .null
  current := workflow.startAt
  status := .pending
  output := none
  failure := none
  nested := nested

/-- An execution of a workflow on an input. -/
def start (workflow : Workflow) (id startTime : String) (input : Document) : Execution :=
  ofContext workflow (.start id startTime workflow.startAt input) false

def isEnd (x : Execution) : Bool := x.status.isTerminal

/-- Appends to a list of documents those of the records beyond its length. -/
def extendHistory (done : List Document) (records : List StateRecord) : List Document :=
  done ++ (records.drop done.length).map (·.toDocument)

/-- Brings the tree up to date with the context. -/
def sync (x : Execution) : Execution :=
  match x.tree with
  | .obj fields =>
    let fields := Table.insert "State" x.context.state.toDocument fields
    let fields := match Table.get? "States" fields with
      | some (.arr done) =>
        Table.insert "States" (.arr (extendHistory done x.context.states)) fields
      | _ => fields
    { x with tree := .obj fields }
  | _ => { x with tree := x.context.toDocument }

end Execution

/-- What a state gives: its output, and the state that follows it. -/
structure Outcome where
  next : Option String
  output : Document
  deriving Inhabited

end StepFlow
