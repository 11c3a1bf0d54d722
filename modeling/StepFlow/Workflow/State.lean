import StepFlow.Choice
import StepFlow.Path.Template
import StepFlow.Workflow.Retry

/-!
# States

The states of a workflow with every path, template and rule of theirs read. `State.targets` lists the
names that a state can lead to.
-/

namespace StepFlow

/-- Where a state leads once it is done. -/
inductive Transition where
  | next (name : String)
  | final
  deriving DecidableEq, Repr, Inhabited

/-- The state that a transition leads to. -/
def Transition.next? : Transition → Option String
  | next name => some name
  | final => none

/-- What a state sees of its input and passes on of its output; none passes on nothing. -/
structure Filters where
  inputPath : Option Path
  outputPath : Option Path
  deriving Inhabited

structure Recovery where
  retriers : List Retrier
  catchers : List Catcher
  deriving Inhabited

/-- How the result of a state is laid into its input. -/
structure Results where
  selector : Option Template
  /-- Where the result is written; none discards it. -/
  path : Option ReferencePath
  deriving Inhabited

structure PassState where
  filters : Filters
  transition : Transition
  resultPath : Option ReferencePath
  parameters : Option Template
  result : Option Document
  deriving Inhabited

structure TaskState where
  resource : String
  filters : Filters
  transition : Transition
  results : Results
  parameters : Option Template
  recovery : Recovery
  timeoutSeconds : Option Nat
  heartbeatSeconds : Option Nat
  /-- Rendered against the credentials alone. -/
  credentials : Option Template
  deriving Inhabited

structure ChoiceState where
  choices : List Choice
  default : Option String
  filters : Filters
  deriving Inhabited

inductive WaitDuration where
  | seconds (n : Nat)
  | secondsPath (p : Path)
  | timestamp (t : Timestamp)
  | timestampPath (p : Path)
  deriving Inhabited

structure WaitState where
  filters : Filters
  transition : Transition
  duration : WaitDuration
  deriving Inhabited

structure FailState where
  error : Option String
  cause : Option String
  deriving DecidableEq, Repr, Inhabited

/-- A Map state without its graph. -/
structure MapState where
  filters : Filters
  transition : Transition
  results : Results
  itemsPath : Path
  itemSelector : Option Template
  /-- The most items under way at a time; zero sets no limit. -/
  maxConcurrency : Nat
  recovery : Recovery
  deriving Inhabited

/-- A Parallel state without its graphs. -/
structure ParallelState where
  filters : Filters
  transition : Transition
  results : Results
  recovery : Recovery
  deriving Inhabited

mutual

/-- What a state does. -/
inductive Action where
  | pass (s : PassState)
  | task (s : TaskState)
  | choice (s : ChoiceState)
  | wait (s : WaitState)
  | succeed (filters : Filters)
  | fail (s : FailState)
  | map (s : MapState) (iterator : Workflow)
  | parallel (s : ParallelState) (branches : List Workflow)

inductive State where
  | mk (comment : Option String) (action : Action)

/-- A graph of states in which every transition names a state. -/
inductive Workflow where
  | mk (startAt : String) (states : List (String × State)) (comment : Option String)
      (timeoutSeconds : Option Nat)

end

instance : Inhabited Action := ⟨.fail default⟩
instance : Inhabited State := ⟨.mk none default⟩
instance : Inhabited Workflow := ⟨.mk "" [] none none⟩

namespace Workflow

def startAt : Workflow → String
  | mk startAt _ _ _ => startAt

def states : Workflow → Table State
  | mk _ states _ _ => states

def comment : Workflow → Option String
  | mk _ _ comment _ => comment

/-- The limit on the time of a whole run. -/
def timeoutSeconds : Workflow → Option Nat
  | mk _ _ _ timeoutSeconds => timeoutSeconds

def state? (w : Workflow) (name : String) : Option State := Table.get? name w.states

end Workflow

namespace State

def comment : State → Option String
  | mk comment _ => comment

def action : State → Action
  | mk _ action => action

def type (s : State) : StateType :=
  match s.action with
  | .pass _ => .pass
  | .task _ => .task
  | .choice _ => .choice
  | .wait _ => .wait
  | .succeed _ => .succeed
  | .fail _ => .fail
  | .map .. => .map
  | .parallel .. => .parallel

/-- The declared transition, of the states that have one. -/
def transition? (s : State) : Option Transition :=
  match s.action with
  | .pass s => some s.transition
  | .task s => some s.transition
  | .wait s => some s.transition
  | .map s _ => some s.transition
  | .parallel s _ => some s.transition
  | .choice _ | .succeed _ | .fail _ => none

/-- Does the workflow end with this state? -/
def isEnd (s : State) : Bool :=
  match s.action with
  | .succeed _ | .fail _ => true
  | .choice _ => false
  | _ => s.transition? = some .final

/-- The names that the state can lead to: by its transition, by its choices in their order and its
default, or by its catchers. -/
def targets (s : State) : List String :=
  let onward := (s.transition?.bind Transition.next?).toList
  onward ++ match s.action with
    | .choice s => s.choices.map (·.next) ++ s.default.toList
    | .task s => s.recovery.catchers.map (·.next)
    | .map s _ => s.recovery.catchers.map (·.next)
    | .parallel s _ => s.recovery.catchers.map (·.next)
    | _ => []

end State

end StepFlow
