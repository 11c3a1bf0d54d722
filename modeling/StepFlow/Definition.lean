import StepFlow.Document.Record

/-!
# Definitions

The document that describes a workflow: a graph of named states with the name of the first one. The
types here hold what is written; paths, templates and rules are still texts and documents. Graphs
nest: a Map state holds one for its items, a Parallel state one for each branch.
-/

namespace StepFlow.Definition

/-- Which errors to retry, and how. -/
structure Retrier where
  errorEquals : List String
  intervalSeconds : Option Binary64
  maxAttempts : Option Nat
  backoffRate : Option Binary64
  deriving DecidableEq, Repr, Inhabited

/-- Which errors to catch, and the state to go on with. -/
structure Catcher where
  errorEquals : List String
  next : String
  resultPath : Nullable String
  deriving DecidableEq, Repr, Inhabited

/-- The fields of all states but Fail. -/
structure Filters where
  comment : Option String
  inputPath : Nullable String
  outputPath : Nullable String
  deriving DecidableEq, Repr, Inhabited

/-- The fields of the states that lead on or end. -/
structure Transition where
  next : Option String
  isEnd : Bool
  deriving DecidableEq, Repr, Inhabited

/-- The fields of the states that can fail and go on. -/
structure Recovery where
  retry : List Retrier
  catchers : List Catcher
  deriving DecidableEq, Repr, Inhabited

structure Pass where
  filters : Filters
  transition : Transition
  resultPath : Nullable String
  parameters : Option Document
  result : Option Document
  deriving Inhabited

structure Task where
  resource : String
  filters : Filters
  transition : Transition
  resultPath : Nullable String
  parameters : Option Document
  resultSelector : Option Document
  recovery : Recovery
  timeoutSeconds : Option Nat
  heartbeatSeconds : Option Nat
  credentials : Option Document
  deriving Inhabited

structure Choice where
  choices : List Document
  default : Option String
  filters : Filters
  deriving Inhabited

structure Wait where
  filters : Filters
  transition : Transition
  seconds : Option Nat
  secondsPath : Option String
  timestamp : Option String
  timestampPath : Option String
  deriving Inhabited

structure Fail where
  comment : Option String
  error : Option String
  cause : Option String
  deriving DecidableEq, Repr, Inhabited

/-- A Map state without its graph. -/
structure Map where
  filters : Filters
  transition : Transition
  resultPath : Nullable String
  itemsPath : Option String
  itemSelector : Option Document
  resultSelector : Option Document
  maxConcurrency : Option Nat
  recovery : Recovery
  deriving Inhabited

/-- A Parallel state without its graphs. -/
structure Parallel where
  filters : Filters
  transition : Transition
  resultPath : Nullable String
  resultSelector : Option Document
  recovery : Recovery
  deriving Inhabited

/-- The fields of a graph besides its states. -/
structure Header where
  startAt : String
  comment : Option String
  version : Option String
  timeoutSeconds : Option Nat
  deriving DecidableEq, Repr, Inhabited

mutual

inductive State where
  | pass (fields : Pass)
  | task (fields : Task)
  | choice (fields : Choice)
  | wait (fields : Wait)
  | succeed (filters : Filters)
  | fail (fields : Fail)
  | map (fields : Map) (iterator : Graph)
  | parallel (fields : Parallel) (branches : List Graph)

inductive Graph where
  | mk (header : Header) (states : List (String × State))

end

instance : Inhabited State := ⟨.fail default⟩
instance : Inhabited Graph := ⟨.mk default []⟩

def Graph.header : Graph → Header
  | mk header _ => header

def Graph.states : Graph → Table State
  | mk _ states => states

end StepFlow.Definition

namespace StepFlow

/-- The kinds of states. -/
inductive StateType where
  | pass | task | choice | wait | succeed | fail | map | parallel
  deriving DecidableEq, Repr, Inhabited

namespace StateType

def name : StateType → String
  | pass => "Pass"
  | task => "Task"
  | choice => "Choice"
  | wait => "Wait"
  | succeed => "Succeed"
  | fail => "Fail"
  | map => "Map"
  | parallel => "Parallel"

def all : List StateType := [pass, task, choice, wait, succeed, fail, map, parallel]

def ofName? (name : String) : Option StateType := all.find? (·.name = name)

end StateType

def Definition.State.type : Definition.State → StateType
  | .pass _ => .pass
  | .task _ => .task
  | .choice _ => .choice
  | .wait _ => .wait
  | .succeed _ => .succeed
  | .fail _ => .fail
  | .map .. => .map
  | .parallel .. => .parallel

end StepFlow
