import StepFlow.Definition
import StepFlow.Document.Shape

/-!
# Reading definitions

`Graph.ofDocument?` reads a document, `Graph.parse` a text. In a text the graph is read in the order
of the text, so that the first fault counts; each state is taken in as a whole before its fields are
looked at.

The state type inside a nested graph may also be given by its number.
-/

namespace StepFlow.Definition

open Record

def maxWord : Nat := Nat.pow 2 64
def maxHalfWord : Nat := Nat.pow 2 32

namespace Retrier

def layout : Layout :=
  [("ErrorEquals", false), ("IntervalSeconds", false), ("MaxAttempts", false),
    ("BackoffRate", false)]

def ofDocument? (d : Document) : Option Retrier := do
  let fields ← d.members? layout
  return {
    errorEquals := ← required ["ErrorEquals"] (Document.toList? Document.toStr?) fields
    intervalSeconds := ← optional ["IntervalSeconds"] Document.toBinary64? fields
    maxAttempts := ← optional ["MaxAttempts"] (Document.toNat? maxHalfWord) fields
    backoffRate := ← optional ["BackoffRate"] Document.toBinary64? fields }

end Retrier

namespace Catcher

def layout : Layout := [("ErrorEquals", false), ("Next", false), ("ResultPath", true)]

def ofDocument? (d : Document) : Option Catcher := do
  let fields ← d.members? layout
  return {
    errorEquals := ← required ["ErrorEquals"] (Document.toList? Document.toStr?) fields
    next := ← required ["Next"] Document.toStr? fields
    resultPath := ← nullable ["ResultPath"] Document.toStr? fields }

end Catcher

/-! ### Groups of fields -/

def textField (name : String) : Fields → Option (Option String) := optional [name] Document.toStr?
def pathField (name : String) : Fields → Option (Nullable String) := nullable [name] Document.toStr?
def valueField (names : List String) : Fields → Option (Option Document) :=
  optional names Document.toValue?

def Filters.ofFields? (fields : Fields) : Option Filters := do
  return {
    comment := ← textField "Comment" fields
    inputPath := ← pathField "InputPath" fields
    outputPath := ← pathField "OutputPath" fields }

def Transition.ofFields? (fields : Fields) : Option Transition := do
  return {
    next := ← textField "Next" fields
    isEnd := ← defaulted ["End"] Document.toBool? false fields }

def Recovery.ofFields? (fields : Fields) : Option Recovery := do
  return {
    retry := ← defaulted ["Retry"] (Document.toList? Retrier.ofDocument?) [] fields
    catchers := ← defaulted ["Catch"] (Document.toList? Catcher.ofDocument?) [] fields }

/-! ### States -/

def Pass.ofFields? (fields : Fields) : Option Pass := do
  return {
    filters := ← Filters.ofFields? fields
    transition := ← Transition.ofFields? fields
    resultPath := ← pathField "ResultPath" fields
    parameters := ← valueField ["Parameters"] fields
    result := ← valueField ["Result"] fields }

def Task.ofFields? (fields : Fields) : Option Task := do
  return {
    resource := ← required ["Resource"] Document.toStr? fields
    filters := ← Filters.ofFields? fields
    transition := ← Transition.ofFields? fields
    resultPath := ← pathField "ResultPath" fields
    parameters := ← valueField ["Parameters"] fields
    resultSelector := ← valueField ["ResultSelector"] fields
    recovery := ← Recovery.ofFields? fields
    timeoutSeconds := ← optional ["TimeoutSeconds"] (Document.toNat? maxWord) fields
    heartbeatSeconds := ← optional ["HeartbeatSeconds"] (Document.toNat? maxWord) fields
    credentials := ← valueField ["Credentials"] fields }

def Choice.ofFields? (fields : Fields) : Option Choice := do
  return {
    choices := ← required ["Choices"] (Document.toList? Document.toValue?) fields
    default := ← textField "Default" fields
    filters := ← Filters.ofFields? fields }

def Wait.ofFields? (fields : Fields) : Option Wait := do
  return {
    filters := ← Filters.ofFields? fields
    transition := ← Transition.ofFields? fields
    seconds := ← optional ["Seconds"] (Document.toNat? maxWord) fields
    secondsPath := ← textField "SecondsPath" fields
    timestamp := ← textField "Timestamp" fields
    timestampPath := ← textField "TimestampPath" fields }

def Fail.ofFields? (fields : Fields) : Option Fail := do
  return {
    comment := ← textField "Comment" fields
    error := ← textField "Error" fields
    cause := ← textField "Cause" fields }

def Map.ofFields? (fields : Fields) : Option Map := do
  return {
    filters := ← Filters.ofFields? fields
    transition := ← Transition.ofFields? fields
    resultPath := ← pathField "ResultPath" fields
    itemsPath := ← textField "ItemsPath" fields
    itemSelector := ← valueField ["ItemSelector", "Parameters"] fields
    resultSelector := ← valueField ["ResultSelector"] fields
    maxConcurrency := ← optional ["MaxConcurrency"] (Document.toNat? maxHalfWord) fields
    recovery := ← Recovery.ofFields? fields }

def Parallel.ofFields? (fields : Fields) : Option Parallel := do
  return {
    filters := ← Filters.ofFields? fields
    transition := ← Transition.ofFields? fields
    resultPath := ← pathField "ResultPath" fields
    resultSelector := ← valueField ["ResultSelector"] fields
    recovery := ← Recovery.ofFields? fields }

/-- The declared fields of each type of state. -/
def layout : StateType → Layout
  | .pass =>
    [("Next", false), ("End", true), ("Comment", false), ("InputPath", true),
      ("OutputPath", true), ("ResultPath", true), ("Parameters", false), ("Result", false)]
  | .task =>
    [("Resource", false), ("Next", false), ("End", true), ("Comment", false), ("InputPath", true),
      ("OutputPath", true), ("ResultPath", true), ("Parameters", false), ("ResultSelector", false),
      ("Retry", true), ("Catch", true), ("TimeoutSeconds", false), ("HeartbeatSeconds", false),
      ("Credentials", false)]
  | .choice =>
    [("Choices", false), ("Default", false), ("Comment", false), ("InputPath", true),
      ("OutputPath", true)]
  | .wait =>
    [("Next", false), ("End", true), ("Comment", false), ("InputPath", true), ("OutputPath", true),
      ("Seconds", false), ("SecondsPath", false), ("Timestamp", false), ("TimestampPath", false)]
  | .succeed => [("Comment", false), ("InputPath", true), ("OutputPath", true)]
  | .fail => [("Comment", false), ("Error", false), ("Cause", false)]
  | .map =>
    [("Iterator", false), ("Next", false), ("End", true), ("Comment", false), ("InputPath", true),
      ("OutputPath", true), ("ResultPath", true), ("ItemsPath", false), ("ItemSelector", false),
      ("ResultSelector", false), ("MaxConcurrency", false), ("Retry", true), ("Catch", true)]
  | .parallel =>
    [("Branches", false), ("Next", false), ("End", true), ("Comment", false), ("InputPath", true),
      ("OutputPath", true), ("ResultPath", true), ("ResultSelector", false), ("Retry", true),
      ("Catch", true)]

/-- A state type, by its name or, when `numbered`, by its place among the types. -/
def typeOf? (numbered : Bool) : Document → Option StateType
  | .str name => StateType.ofName? name
  | .num n => if numbered then (n.toNat? maxWord).bind (StateType.all[·]?) else none
  | _ => none

/-- The type of a state and its fields; in a list the type comes first. -/
def split? (numbered : Bool) : Document → Option (StateType × Fields)
  | .obj fields => do
    let type ← required ["Type"] (typeOf? numbered) fields
    return (type, fields.filter (·.1 ≠ "Type"))
  | .arr (d :: rest) => do
    let type ← typeOf? numbered d
    return (type, ← (layout type).zip rest)
  | _ => none

/-- A state, given how nested graphs are read. -/
def stateOf? (graph : Document → Option Graph) (numbered : Bool) (d : Document) :
    Option State := do
  let (type, fields) ← split? numbered d
  match type with
  | .pass => (Pass.ofFields? fields).map .pass
  | .task => (Task.ofFields? fields).map .task
  | .choice => (Choice.ofFields? fields).map .choice
  | .wait => (Wait.ofFields? fields).map .wait
  | .succeed => (Filters.ofFields? fields).map .succeed
  | .fail => (Fail.ofFields? fields).map .fail
  | .map => do
    let iterator ← required ["Iterator", "ItemProcessor"] graph fields
    (Map.ofFields? fields).map (.map · iterator)
  | .parallel => do
    let branches ← required ["Branches"] (Document.toList? graph) fields
    (Parallel.ofFields? fields).map (.parallel · branches)

/-! ### Graphs -/

def Graph.layout : Layout :=
  [("StartAt", false), ("States", false), ("Comment", false), ("Version", false),
    ("TimeoutSeconds", false)]

/-- The states of a graph; of several of one name the last counts. -/
def statesOf? (state : Document → Option State) : Document → Option (Table State)
  | .obj fields => do
    let entries ← fields.mapM fun (name, d) => (state d).map fun s => (name, s)
    return Table.ofList entries
  | _ => none

/-- A graph with at most `levels` levels of nested graphs. -/
def graphOf? : (levels : Nat) → (numbered : Bool) → Document → Option Graph
  | 0, _, _ => none
  | levels + 1, numbered, d => do
    let fields ← d.members? Graph.layout
    let startAt ← required ["StartAt"] Document.toStr? fields
    let states ← required ["States"] (statesOf? (stateOf? (graphOf? levels true) numbered)) fields
    let comment ← textField "Comment" fields
    let version ← textField "Version" fields
    let timeoutSeconds ← optional ["TimeoutSeconds"] (Document.toNat? maxWord) fields
    return .mk ⟨startAt, comment, version, timeoutSeconds⟩ states

/-- A state inside a graph that is not nested itself. -/
def State.ofDocument? (d : Document) : Option State := stateOf? (graphOf? d.height true) false d

/-- Reads a graph. -/
def Graph.ofDocument? (d : Document) : Option Graph := graphOf? (d.height + 1) false d

/-- The shape of the text of a state. -/
def stateShape : Shape :=
  (Shape.tagged "Type" (StateType.all.map (·.name))).checked fun d => (State.ofDocument? d).isSome

/-- The shape of the text of a graph. -/
def graphShape : Shape :=
  Shape.record [
    ⟨"StartAt", false, Shape.text⟩,
    ⟨"States", false, Shape.entries stateShape⟩,
    ⟨"Comment", false, Shape.optional Shape.text⟩,
    ⟨"Version", false, Shape.optional Shape.text⟩,
    ⟨"TimeoutSeconds", false, Shape.optional (Shape.count maxWord)⟩]

/-- Reads the text of a graph. -/
def Graph.parse (text : String) : Except Fault Graph := do
  let checkedShape := graphShape.checked fun d => (Graph.ofDocument? d).isSome
  let d ← checkedShape.read text Shape.maxDepth
  match Graph.ofDocument? d with
  | some g => .ok g
  | none => .error .mismatched

end StepFlow.Definition
