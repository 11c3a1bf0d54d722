import StepFlow.Document.Record

/-!
# Contexts

The record of one execution, which paths that start with `$$` read: the execution itself, the state
under way, the states that are done, and in an iteration of a Map state its item. A nested execution
has a context of its own that shares the execution with the outer one.

`Context.toDocument` is the document that paths read, `Context.ofDocument?` reads it back.
-/

namespace StepFlow

structure ExecutionInfo where
  id : String
  startTime : String
  input : Document
  deriving Inhabited

/-- What is known of one run of a state. -/
structure StateRecord where
  name : String
  guid : String
  input : Document
  enteredTime : Option String
  finishedTime : Option String
  /-- The seconds between entering and finishing, as the clock has them. -/
  duration : Option Document
  output : Option Document
  retryCount : Nat
  /-- The patterns of the retrier that matched last. -/
  retrier : Option (List String)
  deriving Inhabited

structure MapItem where
  index : Nat
  value : Document
  deriving Inhabited

structure Context where
  execution : ExecutionInfo
  /-- The state under way, or the next one before it is entered. -/
  state : StateRecord
  /-- The states that are done, in their order. -/
  states : List StateRecord
  stateMachine : Fields
  task : Fields
  item : Option MapItem
  deriving Inhabited

/-- What clocks and sources of identifiers say. -/
structure Stamps where
  time : String
  guid : String
  duration : Document
  deriving Inhabited

namespace StateRecord

/-- A state that is next and has not been entered. -/
def pending (name : String) (input : Document) : StateRecord :=
  ⟨name, "", input, none, none, none, none, 0, none⟩

/-- A state that has just been entered. -/
def entered (stamps : Stamps) (name : String) (input : Document) : StateRecord :=
  { pending name input with guid := stamps.guid, enteredTime := some stamps.time }

/-- A state that has given its output. -/
def finished (stamps : Stamps) (output : Document) (r : StateRecord) : StateRecord :=
  { r with
    finishedTime := some stamps.time, duration := some stamps.duration, output := some output }

def toDocument (r : StateRecord) : Document :=
  .ofList ([("Name", .str r.name), ("Guid", .str r.guid), ("Input", r.input),
      ("RetryCount", .ofNat r.retryCount)]
    ++ Record.present "EnteredTime" .str r.enteredTime
    ++ Record.present "FinishedTime" .str r.finishedTime
    ++ Record.present "Duration" id r.duration
    ++ Record.present "Output" id r.output
    ++ Record.present "Retrier" (fun xs => .arr (xs.map .str)) r.retrier)

def layout : Layout :=
  [("Name", false), ("Guid", false), ("Input", false), ("EnteredTime", true),
    ("FinishedTime", true), ("Duration", true), ("Output", true), ("RetryCount", false),
    ("Retrier", true)]

def ofDocument? (d : Document) : Option StateRecord := do
  let fields ← d.members? layout
  return {
    name := ← Record.required ["Name"] Document.toStr? fields
    guid := ← Record.required ["Guid"] Document.toStr? fields
    input := ← Record.required ["Input"] Document.toValue? fields
    enteredTime := ← Record.optional ["EnteredTime"] Document.toStr? fields
    finishedTime := ← Record.optional ["FinishedTime"] Document.toStr? fields
    duration := ← Record.optional ["Duration"]
      (fun d => d.toBinary64?.map fun x => .num (.float x)) fields
    output := ← Record.optional ["Output"] Document.toValue? fields
    retryCount := ← Record.required ["RetryCount"] (Document.toNat? (Nat.pow 2 32)) fields
    retrier := ← Record.optional ["Retrier"] (Document.toList? Document.toStr?) fields }

end StateRecord

namespace ExecutionInfo

def toDocument (e : ExecutionInfo) : Document :=
  .ofList [("Id", .str e.id), ("StartTime", .str e.startTime), ("Input", e.input)]

def layout : Layout := [("Id", false), ("StartTime", false), ("Input", false)]

def ofDocument? (d : Document) : Option ExecutionInfo := do
  let fields ← d.members? layout
  return {
    id := ← Record.required ["Id"] Document.toStr? fields
    startTime := ← Record.required ["StartTime"] Document.toStr? fields
    input := ← Record.required ["Input"] Document.toValue? fields }

end ExecutionInfo

namespace MapItem

/-- The item under the name that paths know it by. -/
def toDocument (item : MapItem) : Document :=
  .ofList [("Item", .ofList [("Index", .ofNat item.index), ("Value", item.value)])]

def layout : Layout := [("Index", false), ("Value", false)]

def ofItem? (d : Document) : Option MapItem := do
  let fields ← d.members? layout
  return {
    index := ← Record.required ["Index"] (Document.toNat? (Nat.pow 2 64)) fields
    value := ← Record.required ["Value"] Document.toValue? fields }

def ofDocument? (d : Document) : Option MapItem := do
  let fields ← d.members? [("Item", false)]
  Record.required ["Item"] ofItem? fields

end MapItem

namespace Context

/-- The context of an execution that starts. -/
def start (id startTime startAt : String) (input : Document) : Context where
  execution := ⟨id, startTime, input⟩
  state := .pending startAt input
  states := []
  stateMachine := []
  task := []
  item := none

/-- The context of a nested execution. -/
def fork (c : Context) (startAt : String) (input : Document) : Context where
  execution := c.execution
  state := .pending startAt input
  states := []
  stateMachine := c.stateMachine
  task := []
  item := none

def withItem (c : Context) (index : Nat) (value : Document) : Context :=
  { c with item := some ⟨index, value⟩ }

/-- Enters a state. -/
def enter (stamps : Stamps) (name : String) (input : Document) (c : Context) : Context :=
  { c with state := .entered stamps name input }

/-- Closes the record of the state under way and appends it to the states that are done. -/
def finish (stamps : Stamps) (output : Document) (c : Context) : Context :=
  let record := c.state.finished stamps output
  { c with state := record, states := c.states ++ [record] }

def toDocument (c : Context) : Document :=
  .ofList ([("Execution", c.execution.toDocument), ("State", c.state.toDocument),
      ("States", .arr (c.states.map (·.toDocument))), ("StateMachine", .obj c.stateMachine),
      ("Task", .obj c.task)]
    ++ Record.present "Map" MapItem.toDocument c.item)

def layout : Layout :=
  [("Execution", false), ("State", false), ("States", false), ("StateMachine", false),
    ("Task", false), ("Map", true)]

/-- The members of an object, sorted. -/
def toFields? (d : Document) : Option Fields :=
  match d.canonical with
  | .obj fields => some fields
  | _ => none

def ofDocument? (d : Document) : Option Context := do
  let fields ← d.members? layout
  return {
    execution := ← Record.required ["Execution"] ExecutionInfo.ofDocument? fields
    state := ← Record.required ["State"] StateRecord.ofDocument? fields
    states := ← Record.required ["States"] (Document.toList? StateRecord.ofDocument?) fields
    stateMachine := ← Record.required ["StateMachine"] toFields? fields
    task := ← Record.required ["Task"] toFields? fields
    item := ← Record.optional ["Map"] MapItem.ofDocument? fields }

end Context

end StepFlow
