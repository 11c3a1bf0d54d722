import StepFlow.Runner.Error
import StepFlow.Text

/-!
# Requests and reports

What a task asks of a runner, and what the run reports. The fields of the task's input become the
environment, one variable per field: strings as they are, all else as the text of a document.
-/

namespace StepFlow

namespace Resource

/-- Splits a text at the first `://`. -/
def splitAt : List Char → Option (List Char × List Char)
  | [] => none
  | ':' :: '/' :: '/' :: rest => some ([], rest)
  | c :: rest => (splitAt rest).map fun (front, back) => (c :: front, back)

/-- What stands before the first `://`. -/
def scheme? (resource : String) : Option String :=
  (splitAt resource.toList).map fun (front, _) => String.ofList front

/-- What stands after the first `://`, or the whole. -/
def target (resource : String) : String :=
  match splitAt resource.toList with
  | some (_, back) => String.ofList back
  | none => resource

end Resource

abbrev Environment := Table String

namespace Environment

/-- The value of a variable. -/
def valueOf : Document → String
  | .str s => s
  | d => d.compact

/-- The environment made of a task's input. -/
def ofInput : Document → Except RunnerError Environment
  | .obj fields => .ok (fields.map fun (k, d) => (k, valueOf d))
  | .null => .ok []
  | d => .error (.invalidInput (.notAnObject d))

/-- The environment as an object of strings. -/
def toDocument (env : Environment) : Document := .obj (env.map fun (k, v) => (k, .str v))

end Environment

structure Request where
  resource : String
  env : Environment
  /-- The rendered credentials; null when the task has none. -/
  secrets : Document
  timeout : Option Duration
  heartbeat : Option Duration
  deriving Inhabited

namespace Request

def target (r : Request) : String := Resource.target r.resource

/-- Are there any credentials to hand over? -/
def hasSecrets (r : Request) : Bool :=
  match r.secrets with
  | .null => false
  | .obj fields => !fields.isEmpty
  | _ => true

end Request

/-- What a finished run reports. -/
structure Report where
  exitStatus : Int
  /-- All that the task wrote to its standard output. -/
  output : String
  deriving DecidableEq, Repr, Inhabited

def Report.success (r : Report) : Bool := r.exitStatus = 0

end StepFlow
