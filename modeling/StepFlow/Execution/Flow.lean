import StepFlow.Execution
import StepFlow.Execution.Error

/-!
# States that only move data

Pass, Choice, Wait and Succeed states, and the steps that all states share: what a state sees of its
input, how its result is laid into the input, and what it passes on.
-/

namespace StepFlow

/-- What a filter lets through: nothing at all without a path, null when the path matches nothing. -/
def applyFilter (filter : Option Path) (context d : Document) : Document :=
  match filter with
  | some p => (p.value context d).getD .null
  | none => .obj []

namespace Filters

def input (f : Filters) (context d : Document) : Document := applyFilter f.inputPath context d

def output (f : Filters) (context d : Document) : Document := applyFilter f.outputPath context d

end Filters

/-- Writes a result into an input; without a path the result is discarded. -/
def mergeResult (path : Option ReferencePath) (input result : Document) :
    Except PathError Document :=
  match path with
  | some p => p.set input result
  | none => .ok input

/-- A template applied to a document, where there is one. -/
def renderWith (template : Option Template) (context d : Document) : Document :=
  match template with
  | some t => t.render context d
  | none => d

/-- The output of a state that has a result: the result, selected from and laid into the input, and
what is passed on of it. -/
def shapeResult (results : Results) (filters : Filters) (context input result : Document) :
    Except TaskFailure Document := do
  let result := renderWith results.selector context result
  let merged ← (mergeResult results.path input result).mapError TaskFailure.ofPathError
  return filters.output context merged

namespace PassState

def run (s : PassState) (name : String) (context input : Document) :
    Except RuntimeError Outcome := do
  let effective := renderWith s.parameters context (s.filters.input context input)
  let output ← match s.result with
    | some result => (mergeResult s.resultPath effective result).mapError (.path name)
    | none => .ok effective
  return ⟨s.transition.next?, s.filters.output context output⟩

end PassState

namespace ChoiceState

/-- The state that the first rule that holds leads to; an error in a rule before it counts. -/
def firstMatch (context input : Document) : List Choice → Except EvaluationError (Option String)
  | [] => .ok none
  | c :: rest => do
    if ← c.rule.holds context input then .ok (some c.next) else firstMatch context input rest

def run (s : ChoiceState) (name : String) (context input : Document) :
    Except RuntimeError Outcome := do
  let effective := s.filters.input context input
  let found ← (firstMatch context effective s.choices).mapError (.evaluation name)
  match found.or s.default with
  | some next => return ⟨some next, s.filters.output context effective⟩
  | none => throw (.noChoiceMatched name)

end ChoiceState

namespace WaitDuration

/-- The largest number of seconds that can be waited for. -/
def maxSeconds : Nat := Nat.pow 2 64

/-- How long to wait; for no time when the instant has passed. -/
def span (now : Timestamp) (name : String) (context input : Document) :
    WaitDuration → Except RuntimeError Duration
  | seconds n => .ok (.ofSeconds n)
  | secondsPath p =>
    let d := (p.value context input).getD .null
    match d.toNat? maxSeconds with
    | some n => .ok (.ofSeconds n)
    | none => .error (.invalidWait name (.seconds p.expression d))
  | timestamp t => .ok (now.remaining t)
  | timestampPath p =>
    let d := (p.value context input).getD .null
    match d.timestamp? with
    | some t => .ok (now.remaining t)
    | none => .error (.invalidWait name (.timestamp p.expression d))

end WaitDuration

namespace WaitState

def span (s : WaitState) (now : Timestamp) (name : String) (context input : Document) :
    Except RuntimeError Duration :=
  s.duration.span now name context (s.filters.input context input)

/-- What follows the wait. -/
def outcome (s : WaitState) (context input : Document) : Outcome :=
  ⟨s.transition.next?, s.filters.output context (s.filters.input context input)⟩

end WaitState

/-- A Succeed state. -/
def Filters.succeed (f : Filters) (context input : Document) : Outcome :=
  ⟨none, f.output context (f.input context input)⟩

end StepFlow
