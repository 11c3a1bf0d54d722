import StepFlow.Path
import StepFlow.Timestamp
import StepFlow.Document.Printer

/-!
# Errors of workflows

Why a definition cannot be executed. An error inside a state is wrapped with the name of the state,
once for every level of nested graphs.
-/

namespace StepFlow

/-- What is wrong with a choice rule. -/
inductive ChoiceFlaw where
  | noNext
  | notAnObject (d : Document)
  | emptyList (key : String)
  | noVariable
  | noOperator
  | severalOperators
  | notBoolean (key : String)
  | patternNotString
  | unknownOperator (key : String)
  | notPath (key : String)
  | wrongOperand (key : String) (d : Document)
  | noChoices
  deriving Inhabited

/-- What is wrong with another part of a state. -/
inductive DefinitionFlaw where
  | emptyResource
  | waitSource
  | badTimestamp (text : String) (flaw : TimestampFlaw)
  | noBranches
  | retryWithoutErrors
  | negativeRetry
  | catchWithoutErrors
  deriving DecidableEq, Repr, Inhabited

inductive WorkflowError where
  | noStates
  | unknownStartAt (name : String)
  | unknownState (state target : String)
  | invalidTransition
  | invalidChoice (flaw : ChoiceFlaw)
  | path (error : PathError)
  | invalidDefinition (flaw : DefinitionFlaw)
  | invalidState (state : String) (source : WorkflowError)
  deriving Inhabited

def ChoiceFlaw.message : ChoiceFlaw → String
  | noNext => "top-level choice rule must set Next"
  | notAnObject d => "expected an object, got " ++ d.compact
  | emptyList key => key ++ " must be a non-empty list of rules"
  | noVariable => "rule is missing Variable"
  | noOperator => "rule has no comparison operator"
  | severalOperators => "rule has more than one comparison operator"
  | notBoolean key => key ++ " expects a boolean"
  | patternNotString => "StringMatches expects a string"
  | unknownOperator key => "unknown operator '" ++ key ++ "'"
  | notPath key => key ++ " expects a path string"
  | wrongOperand key d => key ++ " has an operand of the wrong type: " ++ d.compact
  | noChoices => "Choices must not be empty"

def DefinitionFlaw.message : DefinitionFlaw → String
  | emptyResource => "Task Resource must not be empty"
  | waitSource => "Wait must set exactly one of Seconds, SecondsPath, Timestamp or TimestampPath"
  | badTimestamp text flaw => "invalid Timestamp '" ++ text ++ "': " ++ flaw.message
  | noBranches => "Parallel Branches must not be empty"
  | retryWithoutErrors => "Retry ErrorEquals must not be empty"
  | negativeRetry => "Retry IntervalSeconds and BackoffRate must not be negative"
  | catchWithoutErrors => "Catch ErrorEquals must not be empty"

def WorkflowError.message : WorkflowError → String
  | noStates => "workflow has no states"
  | unknownStartAt name => "StartAt references unknown state '" ++ name ++ "'"
  | unknownState state target =>
    "state '" ++ state ++ "' references unknown state '" ++ target ++ "'"
  | invalidTransition => "must set exactly one of Next or End"
  | invalidChoice flaw => "invalid choice: " ++ flaw.message
  | path error => error.message
  | invalidDefinition flaw => flaw.message
  | invalidState state source => "invalid state '" ++ state ++ "': " ++ source.message

/-- A value that a choice rule needs is missing. -/
inductive EvaluationError where
  | variableNotFound (expression : String)
  | operandNotFound (expression : String)
  deriving DecidableEq, Repr, Inhabited

def EvaluationError.message : EvaluationError → String
  | variableNotFound e => "variable '" ++ e ++ "' not found in input"
  | operandNotFound e => "comparison path '" ++ e ++ "' matched nothing"

end StepFlow
