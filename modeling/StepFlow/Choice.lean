import StepFlow.Choice.Glob
import StepFlow.Path
import StepFlow.Workflow.Error

/-!
# Choice rules

A choice rule is a tree of comparisons under `And`, `Or` and `Not`. It is read from an object: one
with a member `And`, `Or` or `Not` (looked for in this order) is a node of the tree, any other a
comparison of a variable. Evaluation goes from left to right and stops at the first child that
decides; a comparison whose variable or operand path reads nothing is an error, unless it asks for
null or for presence.
-/

namespace StepFlow

/-- The kinds of values that comparators apply to. -/
inductive ValueKind where
  | string | numeric | boolean | timestamp
  deriving DecidableEq, Repr, Inhabited

inductive Comparator where
  | equals | lessThan | greaterThan | lessThanEquals | greaterThanEquals
  deriving DecidableEq, Repr, Inhabited

/-- What a variable is compared with. -/
inductive RuleOperand where
  | literal (d : Document)
  | path (p : Path)
  deriving Inhabited

inductive Test where
  | isNull (expected : Bool)
  | isPresent (expected : Bool)
  | isNumeric (expected : Bool)
  | isString (expected : Bool)
  | isBoolean (expected : Bool)
  | isTimestamp (expected : Bool)
  | stringMatches (pattern : Glob)
  | compare (kind : ValueKind) (comparator : Comparator) (operand : RuleOperand)
  deriving Inhabited

inductive Rule where
  | and (rules : List Rule)
  | or (rules : List Rule)
  | not (rule : Rule)
  | data (subject : Path) (test : Test)
  deriving Inhabited

/-- One entry of the choices of a state. -/
structure Choice where
  rule : Rule
  next : String
  deriving Inhabited

/-- The instant that a string names. -/
def Document.timestamp? : Document → Option Timestamp
  | .str s => (Timestamp.parse s).toOption
  | _ => none

namespace ValueKind

def name : ValueKind → String
  | string => "String"
  | numeric => "Numeric"
  | boolean => "Boolean"
  | timestamp => "Timestamp"

def all : List ValueKind := [string, numeric, boolean, timestamp]

/-- Is the value of the kind? -/
def includes (kind : ValueKind) (d : Document) : Bool :=
  match kind, d with
  | string, .str _ => true
  | numeric, .num _ => true
  | boolean, .bool _ => true
  | timestamp, d => d.timestamp?.isSome
  | _, _ => false

/-- The order of two values of the kind; values of another type have none. -/
def order? (kind : ValueKind) (a b : Document) : Option Ordering :=
  match kind, a, b with
  | string, .str a, .str b => some (Ord.compare a b)
  | numeric, .num a, .num b => some (a.cmp b)
  | boolean, .bool a, .bool b => some (Ord.compare a b)
  | timestamp, a, b =>
    match a.timestamp?, b.timestamp? with
    | some a, some b => some (a.cmp b)
    | _, _ => none
  | _, _, _ => none

end ValueKind

namespace Comparator

def name : Comparator → String
  | equals => "Equals"
  | lessThan => "LessThan"
  | greaterThan => "GreaterThan"
  | lessThanEquals => "LessThanEquals"
  | greaterThanEquals => "GreaterThanEquals"

def all : List Comparator :=
  [equals, lessThan, greaterThan, lessThanEquals, greaterThanEquals]

def holds : Comparator → Ordering → Bool
  | equals, o => o == .eq
  | lessThan, o => o == .lt
  | greaterThan, o => o == .gt
  | lessThanEquals, o => o != .gt
  | greaterThanEquals, o => o != .lt

end Comparator

/-! ## Reading -/

namespace Test

/-- The kind and comparator that an operator's name is made of. Truth values are only equal or
not. -/
def comparison? (name : String) : Option (ValueKind × Comparator) := do
  let (kind, rest) ← ValueKind.all.findSome? fun kind =>
    (Text.afterPrefix? kind.name name).map fun rest => (kind, rest)
  let comparator ← Comparator.all.find? (·.name = rest)
  if kind = .boolean ∧ comparator ≠ .equals then none else some (kind, comparator)

/-- A predicate with the answer it must have. -/
def predicate (key : String) (make : Bool → Test) : Document → Except WorkflowError Test
  | .bool b => .ok (make b)
  | _ => .error (.invalidChoice (.notBoolean key))

/-- A comparison. An operator's name that ends in `Path` takes its operand from a path. -/
def comparison (key : String) (operand : Document) : Except WorkflowError Test :=
  let (name, fromPath) := match Text.beforeSuffix? "Path" key with
    | some name => (name, true)
    | none => (key, false)
  match comparison? name with
  | none => .error (.invalidChoice (.unknownOperator key))
  | some (kind, comparator) =>
    if fromPath then
      match operand with
      | .str expression =>
        match Path.ofString expression with
        | .ok p => .ok (.compare kind comparator (.path p))
        | .error e => .error (.path e)
      | _ => .error (.invalidChoice (.notPath key))
    else if kind.includes operand then .ok (.compare kind comparator (.literal operand))
    else .error (.invalidChoice (.wrongOperand key operand))

/-- The test that an operator makes of its operand. -/
def ofOperator (key : String) (operand : Document) : Except WorkflowError Test :=
  match key with
  | "IsNull" => predicate key .isNull operand
  | "IsPresent" => predicate key .isPresent operand
  | "IsNumeric" => predicate key .isNumeric operand
  | "IsString" => predicate key .isString operand
  | "IsBoolean" => predicate key .isBoolean operand
  | "IsTimestamp" => predicate key .isTimestamp operand
  | "StringMatches" =>
    match operand with
    | .str pattern => .ok (.stringMatches (Glob.ofString pattern))
    | _ => .error (.invalidChoice .patternNotString)
  | key => comparison key operand

end Test

namespace Rule

/-- The members of a comparison that are no operators. -/
def reserved : List String := ["Variable", "Next", "Comment"]

/-- The members that hold an operator. -/
def operators (fields : Fields) : Fields := fields.filter fun (key, _) => key ∉ reserved

/-- A comparison of a variable by its only operator. -/
def ofComparison (fields : Fields) : Except WorkflowError Rule :=
  match Table.get? "Variable" fields with
  | some (.str expression) =>
    match Path.ofString expression with
    | .error e => .error (.path e)
    | .ok subject =>
      match operators fields with
      | [] => .error (.invalidChoice .noOperator)
      | [(key, operand)] => (Test.ofOperator key operand).map (.data subject)
      | _ => .error (.invalidChoice .severalOperators)
  | _ => .error (.invalidChoice .noVariable)

mutual

/-- Reads a rule. -/
def ofDocument : Document → Except WorkflowError Rule
  | .obj fields =>
    match rulesUnder "And" fields, rulesUnder "Or" fields, ruleUnder "Not" fields with
    | some rules, _, _ => rules.map .and
    | none, some rules, _ => rules.map .or
    | none, none, some rule => rule.map .not
    | none, none, none => ofComparison fields
  | d => .error (.invalidChoice (.notAnObject d))

def ofItems : List Document → Except WorkflowError (List Rule)
  | [] => .ok []
  | d :: rest => do
    let rule ← ofDocument d
    .ok (rule :: (← ofItems rest))

/-- The list of rules under a key, if the key is there. -/
def rulesUnder (key : String) : Fields → Option (Except WorkflowError (List Rule))
  | [] => none
  | (k, .arr items) :: rest =>
    if k = key then
      some (if items.isEmpty then .error (.invalidChoice (.emptyList key)) else ofItems items)
    else rulesUnder key rest
  | (k, _) :: rest =>
    if k = key then some (.error (.invalidChoice (.emptyList key))) else rulesUnder key rest

/-- The rule under a key, if the key is there. -/
def ruleUnder (key : String) : Fields → Option (Except WorkflowError Rule)
  | [] => none
  | (k, d) :: rest => if k = key then some (ofDocument d) else ruleUnder key rest

end

end Rule

namespace Choice

/-- Reads a rule with the state that it leads to. -/
def ofDocument (d : Document) : Except WorkflowError Choice :=
  match d.get? "Next" with
  | some (.str next) => (Rule.ofDocument d).map fun rule => ⟨rule, next⟩
  | _ => .error (.invalidChoice .noNext)

end Choice

/-! ## Evaluation -/

namespace RuleOperand

def value (context input : Document) : RuleOperand → Except EvaluationError Document
  | literal d => .ok d
  | path p =>
    match p.value context input with
    | some d => .ok d
    | none => .error (.operandNotFound p.expression)

end RuleOperand

namespace Test

/-- The test of a value that is there. -/
def holdsOf (context input value : Document) : Test → Except EvaluationError Bool
  | isNull expected => .ok (value.isNull == expected)
  | isPresent expected => .ok expected
  | isNumeric expected => .ok (ValueKind.numeric.includes value == expected)
  | isString expected => .ok (ValueKind.string.includes value == expected)
  | isBoolean expected => .ok (ValueKind.boolean.includes value == expected)
  | isTimestamp expected => .ok (ValueKind.timestamp.includes value == expected)
  | stringMatches pattern =>
    match value with
    | .str s => .ok (pattern.matchesText s)
    | _ => .ok false
  | compare kind comparator operand => do
    let right ← operand.value context input
    match kind.order? value right with
    | some o => .ok (comparator.holds o)
    | none => .ok false

/-- The test of a variable that reads nothing. -/
def holdsOfMissing (subject : Path) : Test → Except EvaluationError Bool
  | isNull expected => .ok expected
  | isPresent expected => .ok !expected
  | _ => .error (.variableNotFound subject.expression)

end Test

namespace Rule

mutual

/-- Does the rule hold? -/
def holds (context input : Document) : Rule → Except EvaluationError Bool
  | and rules => allHold context input rules
  | or rules => anyHolds context input rules
  | not rule => do return !(← holds context input rule)
  | data subject test =>
    match subject.value context input with
    | some d => test.holdsOf context input d
    | none => test.holdsOfMissing subject

/-- Does every rule hold? Stops at the first that does not. -/
def allHold (context input : Document) : List Rule → Except EvaluationError Bool
  | [] => .ok true
  | rule :: rest => do
    if ← holds context input rule then allHold context input rest else .ok false

/-- Does some rule hold? Stops at the first that does. -/
def anyHolds (context input : Document) : List Rule → Except EvaluationError Bool
  | [] => .ok false
  | rule :: rest => do
    if ← holds context input rule then .ok true else anyHolds context input rest

end

end Rule

end StepFlow
