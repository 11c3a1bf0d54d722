import StepFlow.Path.Grammar

/-!
# Paths

A path is a query text with its segments. One that starts with `$$` reads the execution's context,
every other one the input of the state. Several matches read as the array of their values.
-/

namespace StepFlow

/-- Why an expression is not a path, or not one that can be written to. -/
inductive PathFlaw where
  | noRoot
  | unexpectedEnd
  | unexpectedInput (rest : String)
  | forbidden (c : Char)
  | readOnly
  | descent
  | wildcard
  | severalKeys
  deriving DecidableEq, Repr, Inhabited

/-- The kinds of documents. -/
inductive Kind where
  | null | boolean | number | string | array | object
  deriving DecidableEq, Repr, Inhabited

/-- Why a value cannot be written below a document. -/
inductive Mismatch where
  | outOfBounds (i : Int)
  | noMembers (name : String) (kind : Kind)
  | noElements (i : Int) (kind : Kind)
  deriving DecidableEq, Repr, Inhabited

inductive PathError where
  | invalidPath (expression : String) (flaw : PathFlaw)
  | invalidReference (expression : String) (flaw : PathFlaw)
  /-- The value of a key that calls for a path is no string. -/
  | invalidTemplate (key : String)
  /-- A write met a value of the wrong shape. -/
  | resultPathMismatch (expression : String) (mismatch : Mismatch)
  deriving DecidableEq, Repr, Inhabited

def PathFlaw.message : PathFlaw → String
  | noRoot => "must start with '$'"
  | unexpectedEnd => "unexpected end of expression"
  | unexpectedInput rest => "unexpected input at '" ++ rest ++ "'"
  | forbidden c => "'" ++ c.toString ++ "' is not allowed"
  | readOnly => "context paths are read-only"
  | descent => "recursive descent is not allowed"
  | wildcard => "wildcards are not allowed"
  | severalKeys => "only member and index steps are allowed"

def Kind.describe : Kind → String
  | null => "null"
  | boolean => "a boolean"
  | number => "a number"
  | string => "a string"
  | array => "an array"
  | object => "an object"

def Document.kind : Document → Kind
  | .null => .null
  | .bool _ => .boolean
  | .num _ => .number
  | .str _ => .string
  | .arr _ => .array
  | .obj _ => .object

def Mismatch.message : Mismatch → String
  | outOfBounds i => "index " ++ toString i ++ " is out of bounds"
  | noMembers name kind => "cannot set field '" ++ name ++ "' on " ++ kind.describe
  | noElements i kind => "cannot set index " ++ toString i ++ " on " ++ kind.describe

def PathError.message : PathError → String
  | invalidPath e flaw => "invalid path '" ++ e ++ "': " ++ flaw.message
  | invalidReference e flaw => "invalid reference path '" ++ e ++ "': " ++ flaw.message
  | invalidTemplate key =>
    "invalid payload template: value of '" ++ key ++ "' must be a path string"
  | resultPathMismatch e mismatch =>
    "unable to apply reference path '" ++ e ++ "': " ++ mismatch.message

/-- A query text, read. -/
structure Path where
  expression : String
  /-- The path reads the context, not the input. -/
  ofContext : Bool
  query : Query
  deriving Inhabited

namespace Path

def flawOf : Grammar.Flaw → PathFlaw
  | .unexpectedEnd => .unexpectedEnd
  | .unexpectedInput rest => .unexpectedInput rest

/-- Reads an expression. -/
def parse (expression : String) : Except PathFlaw Path :=
  match expression.toList with
  | '$' :: rest =>
    let (ofContext, rest) := match rest with
      | '$' :: r => (true, r)
      | r => (false, r)
    match Grammar.parseQuery rest with
    | .ok query => .ok ⟨expression, ofContext, query⟩
    | .error flaw => .error (flawOf flaw)
  | _ => .error .noRoot

def ofString (expression : String) : Except PathError Path :=
  (parse expression).mapError (.invalidPath expression)

/-- The value of a list of matches: nothing, the only one, or all of them. -/
def collect : List Document → Option Document
  | [] => none
  | [d] => some d
  | ds => some (.arr ds)

/-- What the path reads. -/
def value (p : Path) (context input : Document) : Option Document :=
  collect ((p.query.select (if p.ofContext then context else input)).map (·.value))

end Path

end StepFlow
