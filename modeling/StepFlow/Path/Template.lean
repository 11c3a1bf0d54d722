import StepFlow.Path

/-!
# Templates

A template is a document in which some strings are paths: every string that starts with `$`, and
every value of a key that ends in `.$`, whose suffix is dropped when the template is rendered. A
path that matches nothing renders as null, all other values as they are; what a path reads is
inserted as it is.
-/

namespace StepFlow

inductive Template where
  | literal (d : Document)
  | path (p : Path)
  | list (items : List Template)
  | record (fields : List (String × Template))
  deriving Inhabited

namespace Template

/-- The name before the suffix `.$`. -/
def pathKey? (key : String) : Option String := Text.beforeSuffix? ".$" key

mutual

/-- Reads a template; of several errors the one that stands first, members in their order. -/
def ofDocument : Document → Except PathError Template
  | .str s => if "$".isPrefixOf s then (Path.ofString s).map path else .ok (literal (.str s))
  | .arr items => (ofItems items).map list
  | .obj fields => (ofFields fields).map record
  | d => .ok (literal d)

def ofItems : List Document → Except PathError (List Template)
  | [] => .ok []
  | d :: rest => do
    let t ← ofDocument d
    .ok (t :: (← ofItems rest))

def ofFields : Fields → Except PathError (List (String × Template))
  | [] => .ok []
  | (key, d) :: rest => do
    let field ← match pathKey? key, d with
      | some name, .str expression => (Path.ofString expression).map fun p => (name, path p)
      | some _, _ => .error (.invalidTemplate key)
      | none, d => (ofDocument d).map fun t => (key, t)
    .ok (field :: (← ofFields rest))

end

mutual

/-- The template with its paths replaced by what they read. -/
def render (context input : Document) : Template → Document
  | literal d => d
  | path p => (p.value context input).getD .null
  | list items => .arr (renderItems context input items)
  | record fields => .ofList (renderFields context input fields)

def renderItems (context input : Document) : List Template → List Document
  | [] => []
  | t :: rest => render context input t :: renderItems context input rest

def renderFields (context input : Document) : List (String × Template) → Fields
  | [] => []
  | (k, t) :: rest => (k, render context input t) :: renderFields context input rest

end

end Template

end StepFlow
