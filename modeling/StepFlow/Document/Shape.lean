import StepFlow.Document.Draft

/-!
# Shapes

A shape reads a draft for a document of some form, in the order of the text, so that of several
faults the first one counts: a wrong shape found early wins over a break further on, and the other
way round. The result holds the known members only; members that the shape does not name are
skipped. A record may also be written as the list of its members in their declared order.

`Shape.read` reads a whole text, `Document.parse` one without any wanted shape.
-/

namespace StepFlow

/-- Reads a draft, given how many containers may still be opened. -/
abbrev Shape := Nat → Draft → Except Fault Document

/-- A named member of a record; `spare` when a record written as a list may end before it. -/
structure Member where
  name : String
  spare : Bool
  shape : Shape

namespace Shape

/-- The most containers one inside the other that a text may have. -/
def maxDepth : Nat := 127

/-- Any document, as written. -/
def content : Shape := fun depth d => d.content depth

/-- Any document. -/
def any : Shape := fun depth d => (d.content depth).map Document.canonical

/-- A scalar for which `ok` holds. -/
def scalar (ok : Document → Bool) : Shape := fun _ d =>
  match d with
  | .arr .. | .obj .. => .error .mismatched
  | d =>
    match d.content 0 with
    | .error fault => .error fault
    | .ok v => if ok v then .ok v else .error .mismatched

def text : Shape := scalar fun
  | .str _ => true
  | _ => false

/-- A natural number below `bound`. -/
def count (bound : Nat) : Shape := scalar fun
  | .num n => (n.toNat? bound).isSome
  | _ => false

def optional (shape : Shape) : Shape := fun depth d =>
  match d with
  | .null => .ok .null
  | d => shape depth d

/-- One of several words. A word may also be written as an object with the word as its only name
and null as its value. Nothing else is taken for a choice of words at all. -/
def oneOf (words : List String) : Shape := fun depth d =>
  let choose (key : Option String) : Except Fault Document := do
    let w ← Draft.nameOf key
    if w ∈ words then .ok (.str w) else .error .mismatched
  match d with
  | .str key => choose key
  | .obj fields stop =>
    if depth = 0 then .error .malformed
    else
      match fields with
      | [] => .error ((stop.map (·.read)).getD .malformed)
      | (key, d) :: rest => do
        let w ← choose key
        match d with
        | .null =>
          if rest.isEmpty then
            Draft.ending stop
            .ok w
          else .error .malformed
        | d => .error d.otherShape
  | .broken stop => .error stop.read
  | _ => .error .malformed

/-- An object whose every value has one shape. -/
def entries (shape : Shape) : Shape := fun depth d =>
  let rec go (depth : Nat) : List (Option String × Draft) → Except Fault Fields
    | [] => .ok []
    | (key, d) :: rest => do
      let name ← Draft.nameOf key
      let d ← shape depth d
      .ok ((name, d) :: (← go depth rest))
  match d, depth with
  | .obj .., 0 => .error .malformed
  | .obj fields stop, depth + 1 => do
    let fields ← go depth fields
    Draft.ending stop
    .ok (.obj fields)
  | d, _ => .error d.otherShape

/-- The members of a record in the order of the text, the later ones skipped or known. -/
def namedMembers (known : List Member) (depth : Nat) (seen : List String) :
    List (Option String × Draft) → Except Fault Fields
  | [] => .ok []
  | (key, d) :: rest => do
    let name ← Draft.nameOf key
    match known.find? (·.name = name) with
    | none => do
      d.skip
      namedMembers known depth seen rest
    | some m =>
      if name ∈ seen then .error .mismatched
      else do
        let d ← m.shape depth d
        .ok ((name, d) :: (← namedMembers known depth (name :: seen) rest))

/-- The members of a record written as a list. -/
def listedMembers (depth : Nat) (stop : Option Break) :
    List Member → List Draft → Except Fault Fields
  | [], [] => do
    Draft.ending stop
    .ok []
  | [], _ :: _ => .error .malformed
  | m :: ms, [] => do
    Draft.ending stop
    if (m :: ms).all (·.spare) then .ok [] else .error .mismatched
  | m :: ms, d :: ds => do
    let d ← m.shape depth d
    .ok ((m.name, d) :: (← listedMembers depth stop ms ds))

/-- A record of known members, each at most once. Which of them must be there is left to the
reader of the result, which finds a missing one only at the end of the record. -/
def record (known : List Member) : Shape := fun depth d =>
  match d, depth with
  | .obj .., 0 => .error .malformed
  | .arr .., 0 => .error .malformed
  | .obj fields stop, depth + 1 => do
    let fields ← namedMembers known depth [] fields
    Draft.ending stop
    .ok (.obj fields)
  | .arr items stop, depth + 1 => (listedMembers depth stop known items).map .obj
  | d, _ => .error d.otherShape

/-- An object or list with a tag: the member of that name, or the first item. The tag must be one
of the words, and all else is taken as written. -/
def tagged (tag : String) (words : List String) : Shape := fun depth d =>
  let word : Shape := scalar fun
    | .str w => w ∈ words
    | _ => false
  let rec go (depth : Nat) (seen : Bool) : List (Option String × Draft) → Except Fault (Bool × Fields)
    | [] => .ok (seen, [])
    | (key, d) :: rest => do
      let name ← Draft.nameOf key
      if name = tag then
        if seen then .error .mismatched
        else do
          let d ← word depth d
          let (seen, fields) ← go depth true rest
          .ok (seen, (name, d) :: fields)
      else do
        let d ← d.content depth
        let (seen, fields) ← go depth seen rest
        .ok (seen, (name, d) :: fields)
  match d, depth with
  | .obj .., 0 => .error .malformed
  | .arr .., 0 => .error .malformed
  | .obj fields stop, depth + 1 => do
    let (seen, fields) ← go depth false fields
    Draft.ending stop
    if seen then .ok (.obj fields) else .error .mismatched
  | .arr items stop, depth + 1 =>
    match items with
    | [] => do
      Draft.ending stop
      .error .mismatched
    | d :: rest => do
      let d ← word depth d
      let rest ← Draft.contentItems depth rest
      Draft.ending stop
      .ok (.arr (d :: rest))
  | d, _ => .error d.otherShape

/-- A document that passes a further check. -/
def checked (ok : Document → Bool) (shape : Shape) : Shape := fun depth d => do
  let v ← shape depth d
  if ok v then .ok v else .error .mismatched

/-- Reads a whole text; only blanks may follow the document. -/
def read (shape : Shape) (text : String) (depth : Nat) : Except Fault Document := do
  let (d, rest) := Draft.ofText text
  let v ← shape depth d
  if (Draft.skipBlanks rest).isEmpty then .ok v else .error .malformed

end Shape

/-- Reads a text as a document. -/
def Document.parse (text : String) : Except Fault Document := Shape.any.read text Shape.maxDepth

end StepFlow
