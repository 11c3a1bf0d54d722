import StepFlow.Path

/-!
# Reference paths

A reference path is a list of keys and so names exactly one place in a document, which can be
written to. On the way to it a null or a missing member counts as an empty container of the kind the
next key needs, and an index just past the end of an array appends. At the root two objects are
merged and any other document is replaced.
-/

namespace StepFlow

namespace Document

/-- The empty container that a key can enter. -/
def emptyFor : Key → Document
  | .name _ => obj []
  | .index _ => arr []

/-- The document that a key enters: a null is an empty container. -/
def entered (d : Document) (k : Key) : Document := if d.isNull then emptyFor k else d

/-- The child under a key. -/
def child? (d : Document) : Key → Option Document
  | .name s => d.get? s
  | .index i =>
    match d with
    | arr items => (resolveIndex items.length i).bind (items[·]?)
    | _ => none

/-- The place under a list of keys. -/
def follow? (d : Document) : List Key → Option Document
  | [] => some d
  | k :: rest => (d.child? k).bind (follow? · rest)

/-- The place where an index writes: an element, or just past the end. -/
def writeIndex (n : Nat) (i : Int) : Option Nat :=
  match resolveIndex n i with
  | some j => some j
  | none => if i = n then some n else none

/-- The document with a value written under a list of keys. -/
def write (d : Document) (keys : List Key) (value : Document) : Except Mismatch Document :=
  match keys with
  | [] => .ok value
  | k :: rest =>
    match d.entered k, k with
    | obj fields, .name s => do
      let child ← write ((Table.get? s fields).getD null) rest value
      .ok (obj (Table.insert s child fields))
    | arr items, .index i =>
      match writeIndex items.length i with
      | none => .error (.outOfBounds i)
      | some j => do
        let child ← write (items[j]?.getD null) rest value
        .ok (arr (if j < items.length then items.set j child else items ++ [child]))
    | other, .name s => .error (.noMembers s other.kind)
    | other, .index i => .error (.noElements i other.kind)

end Document

/-- A path that names one place. -/
structure ReferencePath where
  expression : String
  keys : List Key
  deriving DecidableEq, Repr, Inhabited

namespace ReferencePath

/-- The root of a document. -/
def root : ReferencePath := ⟨"$", []⟩

/-- Characters without a place in reference paths, whether quoted or not. -/
def isForbidden (c : Char) : Bool := c = '@' || c = ',' || c = ':' || c = '?'

/-- The key of a segment that selects one child. -/
def keyOf : Segment → Except PathFlaw Key
  | .descendants _ => .error .descent
  | .child (.key k) => .ok k
  | .child .wildcard => .error .wildcard
  | .child _ => .error .severalKeys

/-- Reads an expression. -/
def parse (expression : String) : Except PathFlaw ReferencePath := do
  match expression.toList.find? isForbidden with
  | some c => throw (.forbidden c)
  | none => pure ()
  if "$$".isPrefixOf expression then throw .readOnly
  let path ← Path.parse expression
  let keys ← path.query.mapM keyOf
  return ⟨expression, keys⟩

def ofString (expression : String) : Except PathError ReferencePath :=
  (parse expression).mapError (.invalidReference expression)

/-- The value at the place. -/
def get? (p : ReferencePath) (d : Document) : Option Document := d.follow? p.keys

/-- The document with a value written at the place. -/
def set (p : ReferencePath) (d value : Document) : Except PathError Document :=
  match p.keys, d, value with
  | [], .obj base, .obj update => .ok (.obj (Table.merge base update))
  | [], _, value => .ok value
  | keys, d, value => (d.write keys value).mapError (.resultPathMismatch p.expression)

end ReferencePath

end StepFlow
