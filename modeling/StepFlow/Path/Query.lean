import StepFlow.Document

/-!
# Queries

A query is a list of segments, each of which selects among the children of a node or, recursively,
among those of the node and all its descendants. A node is a place in a document: its location from
the root and the value found there.

`Query.select` runs a query: every segment maps the list of nodes reached so far to the nodes that it
selects at each of them. Inside a filter, `@` stands for the node that is tested and `$` for the root
of the query that the filter belongs to, which for a query that itself starts at `@` is that node.
-/

namespace StepFlow

/-- A name or an index; a negative index counts from the end. -/
inductive Key where
  | name (s : String)
  | index (i : Int)
  deriving DecidableEq, Repr, Inhabited

inductive CompareOp where
  | eq | ne | lt | le | gt | ge
  deriving DecidableEq, Repr, Inhabited

mutual

/-- One step of a query. -/
inductive Segment where
  /-- Selects at the node itself. -/
  | child (selector : Selector)
  /-- Selects at the node and at each of its descendants. -/
  | descendants (selector : Selector)

inductive Selector where
  | key (k : Key)
  | wildcard
  /-- Several keys, one after the other. -/
  | union (keys : List Key)
  | slice (first stop step : Option Int)
  /-- The children that satisfy a condition. -/
  | filter (condition : Filter)

inductive Filter where
  | or (a b : Filter)
  | and (a b : Filter)
  | not (a : Filter)
  /-- A query that matches something, or a literal other than null and false. -/
  | holds (operand : Operand)
  | compare (left : Operand) (op : CompareOp) (right : Operand)

inductive Operand where
  /-- A query from the node that is tested. -/
  | current (query : List Segment)
  /-- A query from the root of the surrounding query. -/
  | root (query : List Segment)
  | literal (value : Document)

end

instance : Inhabited Operand := ⟨.literal .null⟩
instance : Inhabited Filter := ⟨.holds default⟩
instance : Inhabited Selector := ⟨.wildcard⟩
instance : Inhabited Segment := ⟨.child default⟩

abbrev Query := List Segment

/-- One step down from a container to a child. -/
inductive Position where
  | member (name : String)
  | element (i : Nat)
  deriving DecidableEq, Repr, Inhabited

/-- A place in a document. -/
structure Node where
  /-- The steps from the root. -/
  location : List Position
  value : Document
  deriving Repr, Inhabited

namespace Node

def root (d : Document) : Node := ⟨[], d⟩

/-- The node one step further down. -/
def child (n : Node) (p : Position) (value : Document) : Node := ⟨n.location ++ [p], value⟩

/-- The items of an array with their places, counted from `i`. -/
def elements (n : Node) (i : Nat) : List Document → List Node
  | [] => []
  | d :: rest => n.child (.element i) d :: n.elements (i + 1) rest

def members (n : Node) : Fields → List Node
  | [] => []
  | (k, d) :: rest => n.child (.member k) d :: n.members rest

/-- The items or members of a container. -/
def children (n : Node) : List Node :=
  match n.value with
  | .arr items => n.elements 0 items
  | .obj fields => n.members fields
  | _ => []

mutual

/-- The node at a location with that value, followed by all its descendants, a container before its
contents. -/
def subtree (location : List Position) : Document → List Node
  | .arr items => ⟨location, .arr items⟩ :: subtreeItems location 0 items
  | .obj fields => ⟨location, .obj fields⟩ :: subtreeFields location fields
  | d => [⟨location, d⟩]

def subtreeItems (location : List Position) (i : Nat) : List Document → List Node
  | [] => []
  | d :: rest => subtree (location ++ [.element i]) d ++ subtreeItems location (i + 1) rest

def subtreeFields (location : List Position) : Fields → List Node
  | [] => []
  | (k, d) :: rest => subtree (location ++ [.member k]) d ++ subtreeFields location rest

end

/-- The node and all its descendants. -/
def descendants (n : Node) : List Node := subtree n.location n.value

end Node

/-- The place of a possibly negative index among `n` elements. -/
def resolveIndex (n : Nat) (i : Int) : Option Nat :=
  let j := if i < 0 then (n : Int) + i else i
  if 0 ≤ j ∧ j < n then some j.toNat else none

namespace Slice

def minWord : Int := -(Nat.pow 2 63)
def maxWord : Int := Nat.pow 2 63 - 1

/-- The sum, when it is a signed word. -/
def addWord (i step : Int) : Option Int :=
  if minWord ≤ i + step ∧ i + step ≤ maxWord then some (i + step) else none

/-- A bound with the length added when it is negative. -/
def normalize (n : Nat) (i : Int) : Int := if i < 0 then i + n else i

def clamp (lo hi i : Int) : Int := max lo (min hi i)

/-- The places `i`, `i + step`, … below `stop`, until a sum leaves the signed words. -/
def upward (step stop i : Int) : List Nat :=
  if i < stop ∧ 0 < step then
    i.toNat :: (match addWord i step with
      | some next => if i < next then upward step stop next else []
      | none => [])
  else []
termination_by (stop - i).toNat

/-- The places `i`, `i + step`, … above `stop`, for a negative step. -/
def downward (step stop i : Int) : List Nat :=
  if stop < i ∧ step < 0 then
    i.toNat :: (match addWord i step with
      | some next => if next < i then downward step stop next else []
      | none => [])
  else []
termination_by (i - stop).toNat

/-- The places that a slice selects among `n` elements. -/
def indices (n : Nat) (first stop step : Option Int) : List Nat :=
  let step := step.getD 1
  let bound (lo hi : Int) (i : Option Int) (default : Int) : Int :=
    clamp lo hi ((i.map (normalize n)).getD default)
  if 0 < step then
    upward step (bound 0 n stop n) (bound 0 n first 0)
  else if step < 0 then
    downward step (bound (-1) (n - 1) stop (-1)) (bound (-1) (n - 1) first (n - 1))
  else []

end Slice

/-- Equality in filters: numbers as doubles, all else as trees. -/
def Document.looselyEqual : Document → Document → Bool
  | .num a, .num b => a.same b
  | a, b => a.same b

/-- The order of two numbers or of two strings. -/
def Document.order? : Document → Document → Option Ordering
  | .num a, .num b => some (a.cmp b)
  | .str a, .str b => some (compare a b)
  | _, _ => none

namespace CompareOp

def holds (op : CompareOp) (a b : Document) : Bool :=
  match op with
  | eq => a.looselyEqual b
  | ne => !a.looselyEqual b
  | lt => a.order? b == some .lt
  | le => a.order? b == some .lt || a.order? b == some .eq
  | gt => a.order? b == some .gt
  | ge => a.order? b == some .gt || a.order? b == some .eq

end CompareOp

/-- Neither null nor false. -/
def Document.isTruthy : Document → Bool
  | .null => false
  | .bool b => b
  | _ => true

namespace Key

/-- The child under a key. -/
def select (k : Key) (n : Node) : List Node :=
  match k, n.value with
  | name s, .obj fields =>
    match Table.get? s fields with
    | some d => [n.child (.member s) d]
    | none => []
  | index i, .arr items =>
    match resolveIndex items.length i with
    | some j =>
      match items[j]? with
      | some d => [n.child (.element j) d]
      | none => []
    | none => []
  | _, _ => []

end Key

namespace Node

/-- The elements at the given places of an array. -/
def pick (n : Node) (places : List Nat) : List Node :=
  match n.value with
  | .arr items => places.filterMap fun i => items[i]?.map (n.child (.element i))
  | _ => []

end Node

mutual

/-- The nodes selected from one node, in a query that starts at `root`. -/
def Segment.select (root : Document) : Segment → Node → List Node
  | .child s, n => s.select root n
  | .descendants s, n => n.descendants.flatMap (s.select root)

def Selector.select (root : Document) : Selector → Node → List Node
  | .key k, n => k.select n
  | .wildcard, n => n.children
  | .union keys, n => keys.flatMap (·.select n)
  | .slice first stop step, n =>
    match n.value with
    | .arr items => n.pick (Slice.indices items.length first stop step)
    | _ => []
  | .filter condition, n => n.children.filter fun c => condition.holdsAt root c.value

/-- Does the condition hold of the value, in a query that starts at `root`? -/
def Filter.holdsAt (root value : Document) : Filter → Bool
  | .or a b => a.holdsAt root value || b.holdsAt root value
  | .and a b => a.holdsAt root value && b.holdsAt root value
  | .not a => !a.holdsAt root value
  | .holds (.literal d) => d.isTruthy
  | .holds operand => (operand.resolve root value).isSome
  | .compare left op right =>
    match left.resolve root value, right.resolve root value with
    | some a, some b => op.holds a b
    | _, _ => false

/-- The first match of a query, or the literal. -/
def Operand.resolve (root value : Document) : Operand → Option Document
  | .current query => (Query.run value query [Node.root value]).head?.map (·.value)
  | .root query => (Query.run root query [Node.root root]).head?.map (·.value)
  | .literal d => some d

/-- Runs the segments one after the other on the nodes reached so far. -/
def Query.run (root : Document) : List Segment → List Node → List Node
  | [], nodes => nodes
  | s :: rest, nodes => Query.run root rest (nodes.flatMap (s.select root))

end

/-- The nodes that a query selects in a document. -/
def Query.select (query : Query) (d : Document) : List Node := Query.run d query [Node.root d]

end StepFlow
