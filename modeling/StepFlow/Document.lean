import StepFlow.Binary64
import StepFlow.Table

/-!
# Documents

A document is a tree of JSON values. The members of an object are a list of named documents; in a
canonical document the names of every object are strictly increasing, so that equal documents are
equal terms and every traversal of an object goes in the order of its names. A text is first read
into a document that keeps its members as written, names repeated or not; `canonical` sorts them,
the last of several values of one name winning.
-/

namespace StepFlow

/-- An integer in the range of 64-bit words, signed or not, or a double. -/
inductive Number where
  | int (i : Int)
  | float (x : Binary64)
  deriving DecidableEq, Repr, Inhabited

namespace Number

/-- The double nearest to the number. -/
def toBinary64 : Number → Binary64
  | int i => Binary64.ofInt i
  | float x => x

/-- The order of the nearest doubles. -/
def cmp (a b : Number) : Ordering := a.toBinary64.cmp b.toBinary64

/-- Equality of the nearest doubles. -/
def same (a b : Number) : Bool := a.toBinary64.same b.toBinary64

/-- Equality of numbers of one form: an integer never equals a double. -/
def sameForm : Number → Number → Bool
  | int i, int j => i == j
  | float x, float y => x.same y
  | _, _ => false

/-- A natural number below `bound`, written as an integer. -/
def toNat? (bound : Nat) : Number → Option Nat
  | int (.ofNat n) => if n < bound then some n else none
  | _ => none

end Number

inductive Document where
  | null
  | bool (b : Bool)
  | num (n : Number)
  | str (s : String)
  | arr (items : List Document)
  | obj (fields : List (String × Document))
  deriving Repr, Inhabited

/-- The members of an object. -/
abbrev Fields := Table Document

namespace Document

/-- An object from members in any order. -/
def ofList (members : Fields) : Document := obj (Table.ofList members)

def ofNat (n : Nat) : Document := num (.int n)

mutual

/-- Sorts the members of every object, the last of several values of one name winning. -/
def canonical : Document → Document
  | arr items => arr (canonicalItems items)
  | obj fields => obj (Table.ofList (canonicalFields fields))
  | d => d

def canonicalItems : List Document → List Document
  | [] => []
  | d :: rest => canonical d :: canonicalItems rest

def canonicalFields : Fields → Fields
  | [] => []
  | (k, d) :: rest => (k, canonical d) :: canonicalFields rest

end

mutual

/-- The names of every object are strictly increasing. -/
def Canonical : Document → Prop
  | arr items => CanonicalItems items
  | obj fields => Table.Sorted fields ∧ CanonicalFields fields
  | _ => True

def CanonicalItems : List Document → Prop
  | [] => True
  | d :: rest => Canonical d ∧ CanonicalItems rest

def CanonicalFields : Fields → Prop
  | [] => True
  | (_, d) :: rest => Canonical d ∧ CanonicalFields rest

end

mutual

/-- Equality of trees in which an integer never equals a double and the two zeros are equal. -/
def same : Document → Document → Bool
  | null, null => true
  | bool a, bool b => a == b
  | num a, num b => a.sameForm b
  | str a, str b => a == b
  | arr a, arr b => sameItems a b
  | obj a, obj b => sameFields a b
  | _, _ => false

def sameItems : List Document → List Document → Bool
  | [], [] => true
  | a :: as, b :: bs => same a b && sameItems as bs
  | _, _ => false

def sameFields : Fields → Fields → Bool
  | [], [] => true
  | (k, a) :: as, (l, b) :: bs => k == l && same a b && sameFields as bs
  | _, _ => false

end

def isNull : Document → Bool
  | null => true
  | _ => false

/-- The member of that name, when the document is an object that has it. -/
def get? (name : String) : Document → Option Document
  | obj fields => Table.get? name fields
  | _ => none

/-- The text of a string. -/
def toStr? : Document → Option String
  | str s => some s
  | _ => none

/-- A null in place of nothing. -/
def ofOption {α : Type} (f : α → Document) : Option α → Document
  | some a => f a
  | none => null

mutual

/-- The most containers one inside the other. -/
def height : Document → Nat
  | arr items => heightItems items + 1
  | obj fields => heightFields fields + 1
  | _ => 0

def heightItems : List Document → Nat
  | [] => 0
  | d :: rest => max (height d) (heightItems rest)

def heightFields : Fields → Nat
  | [] => 0
  | (_, d) :: rest => max (height d) (heightFields rest)

end

end Document

end StepFlow
