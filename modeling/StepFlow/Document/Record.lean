import StepFlow.Document

/-!
# Records

Reading the members of an object as the fields of a record. A field is found under its name or one
of its other names, and must not be there twice; members that no field names are ignored. A null
counts as absent for an optional field, while a nullable one tells the two apart.

A record may also be written as the list of its fields in their declared order. Such a list may end
early only before fields that are spare.
-/

namespace StepFlow

/-- A field that may be absent, null or a value. -/
inductive Nullable (α : Type) where
  | absent
  | null
  | value (a : α)
  deriving DecidableEq, Repr, Inhabited

/-- The declared fields of a record; `spare` ones may be missing at the end of a list. -/
abbrev Layout := List (String × Bool)

namespace Layout

/-- The members of a record written as a list. -/
def zip : Layout → List Document → Option Fields
  | layout, [] => if layout.all (·.2) then some [] else none
  | [], _ :: _ => none
  | (name, _) :: layout, d :: rest => (zip layout rest).map ((name, d) :: ·)

end Layout

namespace Document

/-- The members of a record. -/
def members? (layout : Layout) : Document → Option Fields
  | obj fields => some fields
  | arr items => layout.zip items
  | _ => none

def toBool? : Document → Option Bool
  | bool b => some b
  | _ => none

/-- A natural number below `bound`. -/
def toNat? (bound : Nat) : Document → Option Nat
  | num n => n.toNat? bound
  | _ => none

/-- The double nearest to a number. -/
def toBinary64? : Document → Option Binary64
  | num n => some n.toBinary64
  | _ => none

/-- A list, each item read in the same way. -/
def toList? {α : Type} (read : Document → Option α) : Document → Option (List α)
  | arr items => items.mapM read
  | _ => none

/-- A word that stands for one of several things. It may also be written as an object with the word
as its only name and null as its value. -/
def toWord? {α : Type} (ofName? : String → Option α) : Document → Option α
  | str name => ofName? name
  | obj [(name, null)] => ofName? name
  | _ => none

/-- Any value, its objects sorted. -/
def toValue? (d : Document) : Option Document := some d.canonical

end Document

namespace Record

variable {α : Type} (names : List String) (read : Document → Option α)

/-- A field that must be there. -/
def required (fields : Fields) : Option α := do
  let d ← Table.only? names fields
  d.bind read

/-- A field that may be absent or null. -/
def optional (fields : Fields) : Option (Option α) := do
  match ← Table.only? names fields with
  | none => some none
  | some .null => some none
  | some d => (read d).map some

/-- A field whose null differs from its absence. -/
def nullable (fields : Fields) : Option (Nullable α) := do
  match ← Table.only? names fields with
  | none => some .absent
  | some .null => some .null
  | some d => (read d).map .value

/-- A field with a value of its own when it is absent. -/
def defaulted (default : α) (fields : Fields) : Option α := do
  match ← Table.only? names fields with
  | none => some default
  | some d => read d

end Record

/-! ### Writing -/

namespace Record

variable {α : Type}

/-- A member that is left out when there is no value. -/
def present (name : String) (write : α → Document) : Option α → Fields
  | some a => [(name, write a)]
  | none => []

/-- A member that is left out when it was absent. -/
def written (name : String) (write : α → Document) : Nullable α → Fields
  | .absent => []
  | .null => [(name, .null)]
  | .value a => [(name, write a)]

/-- A member that is left out when the list is empty. -/
def nonempty (name : String) (write : α → Document) : List α → Fields
  | [] => []
  | as => [(name, .arr (as.map write))]

end Record

end StepFlow
