import StepFlow.Document.Numeral
import StepFlow.Text

/-!
# Drafts

A draft is a text as far as it makes sense: a tree that keeps the members of objects in their
written order, repeated names included, and that ends, where the text breaks, in the fault found
there. Reading a draft in text order for a document of some shape therefore meets a wrong shape and
a broken text in the order in which they stand.

A value can be read, or only skipped over. Skipping is laxer about the characters that escapes stand
for, about the size of numbers and about depth, and takes a number that ends early for malformed;
so a break has one fault for each of the two.
-/

namespace StepFlow

/-- Why a text is not a document of the wanted shape. -/
inductive Fault where
  /-- The text ends early. -/
  | truncated
  /-- The text breaks the grammar or a limit of it. -/
  | malformed
  /-- A document of another shape. -/
  | mismatched
  deriving DecidableEq, Repr, Inhabited

/-- What is found at the place where a text breaks. -/
structure Break where
  read : Fault
  skip : Fault
  deriving Repr, Inhabited

/-- A break that is the same for reading and skipping. -/
def Break.both (fault : Fault) : Break := ⟨fault, fault⟩

inductive Draft where
  | null
  | bool (b : Bool)
  | num (n : Numeral)
  /-- A string; none when an escape stands for half a character. -/
  | str (text : Option String)
  | arr (items : List Draft) (stop : Option Break)
  | obj (fields : List (Option String × Draft)) (stop : Option Break)
  | broken (stop : Break)
  deriving Inhabited

namespace Draft

/-- Blanks between tokens. -/
def isBlank (c : Char) : Bool := c = ' ' || c = '\n' || c = '\t' || c = '\r'

def skipBlanks (cs : List Char) : List Char := cs.dropWhile isBlank

/-- The digits at the front of a text. -/
def digits (cs : List Char) : List Nat × List Char :=
  ((cs.takeWhile Char.isDigit).map (·.toNat - 48), cs.dropWhile Char.isDigit)

/-- The fault of a number that stops before `cs`. -/
def numberBreak (cs : List Char) : Break :=
  ⟨if cs.isEmpty then .truncated else .malformed, .malformed⟩

/-- The power of ten at the front of a text, from its mark on. -/
def exponent (cs : List Char) : Except Break (Option Int × List Char) :=
  match cs with
  | c :: rest =>
    if c = 'e' ∨ c = 'E' then
      let (neg, rest) := match rest with
        | '+' :: r => (false, r)
        | '-' :: r => (true, r)
        | r => (false, r)
      match digits rest with
      | ([], r) => .error (numberBreak r)
      | (ds, r) =>
        let e : Nat := ds.foldl (fun n d => n * 10 + d) 0
        .ok (some (if neg then -(e : Int) else e), r)
    else .ok (none, cs)
  | [] => .ok (none, cs)

/-- The number at the front of a text, after its sign. -/
def numeral (neg : Bool) (cs : List Char) : Draft × List Char :=
  let (whole, rest) := digits cs
  match whole with
  | [] => (broken (numberBreak cs), [])
  | 0 :: _ :: _ => (broken (.both .malformed), [])
  | whole =>
    let fraction : Except Break (List Nat × List Char) := match rest with
      | '.' :: r =>
        match digits r with
        | ([], r) => .error (numberBreak r)
        | (ds, r) => .ok (ds, r)
      | r => .ok ([], r)
    match fraction with
    | .error stop => (broken stop, [])
    | .ok (fraction, rest) =>
      match exponent rest with
      | .error stop => (broken stop, [])
      | .ok (exponent, rest) => (num ⟨neg, whole, fraction, exponent⟩, rest)

/-- The value of a hexadecimal digit. -/
def hexValue (c : Char) : Option Nat :=
  if c.isDigit then some (c.toNat - 48)
  else if 'a' ≤ c ∧ c ≤ 'f' then some (c.toNat - 87)
  else if 'A' ≤ c ∧ c ≤ 'F' then some (c.toNat - 55)
  else none

/-- The four hexadecimal digits at the front of a text. A text with fewer than four bytes left ends
early, whatever they are. -/
def hexUnit (cs : List Char) : Except Fault (Nat × List Char) :=
  let malformed : Except Fault (Nat × List Char) :=
    .error (if Text.shorterThan 4 cs then .truncated else .malformed)
  match cs with
  | a :: b :: c :: d :: rest =>
    match hexValue a, hexValue b, hexValue c, hexValue d with
    | some a, some b, some c, some d => .ok (((a * 16 + b) * 16 + c) * 16 + d, rest)
    | _, _, _, _ => malformed
  | _ => malformed

/-- The character that a one-letter escape stands for. -/
def escaped? (c : Char) : Option Char :=
  if c = '"' ∨ c = '\\' ∨ c = '/' then some c
  else if c = 'b' then some '\x08'
  else if c = 'f' then some '\x0c'
  else if c = 'n' then some '\n'
  else if c = 'r' then some '\r'
  else if c = 't' then some '\t'
  else none

/-- The second half of a character that starts with the unit `high`: the character and what follows
its escape, or the fault of reading it. -/
def lowHalf (high : Nat) (cs : List Char) : Except Fault (Char × List Char) :=
  match cs with
  | [] => .error .truncated
  | '\\' :: [] => .error .truncated
  | '\\' :: 'u' :: rest =>
    match hexUnit rest with
    | .error fault => .error fault
    | .ok (low, rest) =>
      if 0xDC00 ≤ low ∧ low ≤ 0xDFFF then
        .ok (Char.ofNat ((high - 0xD800) * 0x400 + (low - 0xDC00) + 0x10000), rest)
      else .error .malformed
  | _ => .error .malformed

/-- The string at the front of a text, after its opening quote. `fault` is the fault of reading what
went before, which skipping does not mind. -/
def stringFrom (fuel : Nat) (read : List Char) (fault : Option Fault) (cs : List Char) :
    Except Break (Option String × List Char) :=
  let stop (f : Fault) : Except Break (Option String × List Char) := .error ⟨fault.getD f, f⟩
  match fuel with
  | 0 => stop .truncated
  | fuel + 1 =>
    match cs with
    | [] => stop .truncated
    | '"' :: rest =>
      .ok (if fault.isNone then some (String.ofList read.reverse) else none, rest)
    | '\\' :: [] => stop .truncated
    | '\\' :: 'u' :: rest =>
      match hexUnit rest with
      | .error f => stop f
      | .ok (unit, rest) =>
        if 0xD800 ≤ unit ∧ unit ≤ 0xDBFF then
          match lowHalf unit rest with
          | .ok (c, rest) => stringFrom fuel (c :: read) fault rest
          | .error f => stringFrom fuel read (some (fault.getD f)) rest
        else if 0xDC00 ≤ unit ∧ unit ≤ 0xDFFF then
          stringFrom fuel read (some (fault.getD .malformed)) rest
        else stringFrom fuel (Char.ofNat unit :: read) fault rest
    | '\\' :: c :: rest =>
      match escaped? c with
      | some c => stringFrom fuel (c :: read) fault rest
      | none => stop .malformed
    | c :: rest =>
      if c.toNat < 32 then stop .malformed else stringFrom fuel (c :: read) fault rest

def stringAt (cs : List Char) : Except Break (Option String × List Char) :=
  stringFrom (cs.length + 1) [] none cs

/-- The rest of a word whose first letter has been taken. -/
def word (rest : List Char) (draft : Draft) : List Char → Draft × List Char
  | cs =>
    match rest with
    | [] => (draft, cs)
    | w :: ws =>
      match cs with
      | [] => (broken (.both .truncated), [])
      | c :: cs => if c = w then word ws draft cs else (broken (.both .malformed), [])

/-- Is the break inside the draft, so that nothing follows it? -/
def isBroken : Draft → Bool
  | broken _ => true
  | arr _ stop => stop.isSome
  | obj _ stop => stop.isSome
  | _ => false

mutual

/-- The value at the front of a text. -/
def value (fuel : Nat) (cs : List Char) : Draft × List Char :=
  match fuel with
  | 0 => (broken (.both .truncated), [])
  | fuel + 1 =>
    match skipBlanks cs with
    | [] => (broken (.both .truncated), [])
    | 'n' :: rest => word "ull".toList null rest
    | 't' :: rest => word "rue".toList (bool true) rest
    | 'f' :: rest => word "alse".toList (bool false) rest
    | '-' :: rest => numeral true rest
    | '"' :: rest =>
      match stringAt rest with
      | .ok (text, rest) => (str text, rest)
      | .error stop => (broken stop, [])
    | '[' :: rest => items fuel true [] rest
    | '\x7b' :: rest => members fuel true [] rest
    | c :: rest => if c.isDigit then numeral false (c :: rest) else (broken (.both .malformed), [])

/-- The items from the place after an opening bracket or an item on. -/
def items (fuel : Nat) (first : Bool) (done : List Draft) (cs : List Char) : Draft × List Char :=
  let stop (f : Fault) : Draft × List Char := (arr done.reverse (some (.both f)), [])
  match fuel with
  | 0 => stop .truncated
  | fuel + 1 =>
    let next (cs : List Char) : Draft × List Char :=
      match value fuel cs with
      | (d, rest) =>
        if d.isBroken then (arr (d :: done).reverse (some (.both .truncated)), [])
        else items fuel false (d :: done) rest
    match skipBlanks cs with
    | [] => stop .truncated
    | ']' :: rest => (arr done.reverse none, rest)
    | c :: rest =>
      if first then next (c :: rest)
      else if c = ',' then
        match skipBlanks rest with
        | [] => stop .truncated
        | ']' :: _ => stop .malformed
        | rest => next rest
      else stop .malformed

/-- The members from the place after an opening brace or a member on. -/
def members (fuel : Nat) (first : Bool) (done : List (Option String × Draft)) (cs : List Char) :
    Draft × List Char :=
  let stop (b : Break) : Draft × List Char := (obj done.reverse (some b), [])
  match fuel with
  | 0 => stop (.both .truncated)
  | fuel + 1 =>
    let next (cs : List Char) : Draft × List Char :=
      match cs with
      | [] => stop (.both .truncated)
      | '"' :: rest =>
        match stringAt rest with
        | .error b => stop b
        | .ok (key, rest) =>
          let last (d : Draft) : Draft × List Char :=
            (obj ((key, d) :: done).reverse (some (.both .truncated)), [])
          match skipBlanks rest with
          | [] => last (broken (.both .truncated))
          | ':' :: rest =>
            match value fuel rest with
            | (d, rest) =>
              if d.isBroken then last d else members fuel false ((key, d) :: done) rest
          | _ => last (broken (.both .malformed))
      | _ => stop (.both .malformed)
    match skipBlanks cs with
    | [] => stop (.both .truncated)
    | '\x7d' :: rest => (obj done.reverse none, rest)
    | c :: rest =>
      if first then next (c :: rest)
      else if c = ',' then next (skipBlanks rest)
      else stop (.both .malformed)

end

/-- The draft of a text and what follows it. -/
def ofText (text : String) : Draft × List Char :=
  let cs := text.toList
  value (cs.length + 1) cs

mutual

/-- The fault met when the value is skipped over. -/
def skip : Draft → Except Fault Unit
  | broken stop => .error stop.skip
  | arr items stop => do
    skipItems items
    match stop with
    | some b => .error b.skip
    | none => .ok ()
  | obj fields stop => do
    skipFields fields
    match stop with
    | some b => .error b.skip
    | none => .ok ()
  | _ => .ok ()

def skipItems : List Draft → Except Fault Unit
  | [] => .ok ()
  | d :: rest => do skip d; skipItems rest

def skipFields : List (Option String × Draft) → Except Fault Unit
  | [] => .ok ()
  | (_, d) :: rest => do skip d; skipFields rest

end

/-- The fault of reading a value as something that it is not: that of a scalar which is no value at
all, and otherwise the wrong shape. -/
def otherShape : Draft → Fault
  | broken stop => stop.read
  | num n => if n.value?.isSome then .mismatched else .malformed
  | str none => .malformed
  | _ => .mismatched

/-- The end of a container's contents. -/
def ending (stop : Option Break) : Except Fault Unit :=
  match stop with
  | some b => .error b.read
  | none => .ok ()

/-- The name of a member. -/
def nameOf (key : Option String) : Except Fault String :=
  match key with
  | some name => .ok name
  | none => .error .malformed

mutual

/-- The document as written, members in their written order, with at most `depth` containers one
inside the other. -/
def content (depth : Nat) : Draft → Except Fault Document
  | null => .ok .null
  | bool b => .ok (.bool b)
  | num n => match n.value? with
    | some v => .ok (.num v)
    | none => .error .malformed
  | str (some s) => .ok (.str s)
  | str none => .error .malformed
  | arr items stop => match depth with
    | 0 => .error .malformed
    | depth + 1 => do
      let items ← contentItems depth items
      ending stop
      .ok (.arr items)
  | obj fields stop => match depth with
    | 0 => .error .malformed
    | depth + 1 => do
      let fields ← contentFields depth fields
      ending stop
      .ok (.obj fields)
  | broken stop => .error stop.read

def contentItems (depth : Nat) : List Draft → Except Fault (List Document)
  | [] => .ok []
  | d :: rest => do
    let d ← content depth d
    .ok (d :: (← contentItems depth rest))

def contentFields (depth : Nat) : List (Option String × Draft) → Except Fault Fields
  | [] => .ok []
  | (key, d) :: rest => do
    let name ← nameOf key
    let d ← content depth d
    .ok ((name, d) :: (← contentFields depth rest))

end

end Draft

end StepFlow
