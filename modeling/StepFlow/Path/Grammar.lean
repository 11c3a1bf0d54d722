import StepFlow.Path.Query
import StepFlow.Document.Shape

/-!
# The grammar of queries

A query text is `$` followed by segments: `.name`, `.*`, `[…]`, and with a second point the same
selectors at all depths. A parser takes the longest prefix that it understands; it misses when there
is none, and the alternatives after it are tried. Only a number with an exponent mark but no
exponent ends the whole parse (`Reply.halt`).

The recursion through brackets, parentheses and negations is bounded by a nesting budget. Every level
consumes a character, so the length of the text is always enough.
-/

namespace StepFlow

/-- The outcome of a parser. -/
inductive Reply (α : Type) where
  | ok (value : α) (rest : List Char)
  | miss
  /-- The parse ends before `rest`, whatever the alternatives. -/
  | halt (rest : List Char)
  deriving Repr, Inhabited

abbrev Parser (α : Type) := List Char → Reply α

namespace Parser

variable {α β : Type}

def pure (a : α) : Parser α := fun cs => .ok a cs

def bind (p : Parser α) (f : α → Parser β) : Parser β := fun cs =>
  match p cs with
  | .ok a rest => f a rest
  | .miss => .miss
  | .halt rest => .halt rest

instance : Monad Parser where
  pure := Parser.pure
  bind := Parser.bind

def fail : Parser α := fun _ => .miss

/-- The second parser, where the first one misses. -/
def orElse (p q : Parser α) : Parser α := fun cs =>
  match p cs with
  | .miss => q cs
  | r => r

/-- The first parser of a list that does not miss. -/
def choice : List (Parser α) → Parser α
  | [] => fail
  | p :: ps => orElse p (choice ps)

/-- What the parser reads, if it reads anything. -/
def optional (p : Parser α) : Parser (Option α) := fun cs =>
  match p cs with
  | .ok a rest => .ok (some a) rest
  | .miss => .ok none cs
  | .halt rest => .halt rest

/-- The parser as often as it succeeds. -/
def many (p : Parser α) (cs : List Char) : Reply (List α) :=
  match p cs with
  | .ok a rest =>
    if rest.length < cs.length then
      match many p rest with
      | .ok as rest => .ok (a :: as) rest
      | .miss => .miss
      | .halt rest => .halt rest
    else .ok [] cs
  | .miss => .ok [] cs
  | .halt rest => .halt rest
termination_by cs.length

def char (c : Char) : Parser Unit
  | d :: rest => if d = c then .ok () rest else .miss
  | [] => .miss

/-- A given text. -/
def text : List Char → Parser Unit
  | [] => pure ()
  | c :: cs => bind (char c) fun _ => text cs

/-- All characters at the front that satisfy a test, at least one. -/
def span (ok : Char → Bool) : Parser (List Char) := fun cs =>
  match cs.takeWhile ok with
  | [] => .miss
  | taken => .ok taken (cs.dropWhile ok)

/-- Space, tab and line breaks, if any. -/
def blanks : Parser Unit := fun cs => .ok () (Draft.skipBlanks cs)

/-- The parser with blanks around it. -/
def spaced (p : Parser α) : Parser α := do
  blanks
  let a ← p
  blanks
  return a

end Parser

namespace Grammar

open StepFlow.Parser

/-- The characters of a name that needs no quotes. -/
def isNameChar (c : Char) : Bool := !Text.isWhiteSpace c && !".[](),=!<>&|'\"?@*:$".toList.contains c

def name : Parser Selector := do
  let cs ← span isNameChar
  return .key (.name (String.ofList cs))

def wildcard : Parser Selector := do
  char '*'
  return .wildcard

/-- A signed word. -/
def integer : Parser Int := do
  let sign ← optional (char '-')
  let ds ← span Char.isDigit
  let n : Nat := Text.digitsValue ds
  let i : Int := if sign.isSome then -n else n
  if Slice.minWord ≤ i ∧ i ≤ Slice.maxWord then return i else fail

/-- The character that a backslash and a letter stand for. -/
def unescape (c : Char) : Char :=
  if c = 'n' then '\n' else if c = 't' then '\t' else if c = 'r' then '\r' else c

/-- The text up to the closing quote. -/
def quotedFrom (quote : Char) : List Char → Reply (List Char)
  | [] => .miss
  | '\\' :: [] => .miss
  | '\\' :: c :: rest =>
    match quotedFrom quote rest with
    | .ok cs rest => .ok (unescape c :: cs) rest
    | r => r
  | c :: rest =>
    if c = quote then .ok [] rest
    else
      match quotedFrom quote rest with
      | .ok cs rest => .ok (c :: cs) rest
      | r => r

/-- A text in single or double quotes. -/
def quoted : Parser String := fun cs =>
  match cs with
  | q :: rest =>
    if q = '\'' ∨ q = '"' then
      match quotedFrom q rest with
      | .ok cs rest => .ok (String.ofList cs) rest
      | .miss => .miss
      | .halt rest => .halt rest
    else .miss
  | [] => .miss

/-- A slice: two or three bounds between colons, each of them optional. -/
def slice : Parser Selector := do
  let first ← optional (spaced integer)
  char ':'
  let stop ← optional (spaced integer)
  let step ← optional (do char ':'; optional (spaced integer))
  return .slice first stop step.join

def key : Parser Key := orElse
  (do let s ← quoted; return .name s)
  (do let i ← integer; return .index i)

/-- One key, or several with commas between them. -/
def keys : Parser Selector := do
  let first ← key
  let more ← many (do spaced (char ','); key)
  match more with
  | [] => return .key first
  | more => return .union (first :: more)

/-- One of two characters. -/
def either (a b : Char) : Parser Char := orElse (do char a; return a) (do char b; return b)

/-- Digits, without which the whole parse ends. -/
def exponentDigits : Parser (List Char) := fun cs =>
  match span Char.isDigit cs with
  | .miss => .halt cs
  | r => r

/-- A number as the grammar of paths spells it: sign, digits around a point, exponent. -/
def numberText : Parser (List Char) := do
  let sign ← optional (either '+' '-')
  let mantissa ← orElse
    (do
      let whole ← span Char.isDigit
      let fraction ← optional (do char '.'; optional (span Char.isDigit))
      return match fraction with
        | none => whole
        | some ds => whole ++ '.' :: ds.getD [])
    (do
      char '.'
      let ds ← span Char.isDigit
      return '.' :: ds)
  let exponent ← optional (do
    let _ ← either 'e' 'E'
    let sign ← optional (either '+' '-')
    let ds ← exponentDigits
    return 'e' :: sign.toList ++ ds)
  return sign.toList ++ mantissa ++ exponent.getD []

/-- A number that is also the text of a document. -/
def number : Parser Document := do
  let cs ← numberText
  match Document.parse (String.ofList cs) with
  | .ok d => return d
  | .error _ => fail

def literal : Parser Document := choice [
  do let s ← quoted; return .str s,
  do text "true".toList; return .bool true,
  do text "false".toList; return .bool false,
  do text "null".toList; return .null,
  number]

def compareOp : Parser CompareOp := choice [
  do text "==".toList; return .eq,
  do text "!=".toList; return .ne,
  do text "<=".toList; return .le,
  do text ">=".toList; return .ge,
  do text "<".toList; return .lt,
  do text ">".toList; return .gt]

/-! ### Parsers over a parser of conditions -/

section
variable (condition : Parser Filter)

/-- `?(…)` -/
def filter : Parser Selector := do
  char '?'
  blanks
  char '('
  let f ← spaced condition
  char ')'
  return .filter f

def bracket : Parser Selector := do
  char '['
  blanks
  let s ← choice [filter condition, wildcard, slice, keys]
  blanks
  char ']'
  return s

def segment : Parser Segment := choice [
  do
    text "..".toList
    let s ← choice [wildcard, name, bracket condition]
    return .descendants s,
  do
    char '.'
    let s ← choice [wildcard, name]
    return .child s,
  do
    let s ← bracket condition
    return .child s]

def segments : Parser Query := many (segment condition)

def operand : Parser Operand := choice [
  do char '@'; let q ← segments condition; return .current q,
  do char '$'; let q ← segments condition; return .root q,
  do let d ← literal; return .literal d]

/-- An operand alone or two operands with a comparison between them. -/
def comparison : Parser Filter := do
  let left ← spaced (operand condition)
  let rest ← optional (do
    let op ← spaced compareOp
    let right ← spaced (operand condition)
    return (op, right))
  match rest with
  | some (op, right) => return .compare left op right
  | none => return .holds left

end

/-- Conditions with `&&` and, binding weaker, `||` between them, joined from the left. -/
def connected (unary : Parser Filter) : Parser Filter :=
  let conjunction : Parser Filter := do
    let first ← unary
    let more ← many (do spaced (text "&&".toList); unary)
    return more.foldl .and first
  do
    let first ← conjunction
    let more ← many (do spaced (text "||".toList); conjunction)
    return more.foldl .or first

/-- A negation, a condition in parentheses or a comparison, nested at most `budget` deep. -/
def unary : (budget : Nat) → Parser Filter
  | 0, _ => .miss
  | budget + 1, cs => choice [
    do
      spaced (char '!')
      let f ← unary budget
      return .not f,
    do
      spaced (char '(')
      let f ← connected (unary budget)
      spaced (char ')')
      return f,
    comparison (connected (unary budget))] cs

/-- The segments at the front of a text. -/
def query : Parser Query := fun cs => segments (connected (unary cs.length)) cs

/-- Why a text is no query. -/
inductive Flaw where
  | unexpectedEnd
  | unexpectedInput (rest : String)
  deriving DecidableEq, Repr, Inhabited

/-- Reads a whole text as segments. -/
def parseQuery (cs : List Char) : Except Flaw Query :=
  let flaw (rest : List Char) : Except Flaw Query :=
    .error (if rest.isEmpty then .unexpectedEnd else .unexpectedInput (String.ofList rest))
  match query cs with
  | .ok q [] => .ok q
  | .ok _ rest => flaw rest
  | .miss => flaw cs
  | .halt rest => flaw rest

end Grammar

end StepFlow
