import StepFlow.Document
import StepFlow.Binary64.Shortest

/-!
# Printing documents

`compact` writes a document on one line without blanks, `pretty` with one member a line, indented
by two spaces. In strings only the quote, the backslash and the control characters are escaped.
-/

namespace StepFlow

/-- A hexadecimal digit in lower case. -/
def hexDigit (n : Nat) : Char := Nat.digitChar n

/-- The escaped form of one character. -/
def escapeChar (c : Char) : List Char :=
  if c = '"' then ['\\', '"']
  else if c = '\\' then ['\\', '\\']
  else if c = '\n' then ['\\', 'n']
  else if c = '\r' then ['\\', 'r']
  else if c = '\t' then ['\\', 't']
  else if c = '\x08' then ['\\', 'b']
  else if c = '\x0c' then ['\\', 'f']
  else if c.toNat < 32 then
    ['\\', 'u', '0', '0', hexDigit (c.toNat / 16), hexDigit (c.toNat % 16)]
  else [c]

/-- A string in quotes. -/
def quoteString (s : String) : String :=
  "\"" ++ String.ofList (s.toList.flatMap escapeChar) ++ "\""

def Number.render : Number → String
  | int i => toString i
  | float x => x.render

namespace Document

mutual

/-- The text on one line. -/
def compact : Document → String
  | null => "null"
  | bool true => "true"
  | bool false => "false"
  | num n => n.render
  | str s => quoteString s
  | arr items => "[" ++ compactItems true items ++ "]"
  | obj fields => "\x7b" ++ compactFields true fields ++ "\x7d"

/-- The items with a comma before each but the first. -/
def compactItems (first : Bool) : List Document → String
  | [] => ""
  | d :: rest => (if first then "" else ",") ++ compact d ++ compactItems false rest

def compactFields (first : Bool) : Fields → String
  | [] => ""
  | (k, d) :: rest =>
    (if first then "" else ",") ++ quoteString k ++ ":" ++ compact d ++ compactFields false rest

end

/-- A line break and the blanks before a line at some depth. -/
def lineBreak (depth : Nat) : String := String.ofList ('\n' :: List.replicate (2 * depth) ' ')

mutual

/-- The text on several lines; empty containers stay on one. -/
def prettyAt (depth : Nat) : Document → String
  | arr (d :: rest) =>
    "[" ++ lineBreak (depth + 1) ++ prettyAt (depth + 1) d ++ prettyItems (depth + 1) rest
      ++ lineBreak depth ++ "]"
  | obj ((k, d) :: rest) =>
    "\x7b" ++ lineBreak (depth + 1) ++ quoteString k ++ ": " ++ prettyAt (depth + 1) d
      ++ prettyFields (depth + 1) rest ++ lineBreak depth ++ "\x7d"
  | d => compact d

/-- The items after the first. -/
def prettyItems (depth : Nat) : List Document → String
  | [] => ""
  | d :: rest => "," ++ lineBreak depth ++ prettyAt depth d ++ prettyItems depth rest

def prettyFields (depth : Nat) : Fields → String
  | [] => ""
  | (k, d) :: rest =>
    "," ++ lineBreak depth ++ quoteString k ++ ": " ++ prettyAt depth d ++ prettyFields depth rest

end

def pretty (d : Document) : String := prettyAt 0 d

end Document

end StepFlow
