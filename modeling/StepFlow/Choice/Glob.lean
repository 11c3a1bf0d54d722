/-!
# Glob patterns

A star matches any run of characters, a backslash makes the character after it stand for itself, and
every other character stands for itself. `Glob.accepts` computes, from the last token of a pattern to
the first, which suffixes of the subject the tokens from there on match.
-/

namespace StepFlow

inductive GlobToken where
  | star
  | literal (c : Char)
  deriving DecidableEq, Repr, Inhabited

abbrev Glob := List GlobToken

namespace Glob

/-- The tokens of a pattern; a backslash at its end stands for itself. -/
def ofChars : List Char → Glob
  | [] => []
  | '*' :: rest => .star :: ofChars rest
  | '\\' :: [] => [.literal '\\']
  | '\\' :: c :: rest => .literal c :: ofChars rest
  | c :: rest => .literal c :: ofChars rest

def ofString (pattern : String) : Glob := ofChars pattern.toList

/-- For every suffix of a list: is there a true entry in it? -/
def anyFrom : List Bool → List Bool
  | [] => []
  | b :: rest =>
    let tail := anyFrom rest
    (b || tail.head?.getD false) :: tail

/-- From what the rest of a pattern matches to what it matches with a literal before it. -/
def before (c : Char) : List Char → List Bool → List Bool
  | x :: xs, _ :: bs => (x == c && bs.head?.getD false) :: before c xs bs
  | _, bs => bs.map fun _ => false

/-- For every suffix of the subject, from the whole to the empty one: does the pattern match it? -/
def accepts (subject : List Char) : Glob → List Bool
  | [] => List.replicate subject.length false ++ [true]
  | .star :: rest => anyFrom (accepts subject rest)
  | .literal c :: rest => before c subject (accepts subject rest)

/-- Does the pattern match the whole subject? -/
def matchesText (pattern : Glob) (subject : String) : Bool :=
  (accepts subject.toList pattern).head?.getD false

end Glob

end StepFlow
