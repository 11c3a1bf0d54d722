/-!
# Texts

White space as Unicode has it, and the length of a text in bytes where a rule counts bytes.
-/

namespace StepFlow.Text

/-- The Unicode property `White_Space`. -/
def isWhiteSpace (c : Char) : Bool :=
  let n := c.toNat
  (9 ≤ n && n ≤ 13) || n = 0x20 || n = 0x85 || n = 0xA0 || n = 0x1680
    || (0x2000 ≤ n && n ≤ 0x200A) || n = 0x2028 || n = 0x2029 || n = 0x202F || n = 0x205F
    || n = 0x3000

/-- The text without white space at its ends. -/
def trim (s : String) : String :=
  String.ofList ((s.toList.dropWhile isWhiteSpace).reverse.dropWhile isWhiteSpace).reverse

/-- Has the text less than `n` bytes? -/
def shorterThan (n : Nat) (cs : List Char) : Bool :=
  decide ((cs.take n).foldl (fun size c => size + c.utf8Size) 0 < n)

/-- The value of a run of decimal digits. -/
def digitsValue (ds : List Char) : Nat := ds.foldl (fun n d => n * 10 + (d.toNat - 48)) 0

/-- What follows a text in a longer one. -/
def afterPrefix? (front s : String) : Option String :=
  if front.toList.isPrefixOf s.toList then some (String.ofList (s.toList.drop front.length))
  else none

/-- What precedes a text at the end of a longer one. -/
def beforeSuffix? (back s : String) : Option String :=
  if back.toList.isSuffixOf s.toList then
    some (String.ofList (s.toList.take (s.length - back.length)))
  else none

end StepFlow.Text
