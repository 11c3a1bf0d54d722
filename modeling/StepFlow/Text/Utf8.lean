/-!
# Reading bytes as text

Reads bytes as UTF-8. Where they are no text, the replacement character stands for each longest run
of bytes that could still have become a character, or else for a single byte.
-/

namespace StepFlow.Text

/-- What the bytes of a character under way still need: how many more, and the range of the next. -/
structure Expected where
  count : Nat
  least : Nat
  greatest : Nat
  deriving DecidableEq, Repr, Inhabited

/-- The bits of a lead byte and what has to follow it. The second byte is restricted where a shorter
form would do, where it would make a surrogate, and where the value would be too large. -/
def lead? (b : Nat) : Option (Nat × Expected) :=
  if 0xC2 ≤ b ∧ b ≤ 0xDF then some (b - 0xC0, ⟨1, 0x80, 0xBF⟩)
  else if b = 0xE0 then some (0, ⟨2, 0xA0, 0xBF⟩)
  else if b = 0xED then some (0xD, ⟨2, 0x80, 0x9F⟩)
  else if 0xE1 ≤ b ∧ b ≤ 0xEF then some (b - 0xE0, ⟨2, 0x80, 0xBF⟩)
  else if b = 0xF0 then some (0, ⟨3, 0x90, 0xBF⟩)
  else if 0xF1 ≤ b ∧ b ≤ 0xF3 then some (b - 0xF0, ⟨3, 0x80, 0xBF⟩)
  else if b = 0xF4 then some (4, ⟨3, 0x80, 0x8F⟩)
  else none

def replacement : Char := Char.ofNat 0xFFFD

/-- What a byte that starts a character gives at once, and the character under way after it. -/
def startByte (b : Nat) : List Char × Option (Nat × Expected) :=
  if b < 0x80 then ([Char.ofNat b], none)
  else
    match lead? b with
    | some state => ([], some state)
    | none => ([replacement], none)

/-- The characters of bytes that follow the bytes of a character under way. -/
def decodeFrom (state : Option (Nat × Expected)) : List UInt8 → List Char
  | [] => if state.isSome then [replacement] else []
  | b :: rest =>
    let b := b.toNat
    match state with
    | none =>
      let (out, state) := startByte b
      out ++ decodeFrom state rest
    | some (bits, expected) =>
      if expected.least ≤ b ∧ b ≤ expected.greatest then
        let bits := bits * 64 + (b - 0x80)
        if expected.count = 1 then Char.ofNat bits :: decodeFrom none rest
        else decodeFrom (some (bits, ⟨expected.count - 1, 0x80, 0xBF⟩)) rest
      else
        let (out, state) := startByte b
        replacement :: out ++ decodeFrom state rest

/-- The text that the bytes spell. -/
def ofBytes (bytes : List UInt8) : String := String.ofList (decodeFrom none bytes)

end StepFlow.Text
